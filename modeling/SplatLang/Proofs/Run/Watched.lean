import SplatLang.Proofs.Run.Points

/-!
# Watched runs

A watched run shows every point to a watcher before it does what stands there, with the machine as
it is then. The watcher may change the machine or stop the run, so nothing that it is shown stays
without a trace unless it lets the point pass. A watcher that lets the `Reached` points pass leaves
a run as it is: these are all the points that a run comes to.
-/

namespace SplatLang.Run

open Exec

-- ---------------------------------------------------------------------------
-- Runs with a watcher
-- ---------------------------------------------------------------------------

section

variable (watch : Point → Exec Unit) (funcs : Bindings FuncDecl)

mutual

def watchExpr (inv : Invoke) (f : Frame) : Expr → Exec Value
  | .literal tok raw => do
    watch (.expr f (.literal tok raw))
    need (.invalidLiteral raw) tok (Value.ofLiteral? raw)
  | .var tok label => do
    watch (.expr f (.var tok label))
    need (.undefinedVariable label) tok (f.env.get? label)
  | .binary tok left op right => do
    watch (.expr f (.binary tok left op right))
    let l ← watchExpr inv f left
    let r ← watchExpr inv f right
    binary tok op l r
  | .unary tok op operand => do
    watch (.expr f (.unary tok op operand))
    let v ← watchExpr inv f operand
    unary tok op v
  | .call tok label args => do
    watch (.expr f (.call tok label args))
    let v ← call funcs inv tok label args.length (watchArgs inv f args)
    need (.noValue label) tok v

def watchArgs (inv : Invoke) (f : Frame) : List Expr → Exec (List Value)
  | [] => do
    watch (.args f [])
    pure []
  | e :: rest => do
    watch (.args f (e :: rest))
    let v ← watchExpr inv f e
    let vs ← watchArgs inv f rest
    pure (v :: vs)

end

def watchTest (inv : Invoke) (f : Frame) (test : Expr) : Exec Bool := do
  match ← watchExpr watch funcs inv f test with
  | .boolean b => pure b
  | _ => fail .conditionNotBoolean test.tok

mutual

def watchStmt (inv : Invoke) : Stmt → Frame → Exec (Env × Flow)
  | .assign tok label value, f => do
    watch (.stmt f (.assign tok label value))
    if f.env.has label then
      let v ← watchExpr watch funcs inv f value
      pure (f.env.set label v, .next)
    else fail (.undefinedVariable label) tok
  | .cond tok test body none, f => do
    watch (.stmt f (.cond tok test body none))
    if ← watchTest watch funcs inv f test then watchStmts inv body f else pure (f.env, .next)
  | .cond tok test body (some alt), f => do
    watch (.stmt f (.cond tok test body (some alt)))
    if ← watchTest watch funcs inv f test then watchStmts inv body f else watchStmts inv alt f
  -- Every round begins at the loop again, with the variables as they are by then.
  | .loop tok test body, f =>
    repeatWhile
      (fun env => do
        watch (.stmt { f with env } (.loop tok test body))
        watchTest watch funcs inv { f with env } test)
      (fun env => watchStmts inv body { f with env }) f.allowance f.env
  | .print tok value, f => do
    watch (.stmt f (.print tok value))
    let v ← watchExpr watch funcs inv f value
    write v.text
    pure (f.env, .next)
  | .printLine tok, f => do
    watch (.stmt f (.printLine tok))
    write "\n"
    pure (f.env, .next)
  | .ret tok none, f => do
    watch (.stmt f (.ret tok none))
    pure (f.env, .returned none)
  | .ret tok (some value), f => do
    watch (.stmt f (.ret tok (some value)))
    let v ← watchExpr watch funcs inv f value
    pure (f.env, .returned (some v))
  | .call tok label args, f => do
    watch (.stmt f (.call tok label args))
    let _ ← call funcs inv tok label args.length (watchArgs watch funcs inv f args)
    pure (f.env, .next)

def watchStmts (inv : Invoke) : List Stmt → Frame → Exec (Env × Flow)
  | [], f => do
    watch (.block f [])
    pure (f.env, .next)
  | s :: rest, f => do
    watch (.block f (s :: rest))
    match ← watchStmt inv s f with
    | (env, .next) => watchStmts inv rest { f with env }
    | (env, .returned v) => pure (env, .returned v)

end

def watchInvoke (limit : Int) : Nat → Invoke
  | 0, tok, fn, values => do
    watch (.call 0 tok fn values)
    exhausted
  | n + 1, tok, fn, values => do
    watch (.call (n + 1) tok fn values)
    deeper do
      let d ← depth
      if exceeds limit d then fail (.depthLimit limit) tok
      else
        let env ← bindZeros (bindParams fn.params values) fn.locals
        record (.call fn.label d)
        let (_, flow) ← watchStmts watch funcs (watchInvoke limit n) fn.body ⟨.func fn, n, env⟩
        pure flow.value?

end

def watchProgram (watch : Point → Exec Unit) (limit : Int) (n : Nat) (p : Program) : Exec Unit :=
  fun m => (do
    let funcs := functionTable p
    let env ← bindZeros [] p.vars
    record (.executing p.tok.location.file funcs.length)
    let inv := watchInvoke watch funcs limit n
    let (_, flow) ← watchStmts watch funcs inv p.stmts ⟨.main, n, env⟩
    match flow with
    | .next => record (.finished p.tok.location.file)
    | .returned _ => fail .returnEscaped p.tok : Exec Unit) { m with depth := 0 }

-- ---------------------------------------------------------------------------
-- Computations on one machine
-- ---------------------------------------------------------------------------

theorem bind_at {x y : Exec α} {f g : α → Exec β} (h : x m = y m)
    (hk : ∀ a m', y m = (.done a, m') → f a m' = g a m') : (x >>= f) m = (y >>= g) m := by
  show Exec.bind x f m = Exec.bind y g m
  unfold Exec.bind
  rw [h]
  cases hy : y m with
  | mk ending m' =>
    cases ending with
    | done a => exact hk a m' hy
    | fault | refused | exhausted => rfl

theorem watch_passes {x : Exec α} {watch : Exec Unit} (h : watch m = (.done (), m)) :
    (watch >>= fun _ => x) m = x m := by
  show Exec.bind watch (fun _ => x) m = x m
  unfold Exec.bind
  rw [h]

theorem ite_at {x y x' y' : Exec α} {c : Prop} [Decidable c] (h : c → x m = x' m)
    (h' : ¬c → y m = y' m) : (if c then x else y) m = (if c then x' else y') m := by
  split
  next hc => exact h hc
  next hc => exact h' hc

theorem deeper_at {x y : Exec α} (h : x { m with depth := m.depth + 1 } =
    y { m with depth := m.depth + 1 }) : deeper x m = deeper y m := by
  unfold deeper
  rw [h]

-- ---------------------------------------------------------------------------
-- A run comes to reached points only
-- ---------------------------------------------------------------------------

section

variable {p : Program} {limit : Int} {n : Nat} {m₀ : Machine} {watch : Point → Exec Unit}

/-- Reached calls are made as a run makes them. -/
def Follows (p : Program) (limit : Int) (n : Nat) (m₀ : Machine) (k : Nat) (inv : Invoke) : Prop :=
  ∀ {tok fn values m}, Reached p limit n m₀ (.call k tok fn values) m →
    inv tok fn values m = invoke (functionTable p) limit k tok fn values m

variable (hwatch : ∀ {point m}, Reached p limit n m₀ point m → watch point m = (.done (), m))
  {f : Frame} {inv : Invoke} {m : Machine}

theorem call_at (hinv : Follows p limit n m₀ f.allowance inv) {args : Exec (List Value)}
    (hargs : args m = f.evalAll p limit es m)
    (hcall : ∀ fn values m', (functionTable p).get? label = some fn →
      es.length = fn.params.length → f.evalAll p limit es m = (.done values, m') →
      Reached p limit n m₀ (.call f.allowance tok fn values) m') :
    call (functionTable p) inv tok label es.length args m =
      call (functionTable p) (invoke (functionTable p) limit f.allowance) tok label es.length
        (f.evalAll p limit es) m := by
  unfold call
  cases hfn : (functionTable p).get? label with
  | none => rfl
  | some fn =>
    refine ite_at (c := es.length = fn.params.length) (fun hcount => ?_) fun _ => rfl
    exact bind_at hargs fun values m' hvalues => hinv (hcall fn values m' hfn hcount hvalues)

include hwatch

mutual

theorem watchExpr_at (hinv : Follows p limit n m₀ f.allowance inv) : (e : Expr) → {m : Machine} →
    Reached p limit n m₀ (.expr f e) m →
    watchExpr watch (functionTable p) inv f e m = f.eval p limit e m
  | .literal tok raw, m, h => by
    rw [watchExpr, watch_passes (hwatch h), Frame.eval, evalExpr]
  | .var tok label, m, h => by
    rw [watchExpr, watch_passes (hwatch h), Frame.eval, evalExpr]
  | .binary tok left op right, m, h => by
    rw [watchExpr, watch_passes (hwatch h), Frame.eval, evalExpr]
    refine bind_at (watchExpr_at hinv left h.left) fun l m' hl => ?_
    exact bind_at (watchExpr_at hinv right (h.right hl)) fun _ _ _ => rfl
  | .unary tok op operand, m, h => by
    rw [watchExpr, watch_passes (hwatch h), Frame.eval, evalExpr]
    exact bind_at (watchExpr_at hinv operand h.inner) fun _ _ _ => rfl
  | .call tok label args, m, h => by
    rw [watchExpr, watch_passes (hwatch h), Frame.eval, evalExpr]
    refine bind_at (call_at hinv (watchArgs_at hinv args h.exprArgs) ?_) fun _ _ _ => rfl
    exact fun fn values m' hfn hcount hvalues => h.exprCall hfn hcount hvalues

theorem watchArgs_at (hinv : Follows p limit n m₀ f.allowance inv) : (es : List Expr) →
    {m : Machine} → Reached p limit n m₀ (.args f es) m →
    watchArgs watch (functionTable p) inv f es m = f.evalAll p limit es m
  | [], m, h => by
    rw [watchArgs, watch_passes (hwatch h), Frame.evalAll, evalArgs]
  | e :: rest, m, h => by
    rw [watchArgs, watch_passes (hwatch h), Frame.evalAll, evalArgs]
    refine bind_at (watchExpr_at hinv e h.firstArg) fun v m' hv => ?_
    exact bind_at (watchArgs_at hinv rest (h.laterArgs hv)) fun _ _ _ => rfl

end

theorem watchTest_at (hinv : Follows p limit n m₀ f.allowance inv) {test : Expr}
    (h : Reached p limit n m₀ (.expr f test) m) :
    watchTest watch (functionTable p) inv f test m = f.test p limit test m :=
  bind_at (watchExpr_at hwatch hinv test h) fun _ _ _ => rfl

omit hwatch in
theorem repeatWhile_at (Within : Env → Machine → Prop) {test test' : Env → Exec Bool}
    {body body' : Env → Exec (Env × Flow)}
    (htest : ∀ env m, Within env m → test env m = test' env m)
    (hbody : ∀ env m m', Within env m → test' env m = (.done true, m') →
      body env m' = body' env m')
    (hagain : ∀ env m m' env' m'', Within env m → test' env m = (.done true, m') →
      body' env m' = (.done (env', .next), m'') → Within env' m'')
    (rounds : Nat) (env : Env) (m : Machine) (h : Within env m) :
    repeatWhile test body rounds env m = repeatWhile test' body' rounds env m := by
  induction rounds generalizing env m with
  | zero => rfl
  | succ rounds ih =>
    rw [repeatWhile, repeatWhile, htest env m h]
    split
    · rfl
    · next m' hround =>
      rw [hbody env m m' h hround]
      split
      · next env' m'' hnext => exact ih env' m'' (hagain env m m' env' m'' h hround hnext)
      all_goals rfl
    all_goals rfl

mutual

theorem watchStmt_at : (s : Stmt) → {f : Frame} → Follows p limit n m₀ f.allowance inv →
    {m : Machine} → Reached p limit n m₀ (.stmt f s) m →
    watchStmt watch (functionTable p) inv s f m = f.exec p limit s m
  | .assign tok label value, f, hinv, m, h => by
    rw [watchStmt, watch_passes (hwatch h), Frame.exec, execStmt]
    refine ite_at (fun _ => ?_) fun _ => rfl
    exact bind_at (watchExpr_at hwatch hinv value (h.operand rfl)) fun _ _ _ => rfl
  | .cond tok test body none, f, hinv, m, h => by
    rw [watchStmt, watch_passes (hwatch h), Frame.exec, execStmt]
    refine bind_at (watchTest_at hwatch hinv (h.operand rfl)) fun b m' hb => ?_
    cases b with
    | true => exact watchStmts_at body hinv (h.thenBranch hb)
    | false => rfl
  | .cond tok test body (some alt), f, hinv, m, h => by
    rw [watchStmt, watch_passes (hwatch h), Frame.exec, execStmt]
    refine bind_at (watchTest_at hwatch hinv (h.operand rfl)) fun b m' hb => ?_
    cases b with
    | true => exact watchStmts_at body hinv (h.thenBranch hb)
    | false => exact watchStmts_at alt hinv (h.elseBranch hb)
  | .loop tok test body, f, hinv, m, h => by
    rw [watchStmt, Frame.exec, execStmt]
    -- The loop is reached again before every round.
    refine repeatWhile_at
      (fun env m => Reached p limit n m₀ (.stmt { f with env } (.loop tok test body)) m)
      (fun env m h => ?_) (fun env m m' h hround => ?_)
      (fun env m m' env' m'' h hround hnext => h.again hround hnext) f.allowance f.env m h
    · rw [watch_passes (hwatch h)]
      exact watchTest_at hwatch (f := { f with env }) hinv (h.operand rfl)
    · exact watchStmts_at (f := { f with env }) body hinv (h.round hround)
  | .print tok value, f, hinv, m, h => by
    rw [watchStmt, watch_passes (hwatch h), Frame.exec, execStmt]
    exact bind_at (watchExpr_at hwatch hinv value (h.operand rfl)) fun _ _ _ => rfl
  | .printLine tok, f, hinv, m, h => by
    rw [watchStmt, watch_passes (hwatch h), Frame.exec, execStmt]
  | .ret tok none, f, hinv, m, h => by
    rw [watchStmt, watch_passes (hwatch h), Frame.exec, execStmt]
  | .ret tok (some value), f, hinv, m, h => by
    rw [watchStmt, watch_passes (hwatch h), Frame.exec, execStmt]
    exact bind_at (watchExpr_at hwatch hinv value (h.operand rfl)) fun _ _ _ => rfl
  | .call tok label args, f, hinv, m, h => by
    rw [watchStmt, watch_passes (hwatch h), Frame.exec, execStmt]
    refine bind_at (call_at hinv (watchArgs_at hwatch hinv args h.stmtArgs) ?_) fun _ _ _ => rfl
    exact fun fn values m' hfn hcount hvalues => h.stmtCall hfn hcount hvalues

theorem watchStmts_at : (ss : List Stmt) → {f : Frame} → Follows p limit n m₀ f.allowance inv →
    {m : Machine} → Reached p limit n m₀ (.block f ss) m →
    watchStmts watch (functionTable p) inv ss f m = f.execAll p limit ss m
  | [], f, hinv, m, h => by
    rw [watchStmts, watch_passes (hwatch h), Frame.execAll, execStmts]
  | s :: rest, f, hinv, m, h => by
    rw [watchStmts, watch_passes (hwatch h), Frame.execAll, execStmts]
    refine bind_at (watchStmt_at s hinv h.head) fun (env, flow) m' hs => ?_
    cases flow with
    | next => exact watchStmts_at (f := { f with env }) rest hinv (h.next hs)
    | returned => rfl

end

theorem watchInvoke_follows (k : Nat) :
    Follows p limit n m₀ k (watchInvoke watch (functionTable p) limit k) := by
  induction k with
  | zero =>
    intro tok fn values m h
    rw [watchInvoke, watch_passes (hwatch h), invoke]
  | succ k ih =>
    intro tok fn values m h
    rw [watchInvoke, watch_passes (hwatch h), invoke]
    refine deeper_at (bind_at rfl fun d m' hd => ?_)
    obtain ⟨rfl, rfl⟩ : d = m.depth + 1 ∧ m' = { m with depth := m.depth + 1 } := by
      cases hd
      exact ⟨rfl, rfl⟩
    refine ite_at (fun _ => rfl) fun hlimit => ?_
    refine bind_at rfl fun env m' henv => bind_at rfl fun _ m'' hrecord => ?_
    cases hrecord
    refine bind_at ?_ fun _ _ _ => rfl
    exact watchStmts_at hwatch (f := ⟨.func fn, k, env⟩) fn.body ih
      (h.enter (Bool.eq_false_iff.mpr hlimit) henv)

omit hwatch in
/-- The points that a run comes to are reached ones: a watcher that lets those pass lets all pass
that it is shown. -/
theorem watched_run (m₀ : Machine)
    (hwatch : ∀ point m, Reached p limit n m₀ point m → watch point m = (.done (), m)) :
    watchProgram watch limit n p m₀ = program limit n p m₀ := by
  unfold watchProgram program
  refine bind_at rfl fun env m henv => bind_at rfl fun _ m' hrecord => ?_
  cases hrecord
  refine bind_at ?_ fun _ _ _ => rfl
  exact watchStmts_at (hwatch _ _) (f := ⟨.main, n, env⟩) p.stmts
    (watchInvoke_follows (hwatch _ _) n) (.start henv)

end

end SplatLang.Run
