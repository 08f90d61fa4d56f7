import SplatLang.Proofs.Run.Laws
import SplatLang.Proofs.Run.Limits
import SplatLang.Proofs.Run.Points

/-!
# Frames

The variables of an activation are its own: what it calls neither sees nor changes them. So an
expression depends on the variables that stand in it and changes none, and a block depends on those
that it reads or assigns to and changes only those that it assigns to.

A block that stops on the way has changed variables as well, although nobody looks at them any
more. `leaves` says how the variables stand when a block is left, by its end, by a return or because
it was stopped, and all of this is said of stopped blocks too.
-/

namespace SplatLang

namespace Run

open Exec Typing

-- ---------------------------------------------------------------------------
-- How variables are left
-- ---------------------------------------------------------------------------

/-- The variables that a result hands on. Where it hands on none, they are as they were. -/
def handedOn (env : Env) : Ending (Env × Flow) × Machine → Env
  | (.done (env', _), _) => env'
  | (.fault _, _) | (.refused _, _) | (.exhausted, _) => env

/-- Where a result goes on, `after` tells how the variables are left; elsewhere they are left as
they are `here`. -/
def goesOn (here : Env) (after : Env → Machine → Env) : Ending (Env × Flow) × Machine → Env
  | (.done (env, .next), m) => after env m
  | (.done (_, .returned _), _) | (.fault _, _) | (.refused _, _) | (.exhausted, _) => here

/-- How the rounds of a loop leave the variables, if `inside` says how its body does. -/
def loopLeaves (test : Env → Exec Bool) (body : Env → Exec (Env × Flow))
    (inside : Env → Machine → Env) : Nat → Env → Machine → Env
  | 0, env, _ => env
  | n + 1, env, m =>
    match test env m with
    | (.done true, m') => goesOn (inside env m') (loopLeaves test body inside n) (body env m')
    | _ => env

mutual

def stmtLeaves (funcs : Bindings FuncDecl) (inv : Invoke) (rounds : Nat) :
    Stmt → Env → Machine → Env
  | .cond _ test body none, env, m =>
    match condition funcs inv env test m with
    | (.done true, m') => blockLeaves funcs inv rounds body env m'
    | _ => env
  | .cond _ test body (some alt), env, m =>
    match condition funcs inv env test m with
    | (.done true, m') => blockLeaves funcs inv rounds body env m'
    | (.done false, m') => blockLeaves funcs inv rounds alt env m'
    | _ => env
  | .loop _ test body, env, m =>
    loopLeaves (fun env => condition funcs inv env test)
      (fun env => execStmts funcs inv rounds body env)
      (fun env => blockLeaves funcs inv rounds body env) rounds env m
  -- Any other statement hands its variables on in one step or stops before that.
  | .assign tok label value, env, m =>
    handedOn env (execStmt funcs inv rounds (.assign tok label value) env m)
  | .print tok value, env, m => handedOn env (execStmt funcs inv rounds (.print tok value) env m)
  | .printLine tok, env, m => handedOn env (execStmt funcs inv rounds (.printLine tok) env m)
  | .ret tok value, env, m => handedOn env (execStmt funcs inv rounds (.ret tok value) env m)
  | .call tok label args, env, m =>
    handedOn env (execStmt funcs inv rounds (.call tok label args) env m)

def blockLeaves (funcs : Bindings FuncDecl) (inv : Invoke) (rounds : Nat) :
    List Stmt → Env → Machine → Env
  | [], env, _ => env
  | s :: rest, env, m =>
    goesOn (stmtLeaves funcs inv rounds s env m)
      (fun env m => blockLeaves funcs inv rounds rest env m) (execStmt funcs inv rounds s env m)

end

section

variable {funcs : Bindings FuncDecl} {inv : Invoke} {rounds : Nat} {test : Env → Exec Bool}
  {body : Env → Exec (Env × Flow)} {inside : Env → Machine → Env} {T : String → Prop}

-- ---------------------------------------------------------------------------
-- Where a block hands its variables on
-- ---------------------------------------------------------------------------

theorem loopLeaves_of_done
    (hinside : ∀ {env m env' flow m'}, body env m = (.done (env', flow), m') → inside env m = env')
    (h : repeatWhile test body n env m = (.done (env', flow), m')) :
    loopLeaves test body inside n env m = env' := by
  induction n generalizing env m with
  | zero => cases h
  | succ n ih =>
    rw [repeatWhile] at h
    rw [loopLeaves]
    split at h
    next heq =>
      cases h
      simp only [heq]
    next heq =>
      simp only [heq]
      split at h
      next hbody =>
        rw [hbody]
        exact ih h
      next hbody =>
        cases h
        rw [hbody]
        exact hinside hbody
      all_goals cases h
    all_goals cases h

mutual

theorem stmtLeaves_of_done : (s : Stmt) → {env env' : Env} → {m m' : Machine} → {flow : Flow} →
    execStmt funcs inv rounds s env m = (.done (env', flow), m') →
    stmtLeaves funcs inv rounds s env m = env'
  | .cond tok test body none, env, env', m, m', flow, h => by
    rw [execStmt, bind_done] at h
    obtain ⟨b, m₁, htest, h⟩ := h
    rw [stmtLeaves, htest]
    cases b with
    | true => exact blockLeaves_of_done body h
    | false =>
      cases h
      rfl
  | .cond tok test body (some alt), env, env', m, m', flow, h => by
    rw [execStmt, bind_done] at h
    obtain ⟨b, m₁, htest, h⟩ := h
    rw [stmtLeaves, htest]
    cases b with
    | true => exact blockLeaves_of_done body h
    | false => exact blockLeaves_of_done alt h
  | .loop tok test body, env, env', m, m', flow, h => by
    rw [execStmt] at h
    rw [stmtLeaves]
    exact loopLeaves_of_done (fun h => blockLeaves_of_done body h) h
  | .assign tok label value, env, env', m, m', flow, h => by
    rw [stmtLeaves, h, handedOn]
  | .print tok value, env, env', m, m', flow, h => by
    rw [stmtLeaves, h, handedOn]
  | .printLine tok, env, env', m, m', flow, h => by
    rw [stmtLeaves, h, handedOn]
  | .ret tok value, env, env', m, m', flow, h => by
    rw [stmtLeaves, h, handedOn]
  | .call tok label args, env, env', m, m', flow, h => by
    rw [stmtLeaves, h, handedOn]

theorem blockLeaves_of_done : (ss : List Stmt) → {env env' : Env} → {m m' : Machine} →
    {flow : Flow} → execStmts funcs inv rounds ss env m = (.done (env', flow), m') →
    blockLeaves funcs inv rounds ss env m = env'
  | [], env, env', m, m', flow, h => by
    rw [execStmts] at h
    cases h
    rw [blockLeaves]
  | s :: rest, env, env', m, m', flow, h => by
    rw [execStmts, bind_done] at h
    obtain ⟨⟨env₁, flow₁⟩, m₁, hs, h⟩ := h
    rw [blockLeaves, hs]
    cases flow₁ with
    | next => exact blockLeaves_of_done rest h
    | returned v =>
      cases h
      exact stmtLeaves_of_done s hs

end

theorem blockLeaves_single (s : Stmt) :
    blockLeaves funcs inv rounds [s] env m = stmtLeaves funcs inv rounds s env m := by
  unfold blockLeaves goesOn
  split
  next env' m' hdone =>
    rw [stmtLeaves_of_done s hdone]
    exact blockLeaves_of_done [] rfl
  all_goals rfl

-- ---------------------------------------------------------------------------
-- What a block keeps
-- ---------------------------------------------------------------------------

/-- The same labels are bound, and those outside `T` to the same values. -/
structure Keeps (T : String → Prop) (env env' : Env) : Prop where
  bound : env'.labels = env.labels
  values : ∀ label, ¬ T label → env'.get? label = env.get? label

theorem Keeps.refl (env : Env) : Keeps T env env := ⟨rfl, fun _ _ => rfl⟩

theorem Keeps.trans (h : Keeps T env env') (h' : Keeps T env' env'') : Keeps T env env'' :=
  ⟨h'.bound.trans h.bound, fun l hl => (h'.values l hl).trans (h.values l hl)⟩

theorem Keeps.set {env : Env} (hbound : env.has label = true) (hlabel : T label) (v : Value) :
    Keeps T env (env.set label v) := by
  refine ⟨Bindings.labels_set hbound, fun l hl => Bindings.get?_set_ne env v ?_⟩
  rintro rfl
  exact hl hlabel

def Assigns (T : String → Prop) (s : Stmt) : Prop :=
  ∀ tok label value, s = .assign tok label value → T label

theorem handedOn_meets {P : Env → Prop} {x : Exec (Env × Flow)}
    (h : Meets x (fun r => P r.1) fun _ => True) (henv : P env) : P (handedOn env (x m)) := by
  rcases hx : x m with ⟨⟨env', flow⟩ | f | reason | _, m'⟩
  · exact h.of_done hx
  · exact henv
  · exact henv
  · exact henv

-- Statements that only evaluate expressions leave the variables as they are.

theorem stmtLeaves_print : stmtLeaves funcs inv rounds (.print tok value) env m = env := by
  unfold stmtLeaves execStmt
  apply handedOn_meets (P := (· = env)) _ rfl
  exact (Meets.any _).bind fun v _ => (Meets.any _).bind fun _ _ => .pure rfl

theorem stmtLeaves_printLine : stmtLeaves funcs inv rounds (.printLine tok) env m = env := by
  unfold stmtLeaves execStmt
  apply handedOn_meets (P := (· = env)) _ rfl
  exact (Meets.any _).bind fun _ _ => .pure rfl

theorem stmtLeaves_ret : stmtLeaves funcs inv rounds (.ret tok value) env m = env := by
  unfold stmtLeaves
  apply handedOn_meets (P := (· = env)) _ rfl
  cases value with
  | none =>
    unfold execStmt
    exact .pure rfl
  | some e =>
    unfold execStmt
    exact (Meets.any _).bind fun v _ => .pure rfl

theorem stmtLeaves_call : stmtLeaves funcs inv rounds (.call tok label args) env m = env := by
  unfold stmtLeaves execStmt
  apply handedOn_meets (P := (· = env)) _ rfl
  exact (Meets.any _).bind fun _ _ => .pure rfl

theorem goesOn_keeps (hhere : Keeps T env here)
    (hafter : ∀ env' m, r = (.done (env', .next), m) → Keeps T here (after env' m)) :
    Keeps T env (goesOn here after r) := by
  unfold goesOn
  split
  · exact hhere.trans (hafter _ _ rfl)
  all_goals exact hhere

theorem loopLeaves_keeps
    (hdone : ∀ {env m env' flow m'}, body env m = (.done (env', flow), m') → inside env m = env')
    (hinside : ∀ env m, Keeps T env (inside env m)) (n : Nat) (env : Env) (m : Machine) :
    Keeps T env (loopLeaves test body inside n env m) := by
  induction n generalizing env m with
  | zero => exact .refl env
  | succ n ih =>
    unfold loopLeaves
    split
    next m' _ =>
      refine goesOn_keeps (hinside env m') fun env' m'' hbody => ?_
      rw [hdone hbody]
      exact ih env' m''
    · exact .refl env

mutual

theorem stmtLeaves_keeps : (s : Stmt) → Every (Assigns T) [s] → (env : Env) → (m : Machine) →
    Keeps T env (stmtLeaves funcs inv rounds s env m)
  | .cond tok test body none, hs, env, m => by
    unfold stmtLeaves
    split
    · exact blockLeaves_keeps body hs.thenBranch env _
    · exact .refl env
  | .cond tok test body (some alt), hs, env, m => by
    unfold stmtLeaves
    split
    · exact blockLeaves_keeps body hs.thenBranch env _
    · exact blockLeaves_keeps alt hs.elseBranch env _
    · exact .refl env
  | .loop tok test body, hs, env, m => by
    unfold stmtLeaves
    apply loopLeaves_keeps (blockLeaves_of_done body)
    exact blockLeaves_keeps body hs.loopBody
  | .assign tok label value, hs, env, m => by
    unfold stmtLeaves execStmt
    apply handedOn_meets _ (Keeps.refl env)
    split
    next hbound =>
      have hlabel := hs.here tok label value rfl
      exact (Meets.any _).bind fun v _ => .pure (.set hbound hlabel v)
    · exact .fail trivial
  | .print tok value, _, env, m => stmtLeaves_print.symm ▸ .refl env
  | .printLine tok, _, env, m => stmtLeaves_printLine.symm ▸ .refl env
  | .ret tok value, _, env, m => stmtLeaves_ret.symm ▸ .refl env
  | .call tok label args, _, env, m => stmtLeaves_call.symm ▸ .refl env

theorem blockLeaves_keeps : (ss : List Stmt) → Every (Assigns T) ss → (env : Env) →
    (m : Machine) → Keeps T env (blockLeaves funcs inv rounds ss env m)
  | [], hs, env, m => by
    unfold blockLeaves
    exact .refl env
  | s :: rest, hs, env, m => by
    unfold blockLeaves
    refine goesOn_keeps (stmtLeaves_keeps s hs.head env m) fun env' m' hdone => ?_
    rw [stmtLeaves_of_done s hdone]
    exact blockLeaves_keeps rest hs.tail env' m'

end

-- ---------------------------------------------------------------------------
-- What a block depends on
-- ---------------------------------------------------------------------------

/-- Calls are the same whatever they do, since a call is given values and no variables. -/
theorem sameCalls (funcs : Bindings FuncDecl) (inv : Invoke) :
    SameCalls sameness funcs funcs inv inv := by
  refine ⟨fun _ => rfl, fun tok fn values m => ?_⟩
  rcases inv tok fn values m with ⟨v | f | reason | _, m'⟩
  · exact ⟨.done rfl, rfl⟩
  · exact ⟨.fault, rfl⟩
  · exact ⟨.refused, rfl⟩
  · exact ⟨.exhausted, rfl⟩

variable {L : String → Prop}

theorem condition_same {test : Expr} (henv : AgreeOn L env env') (hs : Touches L s)
    (htest : test ∈ s.operands) (m : Machine) :
    condition funcs inv env test m = condition funcs inv env' test m :=
  (condition_compares (sameCalls funcs inv) test (henv.reads hs test htest) m).eq

theorem execStmt_same (hs : Every (Touches L) [s]) (henv : AgreeOn L env env') (m : Machine) :
    Matching (Alike (AgreeOn L)) (execStmt funcs inv rounds s env m)
      (execStmt funcs inv rounds s env' m) :=
  execStmt_compares (sameCalls funcs inv) (.inl rfl) s hs henv m

theorem execStmts_same (hs : Every (Touches L) ss) (henv : AgreeOn L env env') (m : Machine) :
    Matching (Alike (AgreeOn L)) (execStmts funcs inv rounds ss env m)
      (execStmts funcs inv rounds ss env' m) :=
  execStmts_compares (sameCalls funcs inv) (.inl rfl) ss hs henv m

theorem handedOn_agrees (henv : AgreeOn L env env') (h : Matching (Alike (AgreeOn L)) r r') :
    AgreeOn L (handedOn env r) (handedOn env' r') := by
  obtain ⟨ending, m⟩ := r
  obtain ⟨ending', m'⟩ := r'
  obtain ⟨hending, -⟩ := h
  cases hending with
  | done halike => exact halike.1
  | fault => exact henv
  | refused => exact henv
  | exhausted => exact henv

theorem goesOn_agrees (h : Matching (Alike (AgreeOn L)) r r') (hhere : AgreeOn L here here')
    (hafter : ∀ {env env'}, AgreeOn L env env' → ∀ m, AgreeOn L (after env m) (after' env' m)) :
    AgreeOn L (goesOn here after r) (goesOn here' after' r') := by
  obtain ⟨ending, m⟩ := r
  obtain ⟨ending', m'⟩ := r'
  obtain ⟨hending, hm⟩ := h
  cases (show m = m' from hm)
  cases hending with
  | @done a b halike =>
    obtain ⟨env, flow⟩ := a
    obtain ⟨env', flow'⟩ := b
    obtain ⟨henv, hflow⟩ := halike
    cases (show flow = flow' from hflow)
    cases flow with
    | next => exact hafter henv m
    | returned v => exact hhere
  | fault => exact hhere
  | refused => exact hhere
  | exhausted => exact hhere

theorem loopLeaves_agrees
    (ht : ∀ {env env'}, AgreeOn L env env' → ∀ m, test env m = test env' m)
    (hb : ∀ {env env'}, AgreeOn L env env' → ∀ m,
      Matching (Alike (AgreeOn L)) (body env m) (body env' m))
    (hinside : ∀ {env env'}, AgreeOn L env env' → ∀ m, AgreeOn L (inside env m) (inside env' m))
    (n : Nat) (henv : AgreeOn L env env') (m : Machine) :
    AgreeOn L (loopLeaves test body inside n env m) (loopLeaves test body inside n env' m) := by
  induction n generalizing env env' m with
  | zero => exact henv
  | succ n ih =>
    unfold loopLeaves
    rw [← ht henv]
    split
    · exact goesOn_agrees (hb henv _) (hinside henv _) ih
    · exact henv

mutual

theorem stmtLeaves_agrees : (s : Stmt) → {env env' : Env} → Every (Touches L) [s] →
    AgreeOn L env env' → (m : Machine) →
    AgreeOn L (stmtLeaves funcs inv rounds s env m) (stmtLeaves funcs inv rounds s env' m)
  | .cond tok test body none, env, env', hs, henv, m => by
    unfold stmtLeaves
    rw [← condition_same henv hs.here List.mem_cons_self]
    split
    · exact blockLeaves_agrees body hs.thenBranch henv _
    · exact henv
  | .cond tok test body (some alt), env, env', hs, henv, m => by
    unfold stmtLeaves
    rw [← condition_same henv hs.here List.mem_cons_self]
    split
    · exact blockLeaves_agrees body hs.thenBranch henv _
    · exact blockLeaves_agrees alt hs.elseBranch henv _
    · exact henv
  | .loop tok test body, env, env', hs, henv, m => by
    unfold stmtLeaves
    apply loopLeaves_agrees _ _ _ rounds henv
    · exact fun henv => condition_same henv hs.here List.mem_cons_self
    · exact execStmts_same hs.loopBody
    · exact blockLeaves_agrees body hs.loopBody
  | .assign tok label value, env, env', hs, henv, m => by
    unfold stmtLeaves
    exact handedOn_agrees henv (execStmt_same hs henv m)
  | .print tok value, env, env', hs, henv, m => by
    unfold stmtLeaves
    exact handedOn_agrees henv (execStmt_same hs henv m)
  | .printLine tok, env, env', hs, henv, m => by
    unfold stmtLeaves
    exact handedOn_agrees henv (execStmt_same hs henv m)
  | .ret tok value, env, env', hs, henv, m => by
    unfold stmtLeaves
    exact handedOn_agrees henv (execStmt_same hs henv m)
  | .call tok label args, env, env', hs, henv, m => by
    unfold stmtLeaves
    exact handedOn_agrees henv (execStmt_same hs henv m)

theorem blockLeaves_agrees : (ss : List Stmt) → {env env' : Env} → Every (Touches L) ss →
    AgreeOn L env env' → (m : Machine) →
    AgreeOn L (blockLeaves funcs inv rounds ss env m) (blockLeaves funcs inv rounds ss env' m)
  | [], env, env', _, henv, m => by
    unfold blockLeaves
    exact henv
  | s :: rest, env, env', hs, henv, m => by
    unfold blockLeaves
    apply goesOn_agrees (execStmt_same hs.head henv m) (stmtLeaves_agrees s hs.head henv m)
    exact blockLeaves_agrees rest hs.tail

end

end

-- ---------------------------------------------------------------------------
-- Frames are isolated
-- ---------------------------------------------------------------------------

/-- A variable of this label stands in the expression itself, not in what it calls. -/
def Reads (e : Expr) (label : String) : Prop := ∃ tok, Expr.Part (.var tok label) e

def Targets (b : List Stmt) (label : String) : Prop :=
  ∃ tok value, Within (.assign tok label value) b

def Mentions (b : List Stmt) (label : String) : Prop :=
  (∃ s e, Within s b ∧ e ∈ s.operands ∧ Reads e label) ∨ Targets b label

theorem touches_mentions (b : List Stmt) : Every (Touches (Mentions b)) b := by
  intro s hs
  refine ⟨fun e he tok label hpart => .inl ⟨s, e, hs, he, tok, hpart⟩, ?_⟩
  rintro tok label value rfl
  exact .inr ⟨tok, value, hs⟩

theorem assigns_targets (b : List Stmt) : Every (Assigns (Targets b)) b := by
  rintro s hs tok label value rfl
  exact ⟨tok, value, hs⟩

def Frame.leaves (p : Program) (limit : Int) (f : Frame) (b : List Stmt) (m : Machine) : Env :=
  blockLeaves (functionTable p) (invoke (functionTable p) limit f.allowance) f.allowance b f.env m

/-- Frames are isolated. The value of an expression, its fault and what it does to the machine
depend only on the variables that stand in it, and none is changed by a statement that evaluates
it. How a block ends, with which value or fault, and what it does to the machine depend only on the
variables that it reads or assigns to; it leaves them alike where it found them alike, binds no
label and unbinds none, and keeps the value of every label that it does not assign to, also if it is
stopped on the way and whatever it calls. -/
theorem call_frames_isolated (p : Program) (limit : Int) (f : Frame) (env : Env) :
    (∀ e, (AgreeOn (Reads e) f.env env → f.eval p limit e = { f with env }.eval p limit e) ∧
      ∀ tok m, f.leaves p limit [.ret tok (some e)] m = f.env) ∧
    (∀ b, AgreeOn (Mentions b) f.env env → ∀ m,
      Matching (Alike (AgreeOn (Mentions b))) (f.execAll p limit b m)
        ({ f with env }.execAll p limit b m) ∧
      AgreeOn (Mentions b) (f.leaves p limit b m) ({ f with env }.leaves p limit b m)) ∧
    ∀ b m, (∀ env' flow m', f.execAll p limit b m = (.done (env', flow), m') →
        f.leaves p limit b m = env') ∧
      (f.leaves p limit b m).labels = f.env.labels ∧
      ∀ label, ¬ Targets b label → (f.leaves p limit b m).get? label = f.env.get? label := by
  refine ⟨fun e => ⟨fun henv => ?_, fun tok m => ?_⟩, fun b henv m => ⟨?_, ?_⟩,
    fun b m => ⟨fun env' flow m' h => ?_, ?_⟩⟩
  · funext m
    have hvars (tok : Token) (label : String) (h : Expr.Part (.var tok label) e) :
        f.env.get? label = env.get? label := henv label ⟨tok, h⟩
    exact (evalExpr_compares (sameCalls _ _) e hvars m).eq
  · exact (blockLeaves_single _).trans stmtLeaves_ret
  · exact execStmts_same (touches_mentions b) henv m
  · exact blockLeaves_agrees b (touches_mentions b) henv m
  · exact blockLeaves_of_done b h
  · obtain ⟨hbound, hvalues⟩ := blockLeaves_keeps b (assigns_targets b) f.env m
    exact ⟨hbound, hvalues⟩

/-- A function whose parameter and local variable have the names of variables of its caller, which
it overwrites before it divides by one of them. -/
def overwriting : Program :=
  ⟨default,
    [.func ⟨default, "f", [⟨default, "x", .integer⟩], .integer, [⟨default, "z", .integer⟩],
      [.assign default "x" (.literal default "7"),
        .ret default (some (.binary default (.var default "x") "/" (.var default "z")))]⟩],
    []⟩

def callerFrame (z : Value) : Frame := ⟨.main, 3, [("x", .integer 1), ("y", .integer 2), ("z", z)]⟩

def callerBlock : List Stmt :=
  [.assign default "y" (.var default "x"),
    .assign default "x" (.call default "f" [.var default "y"])]

theorem reads_var : Reads (.var tok l) label ↔ label = l := by
  constructor
  · rintro ⟨_, ⟨⟩⟩
    rfl
  · rintro rfl
    exact ⟨tok, .self⟩

theorem reads_call : Reads (.call tok l args) label ↔ ∃ a ∈ args, Reads a label := by
  constructor
  · rintro ⟨tok, hpart⟩
    cases hpart with
    | arg ha hpart => exact ⟨_, ha, tok, hpart⟩
  · rintro ⟨a, ha, tok, hpart⟩
    exact ⟨tok, .arg ha hpart⟩

theorem mentions_callerBlock (h : Mentions callerBlock label) : label = "x" ∨ label = "y" := by
  rcases h with ⟨s, e, hs, he, hreads⟩ | ⟨tok, value, hs⟩
  · simp only [callerBlock, within_cons, Inside, not_within_nil, or_false] at hs
    rcases hs with rfl | rfl
    · cases List.mem_singleton.mp he
      exact .inl (reads_var.mp hreads)
    · cases List.mem_singleton.mp he
      simpa [reads_call, reads_var] using Or.inr hreads
  · simp only [callerBlock, within_cons, Inside, not_within_nil, or_false, Stmt.assign.injEq] at hs
    rcases hs with ⟨-, rfl, -⟩ | ⟨-, rfl, -⟩
    · exact .inr rfl
    · exact .inl rfl

theorem overwriting_run :
    ((callerFrame (.integer 5)).execAll overwriting 0 callerBlock {}).1 =
      .fault ⟨.divisionByZero, default⟩ ∧
    ((callerFrame (.integer 5)).leaves overwriting 0 callerBlock {}).get? "y" =
      some (.integer 1) := by
  decide +kernel

/-- The call ends with a fault. By then the caller has set one of its variables, and has not looked
at another one, which has the name of the variable that was divided by. -/
theorem call_frames_isolated_overwriting :
    (∃ fault m, (callerFrame (.integer 5)).execAll overwriting 0 callerBlock {} =
        (.fault fault, m) ∧ fault.cause = .divisionByZero ∧
      (callerFrame (.string "s")).execAll overwriting 0 callerBlock {} = (.fault fault, m)) ∧
    ((callerFrame (.integer 5)).leaves overwriting 0 callerBlock {}).get? "z" =
      some (.integer 5) ∧
    ((callerFrame (.string "s")).leaves overwriting 0 callerBlock {}).get? "y" =
      some (.integer 1) := by
  have hsame : AgreeOn (Mentions callerBlock) (callerFrame (.integer 5)).env
      (callerFrame (.string "s")).env := by
    intro label hlabel
    rcases mentions_callerBlock hlabel with rfl | rfl <;> rfl
  have hz : ¬ Targets callerBlock "z" := fun h =>
    absurd (mentions_callerBlock (.inr h)) (by decide)
  obtain ⟨-, hruns, hkeeps⟩ :=
    call_frames_isolated overwriting 0 (callerFrame (.integer 5)) (callerFrame (.string "s")).env
  obtain ⟨⟨hending, hmachine⟩, hleaves⟩ := hruns callerBlock hsame {}
  obtain ⟨hfault, hy⟩ := overwriting_run
  rw [hfault] at hending
  refine ⟨⟨_, _, Prod.ext hfault rfl, rfl, Prod.ext hending.of_fault hmachine.symm⟩, ?_, ?_⟩
  · exact (hkeeps callerBlock {}).2.2 "z" hz
  · exact (hleaves "y" (.inr ⟨_, _, .here⟩)).symm.trans hy

end Run

end SplatLang
