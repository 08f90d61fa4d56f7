import SplatLang.Proofs.Run.Lockstep

/-!
# Bodies and the calls in them

A body runs by putting computations together; only its calls and its loops are left to an
allowance. So what is kept when computations are put together is kept by a whole body, if the calls
that stand in it keep it, and if giving up keeps it in case that the body has a loop. A
`Congruence` is such a property, here of two computations that pass the same values on; one that
looks at a single computation is a special case.

Unlike a `Lockstep` it may be different at each depth of calls, so nothing is said here about what
a call does to the machine.
-/

namespace SplatLang

open Typing

-- ---------------------------------------------------------------------------
-- What is called
-- ---------------------------------------------------------------------------

def Expr.Calls (e : Expr) (label : String) : Prop := ∃ tok args, Expr.Part (.call tok label args) e

/-- A statement is a call of `label`, or one stands in what it evaluates. Its blocks are apart. -/
def Stmt.Calls (s : Stmt) (label : String) : Prop :=
  (∃ tok args, s = .call tok label args) ∨ ∃ e ∈ s.operands, e.Calls label

-- ---------------------------------------------------------------------------
-- Congruences
-- ---------------------------------------------------------------------------

/-- A relation that the means of putting computations together respect. That a call is recorded or
is forbidden by a limit is left out: only calls do so. -/
structure Exec.Congruence where
  Holds {α : Type} (x y : Exec α) : Prop
  pure {α : Type} {a : α} : Holds (Pure.pure a) (Pure.pure a)
  bind {α β : Type} {x y : Exec α} {f g : α → Exec β} :
    Holds x y → (∀ a, Holds (f a) (g a)) → Holds (x >>= f) (y >>= g)
  fail {α : Type} {cause : RunCause} {tok : Token} : (∀ limit, cause ≠ .depthLimit limit) →
    Holds (Exec.fail (α := α) cause tok) (Exec.fail cause tok)
  record {e : Event} : (∀ label d, e ≠ .call label d) → Holds (Exec.record e) (Exec.record e)
  write {text : String} : Holds (Exec.write text) (Exec.write text)

namespace Exec.Congruence

variable (C : Congruence)

theorem ite {x y x' y' : Exec α} {c : Prop} [Decidable c] (h : C.Holds x y) (h' : C.Holds x' y') :
    C.Holds (if c then x else x') (if c then y else y') := by
  split
  · exact h
  · exact h'

theorem need (h : ∀ limit, cause ≠ .depthLimit limit) (o : Option α) :
    C.Holds (Exec.need cause tok o) (Exec.need cause tok o) := by
  cases o with
  | some a => exact C.pure
  | none => exact C.fail h

end Exec.Congruence

namespace Run

open Exec

section

variable (C : Congruence)

theorem unary_respects : C.Holds (unary tok op v) (unary tok op v) := by
  unfold unary
  split
  · exact C.pure
  · exact C.fail nofun
  · exact C.pure
  · exact C.fail nofun
  · exact C.fail nofun

theorem arithmetic_respects : C.Holds (arithmetic tok op l r) (arithmetic tok op l r) := by
  cases op with
  | add => exact C.pure
  | sub => exact C.pure
  | mul => exact C.pure
  | div => exact C.ite (C.fail nofun) C.pure
  | mod => exact C.ite (C.fail nofun) C.pure

theorem binary_respects : C.Holds (binary tok op l r) (binary tok op l r) := by
  rw [binary_eq]
  split
  · split
    · exact arithmetic_respects C
    · exact C.fail nofun
  · split
    · exact C.pure
    · exact C.fail nofun
  · split
    · exact C.pure
    · exact C.fail nofun
  · exact C.ite C.pure (C.fail nofun)
  · exact C.fail nofun

theorem bindZeros_respects (env : Env) (vars : List VarDecl) :
    C.Holds (bindZeros env vars) (bindZeros env vars) := by
  induction vars generalizing env with
  | nil => exact C.pure
  | cons v rest ih => exact C.bind (C.need (by nofun) _) fun zero => ih _

end

-- ---------------------------------------------------------------------------
-- Expressions
-- ---------------------------------------------------------------------------

def CallRespects (C : Congruence) (funcs : Bindings FuncDecl) (inv inv' : Invoke)
    (label : String) : Prop :=
  ∀ fn, funcs.get? label = some fn → ∀ tok values, C.Holds (inv tok fn values) (inv' tok fn values)

section

variable {C : Congruence} {funcs : Bindings FuncDecl} {inv inv' : Invoke}

theorem call_respects (h : CallRespects C funcs inv inv' label) {args args' : Exec (List Value)}
    (hargs : C.Holds args args') :
    C.Holds (call funcs inv tok label count args) (call funcs inv' tok label count args') := by
  unfold call
  cases hfn : funcs.get? label with
  | none => exact C.fail nofun
  | some fn =>
    refine C.ite (c := count = fn.params.length) ?_ (C.fail nofun)
    exact C.bind hargs fun values => h fn hfn tok values

mutual

theorem evalExpr_respects (env : Env) : (e : Expr) →
    (∀ label, e.Calls label → CallRespects C funcs inv inv' label) →
    C.Holds (evalExpr funcs inv env e) (evalExpr funcs inv' env e)
  | .literal tok raw, _ => by
    rw [evalExpr, evalExpr]
    exact C.need (by nofun) _
  | .var tok label, _ => by
    rw [evalExpr, evalExpr]
    exact C.need (by nofun) _
  | .binary tok left op right, h => by
    rw [evalExpr, evalExpr]
    have hleft := evalExpr_respects env left fun label ⟨t, as, hp⟩ => h label ⟨t, as, .left hp⟩
    have hright := evalExpr_respects env right fun label ⟨t, as, hp⟩ => h label ⟨t, as, .right hp⟩
    exact C.bind hleft fun l => C.bind hright fun r => binary_respects C
  | .unary tok op operand, h => by
    rw [evalExpr, evalExpr]
    have hoperand := evalExpr_respects env operand fun label ⟨t, as, hp⟩ =>
      h label ⟨t, as, .operand hp⟩
    exact C.bind hoperand fun v => unary_respects C
  | .call tok label args, h => by
    rw [evalExpr, evalExpr]
    have hargs := evalArgs_respects env args fun e he label ⟨t, as, hp⟩ =>
      h label ⟨t, as, .arg he hp⟩
    have hcall := h label ⟨tok, args, .self⟩
    exact C.bind (call_respects hcall hargs) fun v => C.need (by nofun) v

theorem evalArgs_respects (env : Env) : (es : List Expr) →
    (∀ e ∈ es, ∀ label, e.Calls label → CallRespects C funcs inv inv' label) →
    C.Holds (evalArgs funcs inv env es) (evalArgs funcs inv' env es)
  | [], _ => by
    rw [evalArgs, evalArgs]
    exact C.pure
  | e :: rest, h => by
    rw [evalArgs, evalArgs]
    have he := evalExpr_respects env e (h e List.mem_cons_self)
    have hrest := evalArgs_respects env rest fun a ha => h a (List.mem_cons_of_mem e ha)
    exact C.bind he fun v => C.bind hrest fun vs => C.pure

end

theorem condition_respects (env : Env) (test : Expr)
    (h : ∀ label, test.Calls label → CallRespects C funcs inv inv' label) :
    C.Holds (condition funcs inv env test) (condition funcs inv' env test) := by
  refine C.bind (evalExpr_respects env test h) fun v => ?_
  cases v with
  | boolean b => exact C.pure
  | integer n => exact C.fail nofun
  | string s => exact C.fail nofun

-- ---------------------------------------------------------------------------
-- Statements
-- ---------------------------------------------------------------------------

/-- What a statement leaves to an allowance is respected: its calls, and its rounds if it is a
loop. -/
structure Respected (C : Congruence) (funcs : Bindings FuncDecl) (inv inv' : Invoke) (s : Stmt) :
    Prop where
  calls : ∀ label, s.Calls label → CallRespects C funcs inv inv' label
  rounds : ∀ tok test body, s = .loop tok test body →
    C.Holds (exhausted (α := Env × Flow)) exhausted

theorem Respected.operand (h : Respected C funcs inv inv' s) (he : e ∈ s.operands) (label : String)
    (hcall : e.Calls label) : CallRespects C funcs inv inv' label :=
  h.calls label (.inr ⟨e, he, hcall⟩)

theorem repeatWhile_respects {test test' : Env → Exec Bool}
    {body body' : Env → Exec (Env × Flow)} (ht : ∀ env, C.Holds (test env) (test' env))
    (hb : ∀ env, C.Holds (body env) (body' env))
    (hend : C.Holds (exhausted (α := Env × Flow)) exhausted) (n : Nat) (env : Env) :
    C.Holds (repeatWhile test body n env) (repeatWhile test' body' n env) := by
  induction n generalizing env with
  | zero => exact hend
  | succ n ih =>
    rw [repeatWhile_succ, repeatWhile_succ]
    refine C.bind (ht env) fun again => C.ite (C.bind (hb env) ?_) C.pure
    rintro ⟨env', flow⟩
    cases flow with
    | next => exact ih env'
    | returned v => exact C.pure

mutual

theorem execStmt_respects : (s : Stmt) → {env : Env} → Every (Respected C funcs inv inv') [s] →
    C.Holds (execStmt funcs inv rounds s env) (execStmt funcs inv' rounds s env)
  | .assign tok label value, env, h => by
    rw [execStmt, execStmt]
    have hvalue := evalExpr_respects env value (h.here.operand List.mem_cons_self)
    exact C.ite (C.bind hvalue fun v => C.pure) (C.fail nofun)
  | .cond tok test body none, env, h => by
    rw [execStmt, execStmt]
    have htest := condition_respects env test (h.here.operand List.mem_cons_self)
    exact C.bind htest fun b => C.ite (execStmts_respects body h.thenBranch) C.pure
  | .cond tok test body (some alt), env, h => by
    rw [execStmt, execStmt]
    have htest := condition_respects env test (h.here.operand List.mem_cons_self)
    refine C.bind htest fun b => C.ite ?_ ?_
    · exact execStmts_respects body h.thenBranch
    · exact execStmts_respects alt h.elseBranch
  | .loop tok test body, env, h => by
    rw [execStmt, execStmt]
    refine repeatWhile_respects (fun env => ?_) (fun env => ?_) (h.here.rounds _ _ _ rfl) _ _
    · exact condition_respects env test (h.here.operand List.mem_cons_self)
    · exact execStmts_respects body h.loopBody
  | .print tok value, env, h => by
    rw [execStmt, execStmt]
    have hvalue := evalExpr_respects env value (h.here.operand List.mem_cons_self)
    exact C.bind hvalue fun v => C.bind C.write fun _ => C.pure
  | .printLine tok, env, _ => by
    rw [execStmt, execStmt]
    exact C.bind C.write fun _ => C.pure
  | .ret tok none, env, _ => by
    rw [execStmt, execStmt]
    exact C.pure
  | .ret tok (some value), env, h => by
    rw [execStmt, execStmt]
    have hvalue := evalExpr_respects env value (h.here.operand List.mem_cons_self)
    exact C.bind hvalue fun v => C.pure
  | .call tok label args, env, h => by
    rw [execStmt, execStmt]
    have hargs := evalArgs_respects env args fun e he => h.here.operand he
    have hcall := h.here.calls label (.inl ⟨tok, args, rfl⟩)
    exact C.bind (call_respects hcall hargs) fun _ => C.pure

theorem execStmts_respects : (ss : List Stmt) → {env : Env} →
    Every (Respected C funcs inv inv') ss →
    C.Holds (execStmts funcs inv rounds ss env) (execStmts funcs inv' rounds ss env)
  | [], env, _ => by
    rw [execStmts, execStmts]
    exact C.pure
  | s :: rest, env, h => by
    rw [execStmts, execStmts]
    refine C.bind (execStmt_respects s h.head) ?_
    rintro ⟨env', flow⟩
    cases flow with
    | next => exact execStmts_respects rest h.tail
    | returned v => exact C.pure

end

-- ---------------------------------------------------------------------------
-- Calls and programs
-- ---------------------------------------------------------------------------

def activate (funcs : Bindings FuncDecl) (limit : Int) (d : Nat) (inv : Invoke) (rounds : Nat)
    (tok : Token) (fn : FuncDecl) (values : List Value) : Exec (Option Value) :=
  if exceeds limit d then fail (.depthLimit limit) tok
  else do
    let env ← bindZeros (bindParams fn.params values) fn.locals
    record (.call fn.label d)
    let (_, flow) ← execStmts funcs inv rounds fn.body env
    pure flow.value?

/-- A call counts itself and goes by the counter. -/
theorem invoke_succ (funcs : Bindings FuncDecl) (limit : Int) (n : Nat) (tok : Token)
    (fn : FuncDecl) (values : List Value) :
    invoke funcs limit (n + 1) tok fn values = deeper (depth >>= fun d =>
      activate funcs limit d (invoke funcs limit n) n tok fn values) :=
  rfl

def main (p : Program) (inv : Invoke) (rounds : Nat) : Exec Unit := do
  let env ← bindZeros [] p.vars
  record (.executing p.tok.location.file (functionTable p).length)
  let (_, flow) ← execStmts (functionTable p) inv rounds p.stmts env
  match flow with
  | .next => record (.finished p.tok.location.file)
  | .returned _ => fail .returnEscaped p.tok

theorem program_eq (limit : Int) (n : Nat) (p : Program) (m : Machine) :
    program limit n p m = main p (invoke (functionTable p) limit n) n { m with depth := 0 } :=
  rfl

/-- What a call does after it has been let through. -/
theorem activate_respects
    (hlimit : exceeds limit d = true →
      C.Holds (fail (α := Option Value) (.depthLimit limit) tok) (fail (.depthLimit limit) tok))
    (hcall : C.Holds (record (.call fn.label d)) (record (.call fn.label d)))
    (hbody : exceeds limit d = false → Every (Respected C funcs inv inv') fn.body) :
    C.Holds (activate funcs limit d inv rounds tok fn values)
      (activate funcs limit d inv' rounds tok fn values) := by
  unfold activate
  cases hd : exceeds limit d with
  | true => exact hlimit hd
  | false =>
    refine C.bind (bindZeros_respects C _ _) fun env => C.bind hcall fun _ => ?_
    exact C.bind (execStmts_respects fn.body (hbody hd)) fun _ => C.pure

theorem main_respects (hbody : Every (Respected C (functionTable p) inv inv') p.stmts) :
    C.Holds (main p inv rounds) (main p inv' rounds) := by
  refine C.bind (bindZeros_respects C _ _) fun env => C.bind (C.record (by nofun)) fun _ => ?_
  refine C.bind (execStmts_respects p.stmts hbody) ?_
  rintro ⟨env', flow⟩
  cases flow with
  | next => exact C.record (by nofun)
  | returned v => exact C.fail (by nofun)

end

end Run

end SplatLang
