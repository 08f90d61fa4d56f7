import SplatLang.Exec
import SplatLang.Proofs.Bindings
import SplatLang.Proofs.Typing.Decides

/-!
# Comparing two runs

Runs under two limits, into two sinks or with two tables of functions walk the same tree and
differ in little. A `Lockstep` relates computations in a way that every means of putting
computations together respects; `program_compares` carries it from the means to whole runs. The
recursion over the tree, and the inductions on rounds and calls, are done here once.

A comparison may let the second run have the larger allowance (`Lags`): then it has to hold also if
the first run gives up at once. The variables of the two runs need to agree only where the tree looks at them.
-/

namespace SplatLang

-- ---------------------------------------------------------------------------
-- What stands in a tree
-- ---------------------------------------------------------------------------

inductive Expr.Part (e : Expr) : Expr → Prop
  | self : Part e e
  | left {tok left op right} : Part e left → Part e (.binary tok left op right)
  | right {tok left op right} : Part e right → Part e (.binary tok left op right)
  | operand {tok op operand} : Part e operand → Part e (.unary tok op operand)
  | arg {tok label args a} : a ∈ args → Part e a → Part e (.call tok label args)

/-- The expressions that a statement evaluates itself, apart from its blocks. -/
def Stmt.operands : Stmt → List Expr
  | .assign _ _ value | .print _ value | .ret _ (some value) => [value]
  | .cond _ test _ _ | .loop _ test _ => [test]
  | .call _ _ args => args
  | .printLine _ | .ret _ none => []

def Typing.Every (P : Stmt → Prop) (ss : List Stmt) : Prop := ∀ s, Within s ss → P s

namespace Typing.Every

variable {P : Stmt → Prop}

theorem here (h : Every P (s :: rest)) : P s := h s .here

theorem head (h : Every P (s :: rest)) : Every P [s] := by
  intro t ht
  rw [within_cons, or_iff_left not_within_nil] at ht
  exact h t (within_cons.mpr (.inl ht))

theorem tail (h : Every P (s :: rest)) : Every P rest := fun t ht => h t (.later ht)

theorem thenBranch (h : Every P (.cond tok test body alt :: rest)) : Every P body :=
  fun t ht => h t (.thenBranch ht)

theorem elseBranch (h : Every P (.cond tok test body (some alt) :: rest)) : Every P alt :=
  fun t ht => h t (.elseBranch ht)

theorem loopBody (h : Every P (.loop tok test body :: rest)) : Every P body :=
  fun t ht => h t (.loopBody ht)

end Typing.Every

-- ---------------------------------------------------------------------------
-- Comparisons
-- ---------------------------------------------------------------------------

/-- A way to compare two computations. The values they give are compared by a relation that is
passed along. It relates every value to itself, so what a comparison says of one computation alone
also holds of what follows a value that only one of the two has given. -/
structure Exec.Lockstep where
  Holds {α : Type} (R : α → α → Prop) (x y : Exec α) : Prop
  pure {α : Type} {R : α → α → Prop} {a b : α} : R a b → Holds R (Pure.pure a) (Pure.pure b)
  bind {α β : Type} {R : α → α → Prop} {S : β → β → Prop} {x y : Exec α} {f g : α → Exec β} :
    (∀ a, R a a) → Holds R x y → (∀ a b, R a b → Holds S (f a) (g b)) →
    Holds S (x >>= f) (y >>= g)
  fail {α : Type} {R : α → α → Prop} {cause : RunCause} {tok : Token} :
    Holds R (Exec.fail cause tok) (Exec.fail cause tok)
  record {e : Event} : Holds Eq (Exec.record e) (Exec.record e)
  depth : Holds Eq Exec.depth Exec.depth
  write {text : String} : Holds Eq (Exec.write text) (Exec.write text)
  deeper {α : Type} {R : α → α → Prop} {x y : Exec α} :
    Holds R x y → Holds R (Exec.deeper x) (Exec.deeper y)
  restart {α : Type} {R : α → α → Prop} {x y : Exec α} :
    Holds R x y → Holds R (fun m => x { m with depth := 0 }) (fun m => y { m with depth := 0 })
  exhausted {α : Type} {R : α → α → Prop} : Holds R Exec.exhausted Exec.exhausted
  /-- The first computation may give up where the second goes on. -/
  Lags : Prop
  early {α : Type} {R : α → α → Prop} {x y : Exec α} :
    Lags → Holds R x y → Holds R Exec.exhausted y

namespace Exec.Lockstep

variable (C : Lockstep)

/-- The two runs have the same allowance, or the first one may have less. -/
def Allows (n k : Nat) : Prop := n = k ∨ C.Lags ∧ n ≤ k

theorem seq {x y : Exec α} {f g : α → Exec β} (h : C.Holds Eq x y)
    (hk : ∀ a, C.Holds S (f a) (g a)) : C.Holds S (x >>= f) (y >>= g) :=
  C.bind (fun _ => rfl) h fun a _ hab => hab ▸ hk a

theorem ite {x y x' y' : Exec α} {c : Prop} [Decidable c] (h : C.Holds R x y)
    (h' : C.Holds R x' y') : C.Holds R (if c then x else x') (if c then y else y') := by
  split
  · exact h
  · exact h'

theorem need (o : Option α) : C.Holds Eq (Exec.need cause tok o) (Exec.need cause tok o) := by
  cases o with
  | some a => exact C.pure rfl
  | none => exact C.fail

end Exec.Lockstep

namespace Run

open Exec Typing

-- ---------------------------------------------------------------------------
-- Operators
-- ---------------------------------------------------------------------------

section

variable (C : Lockstep)

theorem unary_compares : C.Holds Eq (unary tok op v) (unary tok op v) := by
  unfold unary
  split
  · exact C.pure rfl
  · exact C.fail
  · exact C.pure rfl
  · exact C.fail
  · exact C.fail

theorem arithmetic_compares : C.Holds Eq (arithmetic tok op l r) (arithmetic tok op l r) := by
  cases op with
  | add => exact C.pure rfl
  | sub => exact C.pure rfl
  | mul => exact C.pure rfl
  | div => exact C.ite C.fail (C.pure rfl)
  | mod => exact C.ite C.fail (C.pure rfl)

theorem binary_compares : C.Holds Eq (binary tok op l r) (binary tok op l r) := by
  rw [binary_eq]
  split
  · split
    · exact arithmetic_compares C
    · exact C.fail
  · split
    · exact C.pure rfl
    · exact C.fail
  · split
    · exact C.pure rfl
    · exact C.fail
  · exact C.ite (C.pure rfl) C.fail
  · exact C.fail

end

-- ---------------------------------------------------------------------------
-- Loops
-- ---------------------------------------------------------------------------

def Alike (I : Env → Env → Prop) (r r' : Env × Flow) : Prop := I r.1 r'.1 ∧ r.2 = r'.2

theorem repeatWhile_succ (test : Env → Exec Bool) (body : Env → Exec (Env × Flow)) (n : Nat)
    (env : Env) :
    repeatWhile test body (n + 1) env =
      test env >>= fun again =>
        if again then
          body env >>= fun r =>
            match r with
            | (env', .next) => repeatWhile test body n env'
            | (env', .returned v) => pure (env', .returned v)
        else pure (env, .next) := by
  funext m
  show repeatWhile test body (n + 1) env m = Exec.bind (test env) _ m
  unfold repeatWhile Exec.bind
  obtain ⟨ending, m'⟩ := test env m
  cases ending with
  | done again =>
    cases again with
    | false => rfl
    | true =>
      simp only [if_true]
      show _ = Exec.bind (body env) _ m'
      unfold Exec.bind
      rcases body env m' with ⟨⟨env', flow⟩ | f | reason | _, m''⟩
      · cases flow <;> rfl
      · rfl
      · rfl
      · rfl
  | fault f => rfl
  | refused reason => rfl
  | exhausted => rfl

/-- By induction on both allowances at once: what holds without any, and carries over to one more
round or call on both sides, holds of equal allowances. Of a smaller and a larger one it holds if
the first side may give up. -/
theorem of_allowances (C : Lockstep) {P : Nat → Nat → Prop} (zero : P 0 0)
    (early : C.Lags → ∀ k, P k k → P 0 k)
    (step : ∀ n k, C.Allows n k → P n k → P (n + 1) (k + 1)) {n k : Nat} (h : C.Allows n k) :
    P n k := by
  have hsame (k : Nat) : P k k := by
    induction k with
    | zero => exact zero
    | succ k ih => exact step k k (.inl rfl) ih
  rcases h with rfl | ⟨hlags, hle⟩
  · exact hsame n
  · induction n generalizing k with
    | zero => exact early hlags k (hsame k)
    | succ n ih =>
      cases k with
      | zero => exact absurd hle (Nat.not_succ_le_zero n)
      | succ k =>
        have hle := Nat.le_of_succ_le_succ hle
        exact step n k (.inr ⟨hlags, hle⟩) (ih hle)

theorem repeatWhile_compares (C : Lockstep) {test test' : Env → Exec Bool}
    {body body' : Env → Exec (Env × Flow)} {I : Env → Env → Prop} (hrefl : ∀ env, I env env)
    (ht : ∀ env env', I env env' → C.Holds Eq (test env) (test' env'))
    (hb : ∀ env env', I env env' → C.Holds (Alike I) (body env) (body' env'))
    (hle : C.Allows n k) {env env' : Env} (henv : I env env') :
    C.Holds (Alike I) (repeatWhile test body n env) (repeatWhile test' body' k env') := by
  refine of_allowances C (P := fun n k => ∀ env env', I env env' →
    C.Holds (Alike I) (repeatWhile test body n env) (repeatWhile test' body' k env'))
    ?_ ?_ ?_ hle env env' henv
  · exact fun _ _ _ => C.exhausted
  · exact fun hlags k hk env env' henv => C.early hlags (hk env env' henv)
  · intro n k _ ih env env' henv
    rw [repeatWhile_succ, repeatWhile_succ]
    refine C.seq (ht env env' henv) fun again => C.ite ?_ (C.pure ⟨henv, rfl⟩)
    refine C.bind (fun r => ⟨hrefl r.1, rfl⟩) (hb env env' henv) ?_
    rintro ⟨env₁, flow⟩ ⟨env₂, _⟩ ⟨henv₁, rfl⟩
    cases flow with
    | next => exact ih env₁ env₂ henv₁
    | returned v => exact C.pure ⟨henv₁, rfl⟩

-- ---------------------------------------------------------------------------
-- Expressions
-- ---------------------------------------------------------------------------

structure SameCalls (C : Lockstep) (funcs funcs' : Bindings FuncDecl) (inv inv' : Invoke) :
    Prop where
  lookup : ∀ label, funcs.get? label = funcs'.get? label
  invoke : ∀ tok fn values, C.Holds Eq (inv tok fn values) (inv' tok fn values)

section

variable {C : Lockstep} {funcs funcs' : Bindings FuncDecl} {inv inv' : Invoke}

theorem call_compares (h : SameCalls C funcs funcs' inv inv') {args args' : Exec (List Value)}
    (hargs : C.Holds Eq args args') :
    C.Holds Eq (call funcs inv tok label count args) (call funcs' inv' tok label count args') := by
  unfold call
  rw [h.lookup]
  refine C.seq (C.need _) fun fn => C.ite ?_ C.fail
  exact C.seq hargs fun values => h.invoke tok fn values

mutual

theorem evalExpr_compares (h : SameCalls C funcs funcs' inv inv') {env env' : Env} : (e : Expr) →
    (∀ tok label, Expr.Part (.var tok label) e → env.get? label = env'.get? label) →
    C.Holds Eq (evalExpr funcs inv env e) (evalExpr funcs' inv' env' e)
  | .literal tok raw, _ => by
    rw [evalExpr, evalExpr]
    exact C.need _
  | .var tok label, hvars => by
    rw [evalExpr, evalExpr, hvars tok label .self]
    exact C.need _
  | .binary tok left op right, hvars => by
    rw [evalExpr, evalExpr]
    have hleft := evalExpr_compares h left fun tok l hl => hvars tok l (.left hl)
    have hright := evalExpr_compares h right fun tok l hl => hvars tok l (.right hl)
    exact C.seq hleft fun l => C.seq hright fun r => binary_compares C
  | .unary tok op operand, hvars => by
    rw [evalExpr, evalExpr]
    have hoperand := evalExpr_compares h operand fun tok l hl => hvars tok l (.operand hl)
    exact C.seq hoperand fun v => unary_compares C
  | .call tok label args, hvars => by
    rw [evalExpr, evalExpr]
    have hargs := evalArgs_compares h args fun a ha tok l hl => hvars tok l (.arg ha hl)
    exact C.seq (call_compares h hargs) fun v => C.need v

theorem evalArgs_compares (h : SameCalls C funcs funcs' inv inv') {env env' : Env} :
    (es : List Expr) →
    (∀ e ∈ es, ∀ tok label, Expr.Part (.var tok label) e → env.get? label = env'.get? label) →
    C.Holds Eq (evalArgs funcs inv env es) (evalArgs funcs' inv' env' es)
  | [], _ => by
    rw [evalArgs, evalArgs]
    exact C.pure rfl
  | e :: rest, hvars => by
    rw [evalArgs, evalArgs]
    have he := evalExpr_compares h e (hvars e List.mem_cons_self)
    have hrest := evalArgs_compares h rest fun a ha => hvars a (List.mem_cons_of_mem e ha)
    exact C.seq he fun v => C.seq hrest fun vs => C.pure rfl

end

theorem condition_compares (h : SameCalls C funcs funcs' inv inv') {env env' : Env} (test : Expr)
    (hvars : ∀ tok label, Expr.Part (.var tok label) test → env.get? label = env'.get? label) :
    C.Holds Eq (condition funcs inv env test) (condition funcs' inv' env' test) := by
  refine C.seq (evalExpr_compares h test hvars) fun v => ?_
  cases v with
  | boolean b => exact C.pure rfl
  | integer n => exact C.fail
  | string s => exact C.fail

-- ---------------------------------------------------------------------------
-- Statements
-- ---------------------------------------------------------------------------

/-- The variables that a statement reads or assigns to have labels in `L`. -/
def Touches (L : String → Prop) (s : Stmt) : Prop :=
  (∀ e ∈ s.operands, ∀ tok label, Expr.Part (.var tok label) e → L label) ∧
    ∀ tok label value, s = .assign tok label value → L label

def AgreeOn (L : String → Prop) (env env' : Env) : Prop :=
  ∀ label, L label → env.get? label = env'.get? label

theorem AgreeOn.set {L : String → Prop} (h : AgreeOn L env env') (label : String) (v : Value) :
    AgreeOn L (env.set label v) (env'.set label v) := by
  intro l hl
  by_cases heq : l = label
  · rw [heq, Bindings.get?_set_self, Bindings.get?_set_self]
  · rw [Bindings.get?_set_ne _ _ heq, Bindings.get?_set_ne _ _ heq]
    exact h l hl

/-- What the operands of a statement read has the same values on both sides. -/
theorem AgreeOn.reads {L : String → Prop} (h : AgreeOn L env env') (hs : Touches L s) :
    ∀ e ∈ s.operands, ∀ tok label, Expr.Part (.var tok label) e →
      env.get? label = env'.get? label :=
  fun e he tok label hp => h label (hs.1 e he tok label hp)

mutual

theorem execStmt_compares (h : SameCalls C funcs funcs' inv inv') (hle : C.Allows rounds rounds')
    {L : String → Prop} : (s : Stmt) → {env env' : Env} → Every (Touches L) [s] →
    AgreeOn L env env' →
    C.Holds (Alike (AgreeOn L)) (execStmt funcs inv rounds s env)
      (execStmt funcs' inv' rounds' s env')
  | .assign tok label value, env, env', hs, henv => by
    have hlabel := henv label (hs.here.2 tok label value rfl)
    rw [execStmt, execStmt, Bindings.has, hlabel, ← Bindings.has]
    refine C.ite ?_ C.fail
    have hvalue := evalExpr_compares h value (henv.reads hs.here value List.mem_cons_self)
    exact C.seq hvalue fun v => C.pure ⟨henv.set label v, rfl⟩
  | .cond tok test body none, env, env', hs, henv => by
    rw [execStmt, execStmt]
    have htest := condition_compares h test (henv.reads hs.here test List.mem_cons_self)
    refine C.seq htest fun b => C.ite ?_ (C.pure ⟨henv, rfl⟩)
    exact execStmts_compares h hle body hs.thenBranch henv
  | .cond tok test body (some alt), env, env', hs, henv => by
    rw [execStmt, execStmt]
    have htest := condition_compares h test (henv.reads hs.here test List.mem_cons_self)
    refine C.seq htest fun b => C.ite ?_ ?_
    · exact execStmts_compares h hle body hs.thenBranch henv
    · exact execStmts_compares h hle alt hs.elseBranch henv
  | .loop tok test body, env, env', hs, henv => by
    rw [execStmt, execStmt]
    refine repeatWhile_compares C (fun _ _ _ => rfl) (fun env env' henv => ?_)
      (fun env env' henv => ?_) hle henv
    · exact condition_compares h test (henv.reads hs.here test List.mem_cons_self)
    · exact execStmts_compares h hle body hs.loopBody henv
  | .print tok value, env, env', hs, henv => by
    rw [execStmt, execStmt]
    have hvalue := evalExpr_compares h value (henv.reads hs.here value List.mem_cons_self)
    exact C.seq hvalue fun v => C.seq C.write fun _ => C.pure ⟨henv, rfl⟩
  | .printLine tok, env, env', _, henv => by
    rw [execStmt, execStmt]
    exact C.seq C.write fun _ => C.pure ⟨henv, rfl⟩
  | .ret tok none, env, env', _, henv => by
    rw [execStmt, execStmt]
    exact C.pure ⟨henv, rfl⟩
  | .ret tok (some value), env, env', hs, henv => by
    rw [execStmt, execStmt]
    have hvalue := evalExpr_compares h value (henv.reads hs.here value List.mem_cons_self)
    exact C.seq hvalue fun v => C.pure ⟨henv, rfl⟩
  | .call tok label args, env, env', hs, henv => by
    rw [execStmt, execStmt]
    have hargs := evalArgs_compares h args (henv.reads hs.here)
    exact C.seq (call_compares h hargs) fun _ => C.pure ⟨henv, rfl⟩

theorem execStmts_compares (h : SameCalls C funcs funcs' inv inv') (hle : C.Allows rounds rounds')
    {L : String → Prop} : (ss : List Stmt) → {env env' : Env} → Every (Touches L) ss →
    AgreeOn L env env' →
    C.Holds (Alike (AgreeOn L)) (execStmts funcs inv rounds ss env)
      (execStmts funcs' inv' rounds' ss env')
  | [], env, env', _, henv => by
    rw [execStmts, execStmts]
    exact C.pure ⟨henv, rfl⟩
  | s :: rest, env, env', hs, henv => by
    rw [execStmts, execStmts]
    refine C.bind (fun _ => ⟨fun _ _ => rfl, rfl⟩) (execStmt_compares h hle s hs.head henv) ?_
    rintro ⟨env₁, flow⟩ ⟨env₂, _⟩ ⟨henv₁, rfl⟩
    cases flow with
    | next => exact execStmts_compares h hle rest hs.tail henv₁
    | returned v => exact C.pure ⟨henv₁, rfl⟩

end

-- ---------------------------------------------------------------------------
-- Calls and programs
-- ---------------------------------------------------------------------------

/-- Comparing goes on over the check of a call against the two limits. -/
def SameLimits (C : Lockstep) (limit limit' : Int) : Prop :=
  ∀ {α : Type} {R : α → α → Prop} {x y : Exec α} (tok : Token) (d : Nat), C.Holds R x y →
    C.Holds R (if exceeds limit d then fail (.depthLimit limit) tok else x)
      (if exceeds limit' d then fail (.depthLimit limit') tok else y)

theorem sameLimits_self (C : Lockstep) (limit : Int) : SameLimits C limit limit :=
  fun _ _ h => C.ite C.fail h

/-- Any label goes: a whole body may look at all its variables. -/
theorem touches_any (ss : List Stmt) : Every (Touches fun _ => True) ss :=
  fun _ _ => ⟨fun _ _ _ _ _ => trivial, fun _ _ _ _ => trivial⟩

theorem bindZeros_compares (C : Lockstep) {R : Env → Env → Prop} (hrefl : ∀ env, R env env)
    (env : Env) (vars : List VarDecl) : C.Holds R (bindZeros env vars) (bindZeros env vars) := by
  induction vars generalizing env with
  | nil => exact C.pure (hrefl env)
  | cons v rest ih => exact C.seq (C.need _) fun zero => ih _

theorem invoke_compares (hlookup : ∀ label, funcs.get? label = funcs'.get? label)
    (hlimit : SameLimits C limit limit') (hle : C.Allows n k) (tok : Token) (fn : FuncDecl)
    (values : List Value) :
    C.Holds Eq (invoke funcs limit n tok fn values) (invoke funcs' limit' k tok fn values) := by
  refine of_allowances C (P := fun n k => ∀ tok fn values,
    C.Holds Eq (invoke funcs limit n tok fn values) (invoke funcs' limit' k tok fn values))
    ?_ ?_ ?_ hle tok fn values
  · exact fun _ _ _ => C.exhausted
  · exact fun hlags k hk tok fn values => C.early hlags (hk tok fn values)
  · intro n k hle ih tok fn values
    refine C.deeper (C.seq C.depth fun d => hlimit tok d ?_)
    refine C.seq (bindZeros_compares C (fun _ => rfl) _ _) fun env => C.seq C.record fun _ => ?_
    refine C.bind (fun _ => ⟨fun _ _ => rfl, rfl⟩) (execStmts_compares ⟨hlookup, ih⟩ hle fn.body
      (touches_any _) fun _ _ => rfl) ?_
    rintro ⟨env₁, flow⟩ ⟨env₂, _⟩ ⟨-, rfl⟩
    exact C.pure rfl

/-- Two programs with the same body compare if they find the same functions and start with the
same variables. -/
theorem program_compares {p q : Program} (htok : p.tok = q.tok) (hstmts : p.stmts = q.stmts)
    (hlookup : ∀ label, (functionTable p).get? label = (functionTable q).get? label)
    (hcount : (functionTable p).length = (functionTable q).length)
    (hvars : C.Holds (AgreeOn fun _ => True) (bindZeros [] p.vars) (bindZeros [] q.vars))
    (hlimit : SameLimits C limit limit') (hle : C.Allows n k) :
    C.Holds Eq (program limit n p) (program limit' k q) := by
  refine C.restart (C.bind (fun _ _ _ => rfl) hvars fun env env' henv => ?_)
  rw [htok, hstmts, hcount]
  refine C.seq C.record fun _ => ?_
  refine C.bind (fun _ => ⟨fun _ _ => rfl, rfl⟩) (execStmts_compares
    ⟨hlookup, invoke_compares hlookup hlimit hle⟩ hle q.stmts (touches_any _) henv) ?_
  rintro ⟨env₁, flow⟩ ⟨env₂, _⟩ ⟨-, rfl⟩
  cases flow with
  | next => exact C.record
  | returned v => exact C.fail

/-- A program compares with itself, under two limits and with two allowances. -/
theorem program_compares_self (hlimit : SameLimits C limit limit') (hle : C.Allows n k) (p : Program) :
    C.Holds Eq (program limit n p) (program limit' k p) :=
  program_compares rfl rfl (fun _ => rfl) rfl (bindZeros_compares C (fun _ _ _ => rfl) _ _) hlimit
    hle

end

end Run

end SplatLang
