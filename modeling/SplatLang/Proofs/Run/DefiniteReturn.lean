import SplatLang.Proofs.Run.Sinks
import SplatLang.Proofs.Run.Soundness

/-!
# Definite return

Checking wants a return somewhere in a function that promises a value, not on every way through
it, and lets unknown types and void results through. Where these gaps are closed by the program
itself (`Definite`), every call that is made for a value gives one and every variable has a value
to start with, so that a run can only fail for a zero divisor or the limit on calls.

Types play no part in that: whether a block returns, and whether with a value, is a matter of its
statements alone. It is put together with type soundness at the end.
-/

namespace SplatLang

open Typing

/-- No run gets behind the block: one of its statements is a return, or a conditional of which both
branches are such blocks. -/
inductive DefinitelyReturns : List Stmt → Prop
  | here {tok value rest} : DefinitelyReturns (.ret tok value :: rest)
  | branches {tok test body alt rest} : DefinitelyReturns body → DefinitelyReturns alt →
      DefinitelyReturns (.cond tok test body (some alt) :: rest)
  | later {s rest} : DefinitelyReturns rest → DefinitelyReturns (s :: rest)

theorem not_definitelyReturns_nil : ¬ DefinitelyReturns [] := nofun

theorem DefinitelyReturns.head_or_tail (h : DefinitelyReturns (s :: rest)) :
    DefinitelyReturns [s] ∨ DefinitelyReturns rest := by
  cases h with
  | here => exact .inl .here
  | branches hbody halt => exact .inl (.branches hbody halt)
  | later h => exact .inr h

def Program.Evaluates (p : Program) (e : Expr) : Prop :=
  ∃ block ∈ p.stmts :: p.funcs.map FuncDecl.body, ∃ s, Within s block ∧
    ∃ operand ∈ s.operands, Expr.Part e operand

structure Program.Definite (p : Program) : Prop where
  returns : ∀ fn ∈ p.funcs, fn.result ≠ .void → DefinitelyReturns fn.body
  calls : ∀ tok label args, p.Evaluates (.call tok label args) →
    ∀ fn ∈ p.funcs, fn.label = label → fn.result ≠ .void
  vars : ∀ v ∈ p.vars, v.ty ∈ [Ty.integer, .boolean, .string]
  locals : ∀ fn ∈ p.funcs, ∀ v ∈ fn.locals, v.ty ∈ [Ty.integer, .boolean, .string]

namespace Run

/-- The causes that are not excluded: all but a type without a value and a call without one. -/
def Assured : RunCause → Prop
  | .unknownType _ | .noValue _ => False
  | _ => True

-- ---------------------------------------------------------------------------
-- Expressions
-- ---------------------------------------------------------------------------

theorem unary_assured : (unary tok op v).Meets (fun _ => True) Assured := by
  unfold unary
  split
  · exact .pure trivial
  · exact .fail trivial
  · exact .pure trivial
  · exact .fail trivial
  · exact .fail trivial

theorem arithmetic_assured : (arithmetic tok op l r).Meets (fun _ => True) Assured := by
  cases op with
  | add | sub | mul => exact .pure trivial
  | div | mod => exact .ite (.fail trivial) (.pure trivial)

theorem binary_assured : (binary tok op l r).Meets (fun _ => True) Assured := by
  rw [binary_eq]
  split
  · split
    · exact arithmetic_assured
    · exact .fail trivial
  · split
    · exact .pure trivial
    · exact .fail trivial
  · split
    · exact .pure trivial
    · exact .fail trivial
  · exact .ite (.pure trivial) (.fail trivial)
  · exact .fail trivial

def CallsForValues (funcs : Bindings FuncDecl) (e : Expr) : Prop :=
  ∀ tok label args, Expr.Part (.call tok label args) e →
    ∀ fn, funcs.get? label = some fn → fn.result ≠ .void

def Yields (fn : FuncDecl) (r : Option Value) : Prop := fn.result ≠ .void → r ≠ none

def InvokeYields (funcs : Bindings FuncDecl) (inv : Invoke) : Prop :=
  ∀ tok label fn values, funcs.get? label = some fn → (inv tok fn values).Meets (Yields fn) Assured

section

variable {funcs : Bindings FuncDecl} {inv : Invoke} {env : Env}

theorem call_assured (hinv : InvokeYields funcs inv) (hargs : args.Meets (fun _ => True) Assured) :
    (call funcs inv tok label count args).Meets
      (fun r => ∃ fn, funcs.get? label = some fn ∧ Yields fn r) Assured := by
  unfold call
  refine .bind (.need (Q := fun fn => funcs.get? label = some fn) (fun _ h => h)
    fun _ => trivial) fun fn hfn => ?_
  split
  · refine .bind hargs fun values _ => ?_
    exact (hinv tok label fn values hfn).mono fun r hr => ⟨fn, hfn, hr⟩
  · exact .fail trivial

mutual

theorem evalExpr_assured (hinv : InvokeYields funcs inv) : (e : Expr) → CallsForValues funcs e →
    (evalExpr funcs inv env e).Meets (fun _ => True) Assured
  | .literal tok raw, _ => by
    rw [evalExpr]
    exact .need (fun _ _ => trivial) fun _ => trivial
  | .var tok label, _ => by
    rw [evalExpr]
    exact .need (fun _ _ => trivial) fun _ => trivial
  | .binary tok left op right, hcalls => by
    rw [evalExpr]
    refine .bind (evalExpr_assured hinv left fun t l as hp => hcalls t l as (.left hp)) fun l _ => ?_
    refine .bind (evalExpr_assured hinv right fun t l as hp => hcalls t l as (.right hp)) ?_
    exact fun r _ => binary_assured
  | .unary tok op operand, hcalls => by
    rw [evalExpr]
    refine .bind (evalExpr_assured hinv operand fun t l as hp => hcalls t l as (.operand hp)) ?_
    exact fun v _ => unary_assured
  | .call tok label args, hcalls => by
    rw [evalExpr]
    have hargs := evalArgs_assured hinv args fun a ha t l as hp => hcalls t l as (.arg ha hp)
    refine .bind (call_assured hinv hargs) fun r ⟨fn, hfn, hr⟩ => ?_
    refine .need (fun _ _ => trivial) fun hnone => ?_
    exact absurd hnone (hr (hcalls tok label args .self fn hfn))

theorem evalArgs_assured (hinv : InvokeYields funcs inv) : (es : List Expr) →
    (∀ e ∈ es, CallsForValues funcs e) →
    (evalArgs funcs inv env es).Meets (fun _ => True) Assured
  | [], _ => by
    rw [evalArgs]
    exact .pure trivial
  | e :: rest, hcalls => by
    rw [evalArgs]
    refine .bind (evalExpr_assured hinv e (hcalls e List.mem_cons_self)) fun v _ => ?_
    refine .bind (evalArgs_assured hinv rest fun a ha => hcalls a (List.mem_cons_of_mem e ha)) ?_
    exact fun vs _ => .pure trivial

end

theorem condition_assured (hinv : InvokeYields funcs inv) (h : CallsForValues funcs test) :
    (condition funcs inv env test).Meets (fun _ => True) Assured := by
  refine .bind (evalExpr_assured hinv test h) fun v _ => ?_
  cases v with
  | boolean b => exact .pure trivial
  | integer n => exact .fail trivial
  | string s => exact .fail trivial

-- ---------------------------------------------------------------------------
-- Statements
-- ---------------------------------------------------------------------------

/-- What a block comes to: it is not left at its end if it definitely returns, and not without a
value if all its returns carry one. -/
structure Delivers (ss : List Stmt) (flow : Flow) : Prop where
  returns : DefinitelyReturns ss → flow ≠ .next
  valued : (∀ tok, ¬ Within (.ret tok none) ss) → flow ≠ .returned none

theorem Delivers.next (h : ¬ DefinitelyReturns ss) : Delivers ss .next :=
  ⟨fun hd => absurd hd h, nofun⟩

theorem Delivers.of_tail (hs : ¬ DefinitelyReturns [s]) (h : Delivers rest flow) :
    Delivers (s :: rest) flow where
  returns hd := h.returns (hd.head_or_tail.resolve_left hs)
  valued hv := h.valued fun tok hw => hv tok (.later hw)

theorem Delivers.of_head (h : Delivers [s] (.returned v)) : Delivers (s :: rest) (.returned v) where
  returns := nofun
  valued hv := h.valued fun tok hw =>
    hv tok (within_cons.mpr (.inl ((within_cons.mp hw).resolve_right not_within_nil)))

theorem Delivers.thenBranch (h : Delivers body flow)
    (hd : DefinitelyReturns [.cond tok test body alt] → DefinitelyReturns body) :
    Delivers [.cond tok test body alt] flow where
  returns hr := h.returns (hd hr)
  valued hv := h.valued fun tok hw => hv tok (.thenBranch hw)

theorem Delivers.elseBranch (h : Delivers alt flow)
    (hd : DefinitelyReturns [.cond tok test body (some alt)] → DefinitelyReturns alt) :
    Delivers [.cond tok test body (some alt)] flow where
  returns hr := h.returns (hd hr)
  valued hv := h.valued fun tok hw => hv tok (.elseBranch hw)

def StmtCallsForValues (funcs : Bindings FuncDecl) (s : Stmt) : Prop :=
  ∀ e ∈ s.operands, CallsForValues funcs e

mutual

theorem execStmt_assured (hinv : InvokeYields funcs inv) (rounds : Nat) : (s : Stmt) →
    {env : Env} → Every (StmtCallsForValues funcs) [s] →
    (execStmt funcs inv rounds s env).Meets (fun r => Delivers [s] r.2) Assured
  | .assign tok label value, env, hs => by
    rw [execStmt]
    split
    · refine .bind (evalExpr_assured hinv value (hs.here value List.mem_cons_self)) fun v _ => ?_
      exact .pure (.next fun | .later h => not_definitelyReturns_nil h)
    · exact .fail trivial
  | .cond tok test body none, env, hs => by
    rw [execStmt]
    have hnot : ¬ DefinitelyReturns [.cond tok test body none] :=
      fun | .later h => not_definitelyReturns_nil h
    refine .bind (condition_assured hinv (hs.here test List.mem_cons_self)) fun b _ => ?_
    cases b with
    | false => exact .pure (.next hnot)
    | true =>
      refine (execStmts_assured hinv rounds body hs.thenBranch).mono fun r hr => ?_
      exact hr.thenBranch fun hd => absurd hd hnot
  | .cond tok test body (some alt), env, hs => by
    rw [execStmt]
    refine .bind (condition_assured hinv (hs.here test List.mem_cons_self)) fun b _ => ?_
    cases b with
    | false =>
      refine (execStmts_assured hinv rounds alt hs.elseBranch).mono fun r hr => ?_
      exact hr.elseBranch fun
        | .branches _ h => h
        | .later h => absurd h not_definitelyReturns_nil
    | true =>
      refine (execStmts_assured hinv rounds body hs.thenBranch).mono fun r hr => ?_
      exact hr.thenBranch fun
        | .branches h _ => h
        | .later h => absurd h not_definitelyReturns_nil
  | .loop tok test body, env, hs => by
    rw [execStmt]
    -- A loop may be left at its end, so only the values of its returns are followed.
    let valued (flow : Flow) : Prop :=
      (∀ t, ¬ Within (.ret t none) [.loop tok test body]) → flow ≠ .returned none
    have hbody (env : Env) : (execStmts funcs inv rounds body env).Meets
        (fun r => True ∧ valued r.2) Assured :=
      (execStmts_assured hinv rounds body hs.loopBody).mono fun r hr =>
        ⟨trivial, fun hv => hr.valued fun t hw => hv t (.loopBody hw)⟩
    refine (Exec.Meets.repeatWhile (I := fun _ => True) (F := valued) (fun env _ => ?_)
      (fun env _ => hbody env) nofun rounds env trivial).mono fun r hr => ⟨?_, hr.2⟩
    · exact condition_assured hinv (hs.here test List.mem_cons_self)
    · exact fun | .later h => absurd h not_definitelyReturns_nil
  | .print tok value, env, hs => by
    rw [execStmt]
    refine .bind (evalExpr_assured hinv value (hs.here value List.mem_cons_self)) fun v _ => ?_
    refine .bind .write fun _ _ => ?_
    exact .pure (.next fun | .later h => not_definitelyReturns_nil h)
  | .printLine tok, env, _ => by
    rw [execStmt]
    refine .bind .write fun _ _ => ?_
    exact .pure (.next fun | .later h => not_definitelyReturns_nil h)
  | .ret tok none, env, _ => by
    rw [execStmt]
    exact .pure ⟨nofun, fun hv => absurd .here (hv tok)⟩
  | .ret tok (some value), env, hs => by
    rw [execStmt]
    refine .bind (evalExpr_assured hinv value (hs.here value List.mem_cons_self)) fun v _ => ?_
    exact .pure ⟨nofun, nofun⟩
  | .call tok label args, env, hs => by
    rw [execStmt]
    refine .bind (call_assured hinv (evalArgs_assured hinv args hs.here)) fun _ _ => ?_
    exact .pure (.next fun | .later h => not_definitelyReturns_nil h)

theorem execStmts_assured (hinv : InvokeYields funcs inv) (rounds : Nat) : (ss : List Stmt) →
    {env : Env} → Every (StmtCallsForValues funcs) ss →
    (execStmts funcs inv rounds ss env).Meets (fun r => Delivers ss r.2) Assured
  | [], env, _ => by
    rw [execStmts]
    exact .pure (.next not_definitelyReturns_nil)
  | s :: rest, env, hs => by
    rw [execStmts]
    refine .bind (execStmt_assured hinv rounds s hs.head) ?_
    rintro ⟨env', flow⟩ hflow
    cases flow with
    | next =>
      refine (execStmts_assured hinv rounds rest hs.tail).mono fun r hr => ?_
      exact hr.of_tail fun hd => hflow.returns hd rfl
    | returned v => exact .pure hflow.of_head

end

end

-- ---------------------------------------------------------------------------
-- Calls and programs
-- ---------------------------------------------------------------------------

section

variable {p : Program} (hp : WellTyped p) (hd : p.Definite)

include hp

theorem functionTable_iff :
    (functionTable p).get? label = some fn ↔ fn ∈ p.funcs ∧ fn.label = label :=
  Iff.of_eq (congrArg (fun c => c.func label fn) (scope_context hp (b := .main) trivial))

/-- The returns of a function that promises a value carry one. -/
theorem no_bare_return (hfn : fn ∈ p.funcs) (hresult : fn.result ≠ .void) (tok : Token) :
    ¬ Within (.ret tok none) fn.body := by
  intro hw
  have hreturn := (hp.funcs fn hfn).returns tok none hw
  rw [ReturnTyped, if_neg hresult] at hreturn
  obtain ⟨e, he, -⟩ := hreturn
  cases he

include hd

theorem block_calls (h : block ∈ p.stmts :: p.funcs.map FuncDecl.body) :
    Every (StmtCallsForValues (functionTable p)) block := by
  intro s hw e he tok label args hpart fn hfn
  obtain ⟨hmem, hlabel⟩ := (functionTable_iff hp).mp hfn
  exact hd.calls tok label args ⟨block, h, s, hw, e, he, hpart⟩ fn hmem hlabel

/-- By induction on the allowance: a body calls with one call less to spare. -/
theorem invoke_yields (limit : Int) (n : Nat) :
    InvokeYields (functionTable p) (invoke (functionTable p) limit n) := by
  induction n with
  | zero => exact fun _ _ _ _ _ => .exhausted
  | succ n ih =>
    intro tok label fn values hfn
    have hmem := ((functionTable_iff hp).mp hfn).1
    have hcalls := block_calls hp hd (List.mem_cons_of_mem _ (List.mem_map_of_mem hmem))
    refine .deeper (.bind .depth fun d _ => .ite (.fail trivial) ?_)
    rw [bindZeros_known _ _ (hd.locals fn hmem)]
    refine .bind (.pure (Q := fun _ => True) trivial) fun env _ => ?_
    refine .bind .record fun _ _ => .bind (execStmts_assured ih n fn.body hcalls) ?_
    rintro ⟨env', flow⟩ hflow
    refine .pure fun hresult => ?_
    cases flow with
    | next => exact absurd rfl (hflow.returns (hd.returns fn hmem hresult))
    | returned v =>
      cases v with
      | none => exact absurd rfl (hflow.valued (no_bare_return hp hmem hresult))
      | some v => exact nofun

theorem program_assured (limit : Int) (n : Nat) :
    (program limit n p).Meets (fun _ => True) Assured := by
  have hcalls := block_calls hp hd List.mem_cons_self
  have hrun (env : Env) : (execStmts (functionTable p) (invoke (functionTable p) limit n) n p.stmts
      env).Meets (fun r => Delivers p.stmts r.2) Assured :=
    execStmts_assured (invoke_yields hp hd limit n) n p.stmts hcalls
  intro m
  unfold program
  rw [bindZeros_known _ _ hd.vars]
  refine Exec.Meets.bind (.pure (Q := fun _ => True) trivial) (fun env _ => ?_) { m with depth := 0 }
  refine .bind .record fun _ _ => .bind (hrun env) ?_
  rintro ⟨env', flow⟩ -
  cases flow with
  | next => exact .record
  | returned v => exact .fail trivial

end

/-- Definite return leaves three faults. If in a checked program every function that promises a
value definitely returns, no expression calls a void function, and every variable of the program
and every local has a type with values, then a run that finishes into a sink that refuses nothing
succeeds, divides by zero, or is stopped by the limit on calls. -/
theorem definite_program_faults {p : Program} (hp : checkProgram p = .ok ()) (hd : p.Definite)
    (limit : Int) {m₀ m : Machine} (hsink : m₀.sink = .endless) {ending : Ending Unit}
    (h : Finishes limit p m₀ ending m) :
    ending = .done () ∨ ∃ f, ending = .fault f ∧ f.report.phase = .execution ∧
      (f.report.message = "Division by zero" ∨ f.report.message = "Modulo by zero" ∨
        (0 < limit ∧
          f.report.message = "Call depth limit of " ++ toString limit ++ " exceeded")) := by
  have hp := (checkProgram_ok p).mp hp
  obtain ⟨hend, n, hn⟩ := id h
  cases ending with
  | done => exact .inl rfl
  | refused reason => exact absurd rfl (not_refused hsink h)
  | exhausted => exact absurd rfl hend
  | fault f =>
    refine .inr ⟨f, rfl, rfl, ?_⟩
    have hassured := (program_assured hp hd limit n).of_fault hn
    have hresidual := (program_meets hp limit n).of_fault hn
    rw [RunFault.report]
    generalize f.cause = cause at hassured hresidual ⊢
    cases hresidual with
    | divisionByZero => exact .inl rfl
    | moduloByZero => exact .inr (.inl rfl)
    | unknownType _ => exact hassured.elim
    | noValue => exact hassured.elim
    | depthLimit hpos => exact .inr (.inr ⟨hpos, rfl⟩)

/-- A function that returns in both branches of a conditional gives a number, and then a divisor. -/
def branching : Program :=
  ⟨default,
    [.func ⟨default, "pick", [⟨default, "b", .boolean⟩], .integer, [],
      [.cond default (.var default "b") [.ret default (some (.literal default "1"))]
        (some [.ret default (some (.literal default "0"))])]⟩],
    [.print default (.call default "pick" [.literal default "true"]),
      .print default (.binary default (.literal default "1") "/"
        (.call default "pick" [.literal default "false"]))]⟩

theorem branching_definite : branching.Definite where
  returns fn hfn _ := by
    cases List.mem_singleton.mp hfn
    exact .branches .here .here
  calls _ _ _ _ fn hfn _ := by
    cases List.mem_singleton.mp hfn
    decide
  vars := nofun
  locals fn hfn := by
    cases List.mem_singleton.mp hfn
    exact nofun

theorem branching_run :
    (program 0 2 branching {}).1 = .fault ⟨.divisionByZero, default⟩ ∧
      (program 0 2 branching {}).2.output = "1" := by
  decide +kernel

/-- The second number is a zero divisor, one of the three faults that are left. -/
theorem definite_program_faults_branching :
    checkProgram branching = .ok () ∧ branching.Definite ∧
    ∃ f m, Finishes 0 branching {} (.fault f) m ∧ m.output = "1" ∧
      (f.report.message = "Division by zero" ∨ f.report.message = "Modulo by zero" ∨
        ((0 : Int) < 0 ∧ f.report.message = "Call depth limit of 0 exceeded")) := by
  have hp : checkProgram branching = .ok () := rfl
  have hrun := Finishes.of_ending branching_run.1 nofun
  refine ⟨hp, branching_definite, _, _, hrun, branching_run.2, ?_⟩
  obtain hdone | ⟨f, hf, -, hmessage⟩ :=
    definite_program_faults hp branching_definite 0 rfl hrun
  · cases hdone
  · cases hf
    exact hmessage

end Run

end SplatLang
