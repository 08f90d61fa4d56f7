import SplatLang.Proofs.Run.Laws
import SplatLang.Proofs.Typing.Decides

/-!
# Every walk finds the same returns

A body is searched for returns more than once: its statements are checked, the returns of a
function are compared with what it promises, and the body of a program may not have any. Each
search goes through the blocks of conditionals and loops by itself. All of them find the returns
that stand `Within` the body, and running a body in which none is found comes to its end, whatever
the functions it calls do.
-/

namespace SplatLang

namespace Typing

-- ---------------------------------------------------------------------------
-- Refused returns
-- ---------------------------------------------------------------------------

theorem then_error {x : Check Unit} {y : Check α} :
    (x >>= fun _ => y) = .error f ↔ x = .error f ∨ x = .ok () ∧ y = .error f := by
  cases x <;> simp [bind, Except.bind]

theorem ensure_error {holds : Prop} [Decidable holds] :
    ensure holds cause tok = .error f ↔ ¬ holds ∧ f = ⟨cause, tok.location⟩ := by
  unfold ensure fail
  split <;> simp [*, eq_comm]

/-- Why a return that carries `value` does not fit a function. -/
inductive Misfit (sc : Scope) (fn : FuncDecl) : (value : Option Expr) → TypeCause → Prop
  | fromVoid : fn.result = .void → Misfit sc fn (some e) (.voidReturnsValue fn.label)
  | noValue : fn.result ≠ .void → Misfit sc fn none (.returnsNoValue fn.label fn.result)
  | otherType : fn.result ≠ .void → typeOf sc e = .ok got → got ≠ fn.result →
      Misfit sc fn (some e) (.returnMismatch fn.label fn.result got)

theorem checkReturn_error (htyped : ∀ e, value = some e → ∃ t, typeOf sc e = .ok t)
    (h : checkReturn sc fn tok value = .error f) :
    f.location = tok.location ∧ Misfit sc fn value f.cause := by
  unfold checkReturn at h
  split at h
  next hvoid =>
    obtain ⟨hvalue, rfl⟩ := ensure_error.mp h
    cases value with
    | none => simp at hvalue
    | some e => exact ⟨rfl, .fromVoid hvoid⟩
  next hvoid =>
    cases value with
    | none =>
      cases h
      exact ⟨rfl, .noValue hvoid⟩
    | some e =>
      obtain ⟨got, hgot⟩ := htyped e rfl
      simp only [hgot] at h
      obtain ⟨hother, rfl⟩ := ensure_error.mp h
      exact ⟨rfl, .otherType hvoid hgot hother⟩

theorem BlockTyped.stmt (h : BlockTyped c body) (hw : Within s body) : StmtTyped c s := by
  induction hw with
  | here => cases h with | cons hs _ => exact hs
  | later _ ih => cases h with | cons _ hrest => exact ih hrest
  | thenBranch _ ih =>
    cases h with
    | cons hs _ =>
      cases hs with
      | ifThen _ hbody => exact ih hbody
      | ifElse _ hbody _ => exact ih hbody
  | elseBranch _ ih =>
    cases h with
    | cons hs _ => cases hs with | ifElse _ _ halt => exact ih halt
  | loopBody _ ih =>
    cases h with
    | cons hs _ => cases hs with | loop _ hbody => exact ih hbody

mutual

theorem checkReturnsIn_error : (s : Stmt) → checkReturnsIn sc fn s = .error f →
    ∃ tok value, Inside (.ret tok value) s ∧ checkReturn sc fn tok value = .error f
  | .ret tok value, h => ⟨tok, value, rfl, h⟩
  | .cond _ _ body none, h => by
    obtain ⟨tok, value, hw, hf⟩ := checkReturns_error body h
    exact ⟨tok, value, .inr hw, hf⟩
  | .cond _ _ body (some alt), h => by
    rcases then_error.mp h with h | ⟨-, h⟩
    · obtain ⟨tok, value, hw, hf⟩ := checkReturns_error body h
      exact ⟨tok, value, .inr (.inl hw), hf⟩
    · obtain ⟨tok, value, hw, hf⟩ := checkReturns_error alt h
      exact ⟨tok, value, .inr (.inr hw), hf⟩
  | .loop _ _ body, h => by
    obtain ⟨tok, value, hw, hf⟩ := checkReturns_error body h
    exact ⟨tok, value, .inr hw, hf⟩
  | .assign .., h | .print .., h | .printLine _, h | .call .., h => nomatch h

theorem checkReturns_error : (body : List Stmt) → checkReturns sc fn body = .error f →
    ∃ tok value, Within (.ret tok value) body ∧ checkReturn sc fn tok value = .error f
  | [], h => nomatch h
  | s :: rest, h => by
    rcases then_error.mp h with h | ⟨-, h⟩
    · obtain ⟨tok, value, hw, hf⟩ := checkReturnsIn_error s h
      exact ⟨tok, value, within_cons.mpr (.inl hw), hf⟩
    · obtain ⟨tok, value, hw, hf⟩ := checkReturns_error rest h
      exact ⟨tok, value, .later hw, hf⟩

end

-- ---------------------------------------------------------------------------
-- Bodies without returns
-- ---------------------------------------------------------------------------

theorem checkNoReturn_error (s : Stmt) :
    (∃ f, checkNoReturn s = .error f) ↔ hasReturn s = true := by
  have hok : checkNoReturn s = .ok () ↔ ¬ hasReturn s = true := by
    rw [checkNoReturn_ok, hasReturn_iff]
    simp only [not_exists]
  cases h : checkNoReturn s with
  | ok _ => simpa using hok.mp h
  | error f =>
    simp only [Except.error.injEq, exists_eq', true_iff]
    refine Decidable.byContradiction fun hno => ?_
    simp [hok.mpr hno] at h

theorem anyReturn_eq_any (body : List Stmt) : anyReturn body = body.any hasReturn := by
  induction body with
  | nil => rfl
  | cons s rest ih => rw [anyReturn, List.any_cons, ih]

theorem checkNoReturns_of_forall (h : ∀ s ∈ body, checkNoReturn s = .ok ()) :
    checkNoReturns body = .ok () := by
  induction body with
  | nil => rfl
  | cons s rest ih =>
    rw [List.forall_mem_cons] at h
    exact then_ok.mpr ⟨h.1, ih h.2⟩

end Typing

namespace Run

open Typing Exec

variable {funcs : Bindings FuncDecl} {invoke : Invoke} {rounds : Nat}

mutual

theorem execStmt_comes_to_end : (s : Stmt) → checkNoReturn s = .ok () → ∀ env,
    Meets (execStmt funcs invoke rounds s env) (fun r => r.2 = .next) fun _ => True
  | .ret tok value, h, _ => nomatch h
  | .assign tok label value, _, env => by
    simp only [execStmt]
    exact .ite ((Meets.any _).bind fun _ _ => .pure rfl) (.fail trivial)
  | .cond _ test body none, h, env => by
    simp only [execStmt]
    exact (Meets.any _).bind fun _ _ => .ite (execStmts_comes_to_end body h env) (.pure rfl)
  | .cond _ test body (some alt), h, env => by
    obtain ⟨hbody, halt⟩ := then_ok.mp h
    simp only [execStmt]
    exact (Meets.any _).bind fun _ _ =>
      .ite (execStmts_comes_to_end body hbody env) (execStmts_comes_to_end alt halt env)
  | .loop _ test body, h, env => by
    -- A loop is left by its test only, since no round ends with a return.
    refine (Meets.repeatWhile (I := fun _ => True) (F := (· = .next)) (fun _ _ => .any _)
      (fun env _ => ?_) rfl rounds env trivial).mono fun r hr => hr.2
    exact (execStmts_comes_to_end body h env).mono fun _ hr => ⟨trivial, hr⟩
  | .print _ value, _, env => by
    simp only [execStmt]
    exact (Meets.any _).bind fun _ _ => Meets.write.bind fun _ _ => .pure rfl
  | .printLine _, _, env => by
    simp only [execStmt]
    exact Meets.write.bind fun _ _ => .pure rfl
  | .call tok label args, _, env => by
    simp only [execStmt]
    exact (Meets.any _).bind fun _ _ => .pure rfl

theorem execStmts_comes_to_end : (body : List Stmt) → checkNoReturns body = .ok () → ∀ env,
    Meets (execStmts funcs invoke rounds body env) (fun r => r.2 = .next) fun _ => True
  | [], _, env => .pure rfl
  | s :: rest, h, env => by
    obtain ⟨hs, hrest⟩ := then_ok.mp h
    simp only [execStmts]
    refine (execStmt_comes_to_end s hs env).bind fun r hr => ?_
    obtain ⟨env', flow⟩ := r
    cases hr
    exact execStmts_comes_to_end rest hrest env'

end

/-- Once the statements of a function are checked, its returns can be refused only for what they
return, and never because an expression has no type. A block has a return, at any depth, exactly if
the search that forbids returns refuses one of its statements. And where that search passes, no
run of the block ends with a return, in any environment and whatever a call does. -/
theorem return_checks_agree :
    (∀ funcs fn f, checkBody funcs fn = .ok () →
      checkReturns (bodyScope funcs fn) fn fn.body = .error f →
      ∃ tok value, Within (.ret tok value) fn.body ∧ f.location = tok.location ∧
        Misfit (bodyScope funcs fn) fn value f.cause) ∧
    (∀ body, anyReturn body = true ↔ ∃ s ∈ body, ∃ f, checkNoReturn s = .error f) ∧
    (∀ body, (∀ s ∈ body, checkNoReturn s = .ok ()) →
      ∀ funcs invoke rounds env m env' value m',
        execStmts funcs invoke rounds body env m ≠ (.done (env', .returned value), m')) := by
  refine ⟨fun funcs fn f hbody h => ?_, fun body => ?_, fun body hbody => ?_⟩
  · obtain ⟨tok, value, hw, hf⟩ := checkReturns_error fn.body h
    refine ⟨tok, value, hw, checkReturn_error (fun e he => ?_) hf⟩
    subst he
    cases ((checkStmts_ok fn.body).mp (then_ok.mp hbody).2).stmt hw with
    | valueReturn ht => exact ⟨_, (typeOf_ok e).mpr ht⟩
  · simp only [anyReturn_eq_any, List.any_eq_true, checkNoReturn_error]
  · intro funcs invoke rounds env m env' value m' hrun
    have hnext := (execStmts_comes_to_end body (checkNoReturns_of_forall hbody) env).of_done hrun
    cases hnext

/-- A function whose body is a loop with a return in either branch of a conditional. The second
return fits, and the first one does not carry a number. -/
def unfitReturn : FuncDecl :=
  ⟨default, "pick", [⟨default, "b", .boolean⟩], .integer, [],
    [.loop default (.var default "b")
      [.cond default (.var default "b") [.ret default (some (.var default "b"))]
        (some [.ret default (some (.literal default "1"))])]]⟩

def returnless : List Stmt :=
  [.loop default (.literal default "false")
    [.cond default (.literal default "true") [.printLine default] (some [.printLine default])]]

theorem return_checks_agree_unfitReturn :
    (∃ f tok value,
      checkReturns (bodyScope [] unfitReturn) unfitReturn unfitReturn.body = .error f ∧
      Within (.ret tok value) unfitReturn.body ∧
        Misfit (bodyScope [] unfitReturn) unfitReturn value f.cause) ∧
    (∃ s ∈ unfitReturn.body, ∃ f, checkNoReturn s = .error f) ∧
    ∀ env' value m', execStmts [] (fun _ _ _ => exhausted) 1 returnless [] {} ≠
      (.done (env', .returned value), m') := by
  refine ⟨?_, (return_checks_agree.2.1 _).mp rfl, ?_⟩
  · obtain ⟨tok, value, hw, -, hf⟩ := return_checks_agree.1 [] unfitReturn _ rfl rfl
    exact ⟨_, tok, value, rfl, hw, hf⟩
  · refine return_checks_agree.2.2 returnless (fun s hs => ?_) _ _ _ _ _
    rw [List.mem_singleton.mp hs]
    rfl

end Run

end SplatLang
