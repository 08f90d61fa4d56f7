import SplatLang.Exec

/-!
# What computations meet

A computation meets a post-condition if, whatever state the machine is in, it gives a value for
which the condition holds or stops with a fault of an expected cause. Being stopped from outside,
by a sink that takes no more or by an allowance that is used up, says nothing about a program, so
every condition is met then. Each way of putting computations together has its law, and later
modules use these laws instead of opening the computations.
-/

namespace SplatLang

variable {α β : Type} {Q : α → Prop} {E : RunCause → Prop}

def Ending.Meets (Q : α → Prop) (E : RunCause → Prop) : Ending α → Prop
  | done a => Q a
  | fault f => E f.cause
  | refused _ => True
  | exhausted => True

def Exec.Meets (x : Exec α) (Q : α → Prop) (E : RunCause → Prop) : Prop :=
  ∀ m, (x m).1.Meets Q E

/-- A value comes out of two computations in a row if one comes out of each. -/
theorem Exec.bind_done {x : Exec α} {f : α → Exec β} :
    (x >>= f) m = (.done b, m') ↔ ∃ a m₁, x m = (.done a, m₁) ∧ f a m₁ = (.done b, m') := by
  show Exec.bind x f m = _ ↔ _
  unfold Exec.bind
  rcases x m with ⟨a | e | reason | _, m₁⟩ <;> simp [and_assoc]

namespace Exec.Meets

theorem of_done (h : Meets x Q E) (hx : x m = (.done a, m')) : Q a := by
  have hm := h m
  rwa [hx] at hm

theorem of_fault (h : Meets x Q E) (hx : x m = (.fault f, m')) : E f.cause := by
  have hm := h m
  rwa [hx] at hm

theorem mono {R : α → Prop} (h : Meets x Q E) (hR : ∀ a, Q a → R a) : Meets x R E := by
  intro m
  have hm := h m
  cases hx : (x m).1 with
  | done a =>
    rw [hx] at hm
    exact hR a hm
  | fault f =>
    rw [hx] at hm
    exact hm
  | refused _ => trivial
  | exhausted => trivial

theorem any (x : Exec α) : Meets x (fun _ => True) fun _ => True := by
  intro m
  cases (x m).1 <;> trivial

theorem pure (h : Q a) : Meets (Pure.pure a) Q E := fun _ => h

theorem bind {R : β → Prop} {f : α → Exec β} (hx : Meets x Q E)
    (hf : ∀ a, Q a → Meets (f a) R E) : Meets (x >>= f) R E := by
  intro m
  show (Exec.bind x f m).1.Meets R E
  unfold Exec.bind
  split
  · next a m' heq => exact hf a (hx.of_done heq) m'
  · next f m' heq => exact hx.of_fault heq
  · trivial
  · trivial

theorem fail (h : E cause) : Meets (Exec.fail cause tok) Q E := fun _ => h

theorem ite {x y : Exec α} {c : Prop} [Decidable c] (hx : Meets x Q E) (hy : Meets y Q E) :
    Meets (if c then x else y) Q E := by
  split
  · exact hx
  · exact hy

theorem exhausted : Meets Exec.exhausted Q E := fun _ => trivial

theorem need {o : Option α} (hs : ∀ a, o = some a → Q a) (hn : o = none → E cause) :
    Meets (Exec.need cause tok o) Q E := by
  cases o with
  | some a => exact pure (hs a rfl)
  | none => exact fail (hn rfl)

theorem record : Meets (Exec.record e) (fun _ => True) E := fun _ => trivial

theorem depth : Meets Exec.depth (fun _ => True) E := fun _ => trivial

theorem write : Meets (Exec.write text) (fun _ => True) E := by
  intro m
  unfold Exec.write
  split <;> trivial

theorem deeper (h : Meets x Q E) : Meets (Exec.deeper x) Q E :=
  fun m => h { m with depth := m.depth + 1 }

/-- What every round of a loop keeps holds when the loop is left, and what holds of a return in
its body holds of the return that leaves it. -/
theorem repeatWhile {test : Env → Exec Bool} {body : Env → Exec (Env × Run.Flow)} {I : Env → Prop}
    {F : Run.Flow → Prop} (ht : ∀ env, I env → Meets (test env) (fun _ => True) E)
    (hb : ∀ env, I env → Meets (body env) (fun r => I r.1 ∧ F r.2) E) (hF : F .next)
    (n : Nat) (env : Env) (hI : I env) :
    Meets (Run.repeatWhile test body n env) (fun r => I r.1 ∧ F r.2) E := by
  induction n generalizing env with
  | zero => exact fun _ => trivial
  | succ n ih =>
    intro m
    unfold Run.repeatWhile
    split
    · exact ⟨hI, hF⟩
    · next m' _ =>
      split
      · next env' m'' heq => exact ih env' ((hb env hI).of_done heq).1 m''
      · next heq => exact (hb env hI).of_done heq
      · next heq => exact (hb env hI).of_fault heq
      · trivial
      · trivial
    · next heq => exact (ht env hI).of_fault heq
    · trivial
    · trivial

end Exec.Meets

end SplatLang
