/-!
# Bindings of labels

A finite map from labels. Setting a bound label replaces its value where it stands, so a label is
never bound twice and binding it again does not change which labels are bound.
-/

namespace SplatLang

abbrev Bindings (α : Type) := List (String × α)

namespace Bindings

variable {α : Type}

def get? : Bindings α → String → Option α
  | [], _ => none
  | (l, a) :: rest, label => if l = label then some a else get? rest label

def has (b : Bindings α) (label : String) : Bool := (b.get? label).isSome

def set : Bindings α → String → α → Bindings α
  | [], label, value => [(label, value)]
  | (l, a) :: rest, label, value =>
    if l = label then (l, value) :: rest else (l, a) :: set rest label value

/-- Binds labels one after the other, so a later pair wins over an earlier one. -/
def setAll (b : Bindings α) (pairs : List (String × α)) : Bindings α :=
  pairs.foldl (fun b p => b.set p.1 p.2) b

theorem get?_set_self (b : Bindings α) (label : String) (value : α) :
    (b.set label value).get? label = some value := by
  induction b with
  | nil => simp [set, get?]
  | cons p rest ih =>
    obtain ⟨l, a⟩ := p
    by_cases h : l = label
    · simp [set, get?, h]
    · simp [set, get?, h, ih]

theorem get?_set_ne (b : Bindings α) {label other : String} (value : α) (h : other ≠ label) :
    (b.set label value).get? other = b.get? other := by
  induction b with
  | nil => simp [set, get?, Ne.symm h]
  | cons p rest ih =>
    obtain ⟨l, a⟩ := p
    by_cases hl : l = label
    · subst hl
      simp [set, get?, Ne.symm h]
    · simp only [set, hl, if_false, get?]
      split
      · rfl
      · exact ih

end Bindings

end SplatLang
