import SplatLang.Bindings

/-!
# Laws of bindings

Labels bound one after the other stand in the order in which they were bound. When no label is
bound twice, binding pairs gives just those pairs, and looking a label up finds the one pair that
carries it.
-/

namespace SplatLang.Bindings

variable {α β : Type}

def labels (b : Bindings α) : List String := b.map Prod.fst

theorem mem_of_get? {b : Bindings α} (h : b.get? l = some a) : (l, a) ∈ b := by
  induction b with
  | nil => simp [get?] at h
  | cons p rest ih =>
    obtain ⟨k, x⟩ := p
    by_cases hk : k = l
    · simp only [get?, hk, if_true, Option.some.injEq] at h
      simp [hk, h]
    · simp only [get?, hk, if_false] at h
      exact List.mem_cons_of_mem _ (ih h)

theorem get?_of_mem {b : Bindings α} (hd : b.labels.Nodup) (h : (l, a) ∈ b) :
    b.get? l = some a := by
  induction b with
  | nil => simp at h
  | cons p rest ih =>
    obtain ⟨k, x⟩ := p
    simp only [labels, List.map_cons, List.nodup_cons] at hd
    rcases List.mem_cons.mp h with heq | hrest
    · cases heq
      simp [get?]
    · have hk : k ≠ l := fun hk => hd.1 (hk ▸ List.mem_map.mpr ⟨_, hrest, rfl⟩)
      simpa [get?, hk] using ih hd.2 hrest

theorem get?_eq_some_iff {b : Bindings α} (hd : b.labels.Nodup) :
    b.get? l = some a ↔ (l, a) ∈ b :=
  ⟨mem_of_get?, get?_of_mem hd⟩

theorem set_of_unbound {b : Bindings α} (h : l ∉ b.labels) : b.set l a = b ++ [(l, a)] := by
  induction b with
  | nil => rfl
  | cons p rest ih =>
    obtain ⟨k, x⟩ := p
    simp only [labels, List.map_cons, List.mem_cons, not_or] at h
    simp only [set, Ne.symm h.1, if_false, List.cons_append]
    rw [ih h.2]

/-- Setting a label to what it is bound to changes nothing. -/
theorem set_self {b : Bindings α} (h : b.get? l = some a) : b.set l a = b := by
  induction b with
  | nil => simp [get?] at h
  | cons p rest ih =>
    obtain ⟨k, x⟩ := p
    by_cases hk : k = l
    · simp only [get?, hk, if_true, Option.some.injEq] at h
      simp [set, hk, h]
    · simp only [get?, hk, if_false] at h
      simp [set, hk, ih h]

/-- Setting a bound label binds no other one. -/
theorem labels_set {b : Bindings α} (h : b.has l = true) : (b.set l a).labels = b.labels := by
  induction b with
  | nil => simp [has, get?] at h
  | cons p rest ih =>
    obtain ⟨k, x⟩ := p
    by_cases hk : k = l
    · simp [set, labels, hk]
    · simp only [has, get?, hk, if_false] at h
      simpa [set, labels, hk] using ih h

theorem setAll_append {b : Bindings α} : b.setAll (ps ++ qs) = (b.setAll ps).setAll qs := by
  simp [setAll]

theorem mem_set {b : Bindings α} {q : String × α} (h : q ∈ b.set l a) : q = (l, a) ∨ q ∈ b := by
  induction b with
  | nil => exact .inl (List.mem_singleton.mp h)
  | cons p rest ih =>
    obtain ⟨k, x⟩ := p
    rw [set] at h
    split at h
    next hk =>
      subst hk
      exact (List.mem_cons.mp h).imp_right (List.mem_cons_of_mem _)
    · rcases List.mem_cons.mp h with rfl | h
      · exact .inr List.mem_cons_self
      · exact (ih h).imp_right (List.mem_cons_of_mem _)

theorem mem_setAll {b : Bindings α} {ps : List (String × α)} {q : String × α}
    (h : q ∈ b.setAll ps) : q ∈ b ∨ q ∈ ps := by
  induction ps generalizing b with
  | nil => exact .inl h
  | cons p rest ih =>
    rcases ih h with h | h
    · rcases mem_set h with rfl | h
      · exact .inr List.mem_cons_self
      · exact .inl h
    · exact .inr (List.mem_cons_of_mem p h)

theorem setAll_of_nodup {b : Bindings α} {ps : List (String × α)}
    (hd : (b.labels ++ ps.map Prod.fst).Nodup) : b.setAll ps = b ++ ps := by
  induction ps generalizing b with
  | nil => simp [setAll]
  | cons p ps ih =>
    have hp : p.1 ∉ b.labels := by
      intro hm
      exact (List.nodup_append.mp hd).2.2 _ hm _ (by simp) rfl
    show (b.set p.1 p.2).setAll ps = b ++ p :: ps
    rw [set_of_unbound hp, ih]
    · simp
    · simpa [labels] using hd

/-- Pairs of distinct labels are their own bindings. -/
theorem setAll_nil_of_nodup {ps : List (String × α)} (hd : (ps.map Prod.fst).Nodup) :
    setAll [] ps = ps := by
  simpa using setAll_of_nodup (b := []) (by simpa [labels] using hd)

/-- Distinct labels are found in any order of their pairs. -/
theorem get?_perm {b b' : Bindings α} (h : b.Perm b') (hd : b.labels.Nodup) (l : String) :
    b.get? l = b'.get? l := by
  have hd' : b'.labels.Nodup := (h.map Prod.fst).nodup hd
  refine Option.ext fun a => ?_
  rw [get?_eq_some_iff hd, get?_eq_some_iff hd', h.mem_iff]

/-- Pairs of distinct labels may be bound in any order. -/
theorem setAll_nil_perm {ps qs : List (String × α)} (h : ps.Perm qs)
    (hd : (ps.map Prod.fst).Nodup) : (setAll [] ps).Perm (setAll [] qs) := by
  rwa [setAll_nil_of_nodup hd, setAll_nil_of_nodup ((h.map Prod.fst).nodup hd)]

theorem get?_setAll_nil_perm {ps qs : List (String × α)} (h : ps.Perm qs)
    (hd : (ps.map Prod.fst).Nodup) (l : String) : (setAll [] ps).get? l = (setAll [] qs).get? l :=
  get?_perm (setAll_nil_perm h hd) (by rwa [setAll_nil_of_nodup hd]) l

-- ---------------------------------------------------------------------------
-- Bindings seen through a function of the values
-- ---------------------------------------------------------------------------

def mapValues (f : α → β) (b : Bindings α) : Bindings β := b.map fun p => (p.1, f p.2)

theorem get?_mapValues (f : α → β) (b : Bindings α) (l : String) :
    (b.mapValues f).get? l = (b.get? l).map f := by
  induction b with
  | nil => rfl
  | cons p rest ih =>
    obtain ⟨k, a⟩ := p
    by_cases hk : k = l
    · simp [mapValues, get?, hk]
    · simpa [mapValues, get?, hk] using ih

theorem mapValues_set (f : α → β) (b : Bindings α) (l : String) (a : α) :
    (b.set l a).mapValues f = (b.mapValues f).set l (f a) := by
  induction b with
  | nil => rfl
  | cons p rest ih =>
    obtain ⟨k, x⟩ := p
    by_cases hk : k = l
    · simp [mapValues, set, hk]
    · simpa [mapValues, set, hk] using ih

theorem mapValues_setAll (f : α → β) (b : Bindings α) (pairs : List (String × α)) :
    (b.setAll pairs).mapValues f = (b.mapValues f).setAll (pairs.map fun p => (p.1, f p.2)) := by
  induction pairs generalizing b with
  | nil => rfl
  | cons p pairs ih =>
    rw [List.map_cons, setAll, List.foldl_cons, ← setAll, ih, mapValues_set]
    rfl

end SplatLang.Bindings
