import SplatLang.Proofs.Run.Lockstep

/-!
# Allowances and limits

A run that is stopped by its allowance or by the limit on active calls is the beginning of a run
that may go on: up to there both do the same, and only the second writes more. So an allowance
that suffices can be made larger without any effect, which gives sense to what a run comes to
without one (`Finishes`), and a limit has no effect on a run that it does not stop.
-/

namespace SplatLang

-- ---------------------------------------------------------------------------
-- Results that agree
-- ---------------------------------------------------------------------------

inductive Ending.Agree {α : Type} (R : α → α → Prop) : Ending α → Ending α → Prop
  | done {a b} : R a b → Agree R (.done a) (.done b)
  | fault {f} : Agree R (.fault f) (.fault f)
  | refused {reason} : Agree R (.refused reason) (.refused reason)
  | exhausted : Agree R .exhausted .exhausted

theorem Ending.Agree.eq {e e' : Ending α} (h : Ending.Agree Eq e e') : e = e' := by
  cases h with
  | done h => rw [h]
  | fault => rfl
  | refused => rfl
  | exhausted => rfl

theorem Ending.Agree.of_fault {R : α → α → Prop} {ending : Ending α}
    (h : Ending.Agree R (.fault f) ending) : ending = .fault f := by
  cases h
  rfl

def Matching (R : α → α → Prop) (r r' : Ending α × Machine) : Prop :=
  r.1.Agree R r'.1 ∧ r.2 = r'.2

theorem Matching.eq {r r' : Ending α × Machine} (h : Matching Eq r r') : r = r' :=
  Prod.ext h.1.eq h.2

/-- If two computations agree, either both are followed by what comes next, on the same machine and
with related values, or neither is. -/
theorem Matching.bind {R : α → α → Prop} {S : β → β → Prop} {x y : Exec α} {f g : α → Exec β}
    {P : Ending β × Machine → Ending β × Machine → Prop} (h : Matching R (x m) (y m))
    (hdone : ∀ a b m', R a b → P (f a m') (g b m')) (hstop : ∀ r r', Matching S r r' → P r r') :
    P ((x >>= f) m) ((y >>= g) m) := by
  show P (Exec.bind x f m) (Exec.bind y g m)
  unfold Exec.bind
  generalize x m = r at h
  generalize y m = r' at h
  obtain ⟨ending, m'⟩ := r
  obtain ⟨ending', m''⟩ := r'
  obtain ⟨hagree, hm⟩ := h
  cases (show m' = m'' from hm)
  cases hagree with
  | done hab => exact hdone _ _ m' hab
  | fault => exact hstop _ _ ⟨.fault, rfl⟩
  | refused => exact hstop _ _ ⟨.refused, rfl⟩
  | exhausted => exact hstop _ _ ⟨.exhausted, rfl⟩

theorem Matching.deeper {R : α → α → Prop} {x y : Exec α}
    (h : Matching R (x { m with depth := m.depth + 1 }) (y { m with depth := m.depth + 1 })) :
    Matching R (Exec.deeper x m) (Exec.deeper y m) :=
  ⟨h.1, by simp only [Exec.deeper, h.2]⟩

theorem Matching.write : Matching Eq (Exec.write text m) (Exec.write text m) := by
  refine ⟨?_, rfl⟩
  unfold Exec.write
  split
  · exact .done rfl
  · exact .refused
  · exact .done rfl

def sameness : Exec.Lockstep where
  Holds R x y := ∀ m, Matching R (x m) (y m)
  pure h _ := ⟨.done h, rfl⟩
  bind _ h hk m := (h m).bind (fun a b m' hab => hk a b hab m') fun _ _ => id
  fail _ := ⟨.fault, rfl⟩
  record _ := ⟨.done rfl, rfl⟩
  depth _ := ⟨.done rfl, rfl⟩
  write _ := .write
  deeper h _ := .deeper (h _)
  restart h _ := h _
  exhausted _ := ⟨.exhausted, rfl⟩
  Lags := False
  early := nofun

-- ---------------------------------------------------------------------------
-- Runs that fall behind
-- ---------------------------------------------------------------------------

/-- A run that ends so was stopped: it has no allowance left, or its fault is of a cause that only
says so. -/
def Ending.Stopped (cut : RunCause → Prop) : Ending α → Prop
  | exhausted => True
  | fault f => cut f.cause
  | done _ | refused _ => False

/-- The first result is the second one, or was stopped on the way there. -/
def Behind (cut : RunCause → Prop) (R : α → α → Prop) (r r' : Ending α × Machine) : Prop :=
  (r.1.Stopped cut ∧ r.2.writes <:+ r'.2.writes) ∨ Matching R r r'

/-- The first computation does what the second does unless it is stopped, and the second takes
back nothing that was written. -/
def Exec.FallsBehind (cut : RunCause → Prop) (R : α → α → Prop) (x y : Exec α) : Prop :=
  ∀ m, m.writes <:+ (y m).2.writes ∧ Behind cut R (x m) (y m)

namespace Exec.FallsBehind

variable {cut : RunCause → Prop}

theorem of_matching {R : α → α → Prop} {x y : Exec α}
    (hgrow : ∀ m, m.writes <:+ (y m).2.writes) (h : ∀ m, Matching R (x m) (y m)) :
    FallsBehind cut R x y :=
  fun m => ⟨hgrow m, .inr (h m)⟩

theorem write : FallsBehind cut Eq (Exec.write text) (Exec.write text) := by
  refine of_matching (fun m => ?_) fun _ => .write
  unfold Exec.write
  split
  · exact List.suffix_cons _ _
  · exact List.suffix_refl _
  · exact List.suffix_cons _ _

theorem bind {R : α → α → Prop} {S : β → β → Prop} {x y : Exec α} {f g : α → Exec β}
    (hrefl : ∀ a, R a a) (h : FallsBehind cut R x y)
    (hk : ∀ a b, R a b → FallsBehind cut S (f a) (g b)) :
    FallsBehind cut S (x >>= f) (y >>= g) := by
  intro m
  obtain ⟨hgrow, hbehind⟩ := h m
  have hlater : (y m).2.writes <:+ ((y >>= g) m).2.writes := by
    show _ <:+ (Exec.bind y g m).2.writes
    unfold Exec.bind
    rcases y m with ⟨b | e | reason | _, m'⟩
    · exact (hk b b (hrefl b) m').1
    · exact List.suffix_refl _
    · exact List.suffix_refl _
    · exact List.suffix_refl _
  refine ⟨hgrow.trans hlater, ?_⟩
  rcases hbehind with ⟨hstopped, hwrites⟩ | hmatch
  · -- The first computation was stopped before it came to what follows.
    refine .inl ?_
    show (Exec.bind x f m).1.Stopped cut ∧ (Exec.bind x f m).2.writes <:+ _
    have hwrites := hwrites.trans hlater
    unfold Exec.bind
    rcases hx : x m with ⟨a | e | reason | _, m'⟩
    · rw [hx] at hstopped
      exact hstopped.elim
    · rw [hx] at hstopped hwrites
      exact ⟨hstopped, hwrites⟩
    · rw [hx] at hstopped
      exact hstopped.elim
    · rw [hx] at hwrites
      exact ⟨trivial, hwrites⟩
  · exact hmatch.bind (fun a b m' hab => (hk a b hab m').2) fun _ _ => .inr

theorem deeper {R : α → α → Prop} {x y : Exec α} (h : FallsBehind cut R x y) :
    FallsBehind cut R (Exec.deeper x) (Exec.deeper y) := by
  intro m
  obtain ⟨hgrow, hbehind⟩ := h { m with depth := m.depth + 1 }
  exact ⟨hgrow, hbehind.imp id .deeper⟩

/-- A stopped computation falls behind every computation that only writes more. -/
theorem early {R : α → α → Prop} {x y : Exec α} (h : FallsBehind cut R x y) :
    FallsBehind cut R Exec.exhausted y :=
  fun m => ⟨(h m).1, .inl ⟨trivial, (h m).1⟩⟩

end Exec.FallsBehind

def fallingBehind (cut : RunCause → Prop) : Exec.Lockstep where
  Holds := Exec.FallsBehind cut
  pure h := .of_matching (fun _ => List.suffix_refl _) fun _ => ⟨.done h, rfl⟩
  bind := .bind
  fail := .of_matching (fun _ => List.suffix_refl _) fun _ => ⟨.fault, rfl⟩
  record := .of_matching (fun _ => List.suffix_refl _) fun _ => ⟨.done rfl, rfl⟩
  depth := .of_matching (fun _ => List.suffix_refl _) fun _ => ⟨.done rfl, rfl⟩
  write := .write
  deeper := .deeper
  restart h m := h { m with depth := 0 }
  exhausted := .of_matching (fun _ => List.suffix_refl _) fun _ => ⟨.exhausted, rfl⟩
  Lags := True
  early _ := .early

theorem Behind.eq_of_not_stopped {cut : RunCause → Prop} {r r' : Ending α × Machine}
    (h : Behind cut Eq r r') (hr : ¬ r.1.Stopped cut) : r' = r := by
  rcases h with ⟨hstopped, -⟩ | hmatch
  · exact absurd hstopped hr
  · exact hmatch.eq.symm

theorem Behind.writes {cut : RunCause → Prop} {R : α → α → Prop} {r r' : Ending α × Machine}
    (h : Behind cut R r r') : r.2.writes <:+ r'.2.writes := by
  rcases h with ⟨-, hwrites⟩ | ⟨-, hm⟩
  · exact hwrites
  · exact hm ▸ List.suffix_refl _

theorem Machine.output_of_suffix {m m' : Machine} (h : m.writes <:+ m'.writes) :
    ∃ rest, m'.output = m.output ++ rest := by
  obtain ⟨more, hmore⟩ := h
  refine ⟨String.join more.reverse, ?_⟩
  rw [Machine.output, ← hmore, List.reverse_append, String.join_append, Machine.output]

namespace Run

open Exec

variable {p : Program} {limit : Int} {m₀ : Machine}

-- ---------------------------------------------------------------------------
-- Larger allowances
-- ---------------------------------------------------------------------------

/-- Only an allowance can stop a run here. -/
theorem program_behind (hle : n ≤ k) (limit : Int) (p : Program) (m₀ : Machine) :
    Behind (fun _ => False) Eq (program limit n p m₀) (program limit k p m₀) :=
  (program_compares_self (C := fallingBehind fun _ => False) (sameLimits_self _ limit)
    (.inr ⟨trivial, hle⟩) p m₀).2

/-- What a run comes to when it is given all the allowance that it needs. A run that never ends
comes to nothing. -/
def Finishes (limit : Int) (p : Program) (m₀ : Machine) (ending : Ending Unit) (m : Machine) :
    Prop :=
  ending ≠ .exhausted ∧ ∃ n, program limit n p m₀ = (ending, m)

theorem Finishes.of_ending (h : (program limit n p m₀).1 = ending) (hend : ending ≠ .exhausted) :
    Finishes limit p m₀ ending (program limit n p m₀).2 :=
  ⟨hend, n, Prod.ext h rfl⟩

theorem Finishes.eventually (h : Finishes limit p m₀ ending m) :
    ∃ n, ∀ k, n ≤ k → program limit k p m₀ = (ending, m) := by
  obtain ⟨hend, n, hn⟩ := h
  refine ⟨n, fun k hk => ?_⟩
  have hbehind := program_behind hk limit p m₀
  rw [hn] at hbehind
  refine hbehind.eq_of_not_stopped ?_
  cases ending with
  | exhausted => exact absurd rfl hend
  | done => exact id
  | fault => exact id
  | refused => exact id

/-- Runs of any two programs that finish do so with one and the same allowance. -/
theorem Finishes.together (h : Finishes limit p m₀ ending m)
    (h' : Finishes limit' q m₀' ending' m') :
    ∃ n, program limit n p m₀ = (ending, m) ∧ program limit' n q m₀' = (ending', m') := by
  obtain ⟨n, hn⟩ := h.eventually
  obtain ⟨n', hn'⟩ := h'.eventually
  exact ⟨max n n', hn _ (Nat.le_max_left n n'), hn' _ (Nat.le_max_right n n')⟩

theorem Finishes.unique (h : Finishes limit p m₀ ending m)
    (h' : Finishes limit p m₀ ending' m') : ending = ending' ∧ m = m' := by
  obtain ⟨n, hn, hn'⟩ := h.together h'
  exact Prod.mk.inj (hn.symm.trans hn')

-- ---------------------------------------------------------------------------
-- Larger limits
-- ---------------------------------------------------------------------------

/-- A limit that allows as many calls, or sets no bound, lets every call through that the smaller
one lets through. -/
theorem exceeds_false_of_le (h : small ≤ large ∨ large ≤ 0) (hpos : 0 < small)
    (hd : exceeds small d = false) : exceeds large d = false := by
  simp only [exceeds, Bool.and_eq_false_iff, decide_eq_false_iff_not] at hd ⊢
  omega

theorem sameLimits_of_le {small large : Int} (hpos : 0 < small)
    (h : small ≤ large ∨ large ≤ 0) :
    SameLimits (fallingBehind (· = .depthLimit small)) small large := by
  intro α R x y tok d hxy
  cases hd : exceeds small d with
  | false =>
    rw [exceeds_false_of_le h hpos hd]
    exact hxy
  | true =>
    -- The smaller limit stops its run here; the other run is stopped as well or goes on.
    intro m
    have hgrow : m.writes <:+
        ((if exceeds large d then fail (.depthLimit large) tok else y) m).2.writes := by
      split
      · exact List.suffix_refl _
      · exact (hxy m).1
    exact ⟨hgrow, .inl ⟨rfl, hgrow⟩⟩

/-- The limit on active calls is transparent. If the smaller of two limits does not stop a run,
the run comes to the same under the larger one and under none: the same ending on the same machine,
hence the same output, the same trace and the same failure. Stopped or not, what it wrote is what
every run under the larger limit that finishes writes first. -/
theorem call_limit_transparent (p : Program) (m₀ : Machine) {small large : Int}
    (hpos : 0 < small) (hle : small ≤ large ∨ large ≤ 0) {ending : Ending Unit} {m : Machine}
    (h : Finishes small p m₀ ending m) :
    ((∀ f, ending = .fault f →
        f.report.message ≠ "Call depth limit of " ++ toString small ++ " exceeded") →
      Finishes large p m₀ ending m) ∧
    ∀ ending' m', Finishes large p m₀ ending' m' → ∃ rest, m'.output = m.output ++ rest := by
  have hbehind (n : Nat) : Behind (· = .depthLimit small) Eq (program small n p m₀)
      (program large n p m₀) :=
    (program_compares_self (sameLimits_of_le hpos hle) (.inl rfl) p m₀).2
  refine ⟨fun hfault => ?_, fun ending' m' h' => ?_⟩
  · obtain ⟨hend, n, hn⟩ := h
    refine ⟨hend, n, ?_⟩
    have hn' := hbehind n
    rw [hn] at hn'
    refine hn'.eq_of_not_stopped ?_
    cases ending with
    | exhausted => exact absurd rfl hend
    | done => exact id
    | refused => exact id
    | fault f =>
      intro hcause
      refine hfault f rfl ?_
      rw [RunFault.report, show f.cause = .depthLimit small from hcause]
      rfl
  · obtain ⟨n, hn, hn'⟩ := h.together h'
    have hwrites := (hbehind n).writes
    rw [hn, hn'] at hwrites
    exact Machine.output_of_suffix hwrites

def threeDepths : Program :=
  ⟨default,
    [.func ⟨default, "outer", [], .void, [],
      [.print default (.literal default "true"), .call default "inner" []]⟩,
      .func ⟨default, "inner", [], .void, [], [.print default (.literal default "false")]⟩],
    [.call default "outer" [], .print default (.literal default "true")]⟩

theorem threeDepths_stopped :
    (program 1 3 threeDepths {}).1 = .fault ⟨.depthLimit 1, default⟩ ∧
      (program 1 3 threeDepths {}).2.output = "true" := by
  decide +kernel

theorem threeDepths_done :
    (program 2 3 threeDepths {}).1 = .done () ∧
      (program 2 3 threeDepths {}).2.output = "truefalsetrue" := by
  decide +kernel

/-- A limit of one call stops the program after its first text; a limit of two does not stop it, so
it comes to the same without a limit. -/
theorem call_limit_transparent_threeDepths :
    (∃ f m m' rest, Finishes 1 threeDepths {} (.fault f) m ∧
      f.report.message = "Call depth limit of 1 exceeded" ∧ m.output = "true" ∧
      Finishes 2 threeDepths {} (.done ()) m' ∧ m'.output = m.output ++ rest) ∧
    ∃ m, m.output = "truefalsetrue" ∧ Finishes 2 threeDepths {} (.done ()) m ∧
      Finishes 0 threeDepths {} (.done ()) m := by
  obtain ⟨hstopped, hfirst⟩ := threeDepths_stopped
  obtain ⟨hdone, hall⟩ := threeDepths_done
  have hone := Finishes.of_ending hstopped nofun
  have htwo := Finishes.of_ending hdone nofun
  obtain ⟨rest, hrest⟩ :=
    (call_limit_transparent threeDepths {} (by decide) (.inl (by decide)) hone).2 _ _ htwo
  refine ⟨⟨_, _, _, rest, hone, rfl, hfirst, htwo, hrest⟩, _, hall, htwo, ?_⟩
  exact (call_limit_transparent threeDepths {} (by decide) (.inr (by decide)) htwo).1 nofun

end Run

end SplatLang
