import Mathlib.Data.List.Chain
import Mathlib.Data.List.Perm.Subperm
import Mathlib.Logic.Relation
import SplatLang.Proofs.Run.Depth

/-!
# Programs without loops

Without loops only calls can make a run go on for ever, and calls that go on for ever nest ever
deeper. So a run ends if something keeps its active calls few: a limit, or a call graph without
cycles, where no function is active twice. Either way the lists of active calls that a run comes to
are bounded (`Confined`), and a bound of these lists is an allowance that suffices.

Nothing is said about programs with loops: whether those end is another matter.
-/

namespace SplatLang

open Typing Run

-- ---------------------------------------------------------------------------
-- Call graphs
-- ---------------------------------------------------------------------------

def Program.LoopFree (p : Program) : Prop :=
  ∀ block ∈ p.stmts :: p.funcs.map FuncDecl.body, ∀ tok test body,
    ¬ Within (.loop tok test body) block

/-- A call of the function stands in a block, at any depth. Of several functions with the same
label the last one is called. -/
def Program.CalledIn (p : Program) (block : List Stmt) (fn : FuncDecl) : Prop :=
  ∃ s label, Within s block ∧ s.Calls label ∧ (functionTable p).get? label = some fn

/-- The call graph: a call of the second function stands in the body of the first. -/
def Program.Calls (p : Program) (caller fn : FuncDecl) : Prop := p.CalledIn caller.body fn

def Program.Acyclic (p : Program) : Prop := ∀ fn ∈ p.funcs, ¬ Relation.TransGen p.Calls fn fn

theorem Program.CalledIn.mem {p : Program} (h : p.CalledIn block fn) : fn ∈ p.funcs := by
  obtain ⟨s, label, -, -, hfn⟩ := h
  rcases Bindings.mem_setAll (Bindings.mem_of_get? hfn) with hnil | hmem
  · cases hnil
  · obtain ⟨f, hf, heq⟩ := List.mem_map.mp hmem
    cases heq
    exact hf

/-- A rank that every call lowers excludes cycles. -/
theorem Program.acyclic_of_rank {p : Program} (rank : FuncDecl → Nat)
    (h : ∀ f ∈ p.funcs, ∀ g, p.Calls f g → rank g < rank f) : p.Acyclic := by
  intro fn hfn hcycle
  have hlower : ∀ g, Relation.TransGen p.Calls fn g → g ∈ p.funcs ∧ rank g < rank fn := by
    intro g hg
    induction hg with
    | single hcall => exact ⟨hcall.mem, h fn hfn _ hcall⟩
    | tail _ hcall ih => exact ⟨hcall.mem, (h _ ih.1 _ hcall).trans ih.2⟩
  exact Nat.lt_irrefl _ (hlower fn hcycle).2

namespace Run

open Exec

-- ---------------------------------------------------------------------------
-- Runs that are not stopped
-- ---------------------------------------------------------------------------

def Unstopped (cut : RunCause → Prop) (x : Exec α) : Prop := ∀ m, ¬ (x m).1.Stopped cut

theorem Unstopped.bind {cut : RunCause → Prop} {x : Exec α} {f : α → Exec β}
    (h : Unstopped cut x) (hk : ∀ a, Unstopped cut (f a)) : Unstopped cut (x >>= f) := by
  intro m
  have hx := h m
  show ¬ (Exec.bind x f m).1.Stopped cut
  unfold Exec.bind
  generalize x m = r at hx
  rcases r with ⟨a | e | reason | _, m'⟩
  · exact hk a m'
  · exact hx
  · exact hx
  · exact hx

theorem Unstopped.write {cut : RunCause → Prop} : Unstopped cut (Exec.write text) := by
  intro m
  unfold Exec.write
  split <;> exact id

def unstopped (cut : RunCause → Prop) (hcut : ∀ cause, cut cause → ∃ l, cause = .depthLimit l) :
    Congruence where
  Holds _ y := Unstopped cut y
  pure _ := id
  bind := .bind
  fail h _ := fun hcause => (hcut _ hcause).elim h
  record _ _ := id
  write := .write

-- ---------------------------------------------------------------------------
-- Lists of active calls
-- ---------------------------------------------------------------------------

def runningBlock (p : Program) : List FuncDecl → List Stmt
  | [] => p.stmts
  | fn :: _ => fn.body

/-- The lists of active calls that a run comes to fit, and those that fit are bounded. If the limit
forbids a call, that is no cause that is looked for. -/
structure Confined (p : Program) (limit : Int) (cut : RunCause → Prop)
    (Fits : List FuncDecl → Prop) (bound : Nat) : Prop where
  start : Fits []
  length : ∀ active, Fits active → active.length ≤ bound
  call : ∀ active fn, Fits active → p.CalledIn (runningBlock p active) fn →
    exceeds limit (active.length + 1) = false → Fits (fn :: active)
  forbidden : ∀ active fn, Fits active → p.CalledIn (runningBlock p active) fn →
    exceeds limit (active.length + 1) = true → ¬ cut (.depthLimit limit)

section

variable {p : Program} {limit : Int} {cut : RunCause → Prop} {Fits : List FuncDecl → Prop}
  {bound : Nat}

theorem respected_unstopped (hcut : ∀ cause, cut cause → ∃ l, cause = .depthLimit l) {inv : Invoke}
    (hfree : ∀ tok test body, ¬ Within (.loop tok test body) block)
    (h : ∀ fn, p.CalledIn block fn → ∀ tok values, Unstopped cut (inv tok fn values)) :
    Every (Respected (unstopped cut hcut) (functionTable p) inv inv) block := by
  intro s hs
  refine ⟨fun label hlabel fn hfn => h fn ⟨s, label, hs, hlabel, hfn⟩, ?_⟩
  rintro tok test body rfl
  exact absurd hs (hfree tok test body)

/-- Each call makes the list of active calls longer by as much as the allowance gets smaller. -/
theorem invokeUnder_unstopped (hfree : p.LoopFree)
    (hcut : ∀ cause, cut cause → ∃ l, cause = .depthLimit l)
    (hconf : Confined p limit cut Fits bound) (n : Nat) (active : List FuncDecl)
    (hfits : Fits active) (hn : bound < n + active.length) (fn : FuncDecl)
    (hfn : p.CalledIn (runningBlock p active) fn) (tok : Token) (values : List Value) :
    Unstopped cut (invokeUnder (functionTable p) limit active n tok fn values) := by
  induction n generalizing active fn tok values with
  | zero =>
    have hlength := hconf.length active hfits
    omega
  | succ n ih =>
    have hbody (hd : exceeds limit (active.length + 1) = false) :
        Every (Respected (unstopped cut hcut) (functionTable p)
          (invokeUnder (functionTable p) limit (fn :: active) n)
          (invokeUnder (functionTable p) limit (fn :: active) n)) fn.body := by
      have hloops := hfree fn.body (List.mem_cons_of_mem _ (List.mem_map_of_mem hfn.mem))
      refine respected_unstopped hcut hloops fun g hg tok values => ?_
      refine ih (fn :: active) (hconf.call active fn hfits hfn hd) ?_ g hg tok values
      rw [List.length_cons]
      omega
    exact activate_respects (fun hd _ => hconf.forbidden active fn hfits hfn hd) (fun _ => id) hbody

theorem program_unstopped (hfree : p.LoopFree)
    (hcut : ∀ cause, cut cause → ∃ l, cause = .depthLimit l)
    (hconf : Confined p limit cut Fits bound) (hn : bound < n) :
    Unstopped cut (program limit n p) := by
  intro m
  rw [program_eq_under]
  refine main_respects (C := unstopped cut hcut) (respected_unstopped hcut
    (hfree _ List.mem_cons_self) fun fn hfn tok values => ?_) { m with depth := 0 }
  exact invokeUnder_unstopped hfree hcut hconf n [] hconf.start hn fn hfn tok values

end

theorem Finishes.of_unstopped {cut : RunCause → Prop} (h : Unstopped cut (program limit n p))
    (m₀ : Machine) : ∃ ending m, Finishes limit p m₀ ending m := by
  refine ⟨_, _, Finishes.of_ending (n := n) rfl fun hend => h m₀ ?_⟩
  rw [hend]
  trivial

/-- A limit confines a run to lists that are not longer than it. -/
theorem confined_of_limit (p : Program) (hpos : 0 < limit) :
    Confined p limit (fun _ => False) (fun active => active.length ≤ limit.toNat) limit.toNat where
  start := Nat.zero_le _
  length _ h := h
  call active fn _ _ hd := by
    simp only [exceeds, Bool.and_eq_false_iff, decide_eq_false_iff_not] at hd
    rw [List.length_cons]
    omega
  forbidden _ _ _ _ _ := id

-- ---------------------------------------------------------------------------
-- Call graphs without cycles
-- ---------------------------------------------------------------------------

/-- Functions that may be active together: each one is declared and is called by the next. -/
structure Stacked (p : Program) (active : List FuncDecl) : Prop where
  declared : active ⊆ p.funcs
  called : active.IsChain (Function.swap p.Calls)

theorem Stacked.call (h : Stacked p active) (hfn : p.CalledIn (runningBlock p active) fn) :
    Stacked p (fn :: active) where
  declared := List.cons_subset.mpr ⟨hfn.mem, h.declared⟩
  called := by
    cases active with
    | nil => exact .singleton fn
    | cons caller rest => exact .cons_cons hfn h.called

/-- Without cycles no function is active twice, so no more calls are active than are declared. -/
theorem Stacked.length_le (hp : p.Acyclic) (h : Stacked p active) :
    active.length ≤ p.funcs.length := by
  have hpaths : active.Pairwise (Relation.TransGen (Function.swap p.Calls)) :=
    (h.called.imp fun _ _ => .single).pairwise
  have hnodup : active.Nodup := by
    refine hpaths.imp_of_mem ?_
    rintro fn _ hmem _ hpath rfl
    exact hp fn (h.declared hmem) (Relation.transGen_swap.mp hpath)
  exact (List.subperm_of_subset hnodup h.declared).length_le

theorem confined_of_acyclic (hp : p.Acyclic) (hlimit : limit ≤ 0 ∨ (p.funcs.length : Int) ≤ limit)
    (cut : RunCause → Prop) : Confined p limit cut (Stacked p) p.funcs.length where
  start := ⟨List.nil_subset _, .nil⟩
  length _ h := h.length_le hp
  call _ _ h hfn _ := h.call hfn
  forbidden active fn h hfn hd := by
    have hlength := (h.call hfn).length_le hp
    simp only [exceeds, Bool.and_eq_true, decide_eq_true_eq] at hd
    rw [List.length_cons] at hlength
    omega

/-- Programs without loops terminate. With a limit on the calls that are active at once such a run
comes to an end, also if the program was not checked. If moreover no function calls itself, not
even by way of others, it comes to an end without a limit as well, and a limit that is at least the
number of declared functions never stops it. -/
theorem loop_free_terminates (p : Program) (hfree : p.LoopFree) (m₀ : Machine) :
    (∀ limit, 0 < limit → ∃ ending m, Finishes limit p m₀ ending m) ∧
    (p.Acyclic →
      (∀ limit, limit ≤ 0 → ∃ ending m, Finishes limit p m₀ ending m) ∧
      ∀ limit, (p.funcs.length : Int) ≤ limit → ∀ f m, Finishes limit p m₀ (.fault f) m →
        ∀ l, f.cause ≠ .depthLimit l) := by
  refine ⟨fun limit hpos => ?_, fun hp => ⟨fun limit hle => ?_, fun limit hle f m h l hcause => ?_⟩⟩
  · have hconf := confined_of_limit p hpos
    exact Finishes.of_unstopped (program_unstopped hfree nofun hconf (Nat.lt_succ_self _)) m₀
  · have hconf := confined_of_acyclic hp (.inl hle) fun _ => False
    exact Finishes.of_unstopped (program_unstopped hfree nofun hconf (Nat.lt_succ_self _)) m₀
  · -- With a larger allowance the run ends in the same fault, and then it is not stopped.
    obtain ⟨n, hn⟩ := h.eventually
    have hconf := confined_of_acyclic hp (.inr hle) fun cause => ∃ l, cause = .depthLimit l
    have hrun := program_unstopped (n := max n (p.funcs.length + 1)) hfree (fun _ => id) hconf
      (by omega) m₀
    rw [hn _ (Nat.le_max_left ..)] at hrun
    exact hrun ⟨l, hcause⟩

theorem threeDepths_loopFree : threeDepths.LoopFree := by
  intro block hblock tok test body hw
  rcases List.mem_cons.mp hblock with rfl | hblock
  · simp [threeDepths, within_cons, not_within_nil, Inside] at hw
  · rcases List.mem_pair.mp hblock with rfl | rfl <;>
      simp [within_cons, not_within_nil, Inside] at hw

/-- A print of a literal calls nothing. -/
theorem not_calls_print : ¬ (Stmt.print tok (.literal tok' raw)).Calls label := by
  rintro (⟨_, _, ⟨⟩⟩ | ⟨e, he, _, _, hpart⟩)
  cases List.mem_singleton.mp he
  cases hpart

theorem threeDepths_acyclic : threeDepths.Acyclic := by
  refine Program.acyclic_of_rank (fun f => if f.label = "outer" then 1 else 0) ?_
  rintro f hf g ⟨s, label, hs, hlabel, hg⟩
  rcases List.mem_pair.mp hf with rfl | rfl
  · simp only [within_cons, not_within_nil, Inside, or_false] at hs
    rcases hs with rfl | rfl
    · exact absurd hlabel not_calls_print
    · rcases hlabel with ⟨_, _, ⟨⟩⟩ | ⟨e, ⟨⟩, -⟩
      cases hg
      decide
  · simp only [within_cons, not_within_nil, Inside, or_false] at hs
    subst hs
    exact absurd hlabel not_calls_print

/-- The program ends under a limit that stops it and without one, and its two functions are never
too deep for a limit of two. -/
theorem loop_free_terminates_threeDepths :
    threeDepths.LoopFree ∧ threeDepths.Acyclic ∧
    (∃ ending m, Finishes 1 threeDepths {} ending m) ∧
    (∃ ending m, Finishes 0 threeDepths {} ending m) ∧
    ∀ f m, Finishes 2 threeDepths {} (.fault f) m → ∀ l, f.cause ≠ .depthLimit l := by
  obtain ⟨hlimited, hacyclic⟩ := loop_free_terminates threeDepths threeDepths_loopFree {}
  obtain ⟨hends, hdeep⟩ := hacyclic threeDepths_acyclic
  exact ⟨threeDepths_loopFree, threeDepths_acyclic, hlimited 1 (by decide), hends 0 (by decide),
    hdeep 2 (by decide)⟩

end Run

end SplatLang
