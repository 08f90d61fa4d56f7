import SplatLang.Interpreter
import SplatLang.Proofs.Failure
import SplatLang.Proofs.Run.Limits

/-!
# Sinks that fail

A run into a sink with room for some texts does what it does into an endless sink, up to the text
for which no room is left. There it stops at once, however deep in blocks, loops and calls it is:
nothing more is written, and the refusal is reported as it is. This is said also of runs that would
never end, since only what is written by then matters.
-/

namespace SplatLang

def Sink.fault? : Sink → Option Fault
  | endless => none
  | limited _ refusal => refusal.fault?

variable {α β : Type}

-- ---------------------------------------------------------------------------
-- Endless and limited sinks
-- ---------------------------------------------------------------------------

/-- Two results compared: the first with an endless sink, which took the texts `new` after those in
`old`; the second with a sink that had room for `room` texts after `old`. As everywhere, the last
text comes first. -/
structure Truncated (R : α → α → Prop) (old : List String) (room : Nat) (refusal : Failure)
    (new : List String) (r r' : Ending α × Machine) : Prop where
  writes : r.2.writes = new ++ old
  sink : r.2.sink = .endless
  accepted : ∀ reason, r.1 ≠ .refused reason
  fits : new.length ≤ room →
    r.1.Agree R r'.1 ∧ r'.2 = { r.2 with sink := .limited (room - new.length) refusal }
  refuses : room < new.length →
    r'.1 = .refused refusal ∧ r'.2.writes = new.drop (new.length - room) ++ old

/-- The second computation does with a limited sink what the first does with an endless one, until
the sink refuses a text. -/
def Exec.IsTruncated (R : α → α → Prop) (x y : Exec α) : Prop :=
  ∀ (m : Machine) room refusal, ∃ new, Truncated R m.writes room refusal new
    (x { m with sink := .endless }) (y { m with sink := .limited room refusal })

namespace Truncated

variable {S : β → β → Prop} {room : Nat} {refusal : Failure} {old new more : List String}

/-- The room that is left decides about what is written afterwards. -/
theorem after {s s' : Ending β × Machine} (hroom : new.length ≤ room)
    (h : Truncated S (new ++ old) (room - new.length) refusal more s s') :
    Truncated S old room refusal (more ++ new) s s' where
  writes := by rw [h.writes, List.append_assoc]
  sink := h.sink
  accepted := h.accepted
  fits hlen := by
    rw [List.length_append] at hlen ⊢
    rw [show room - (more.length + new.length) = room - new.length - more.length by omega]
    exact h.fits (by omega)
  refuses hlen := by
    rw [List.length_append] at hlen ⊢
    obtain ⟨hs, hw⟩ := h.refuses (by omega)
    refine ⟨hs, ?_⟩
    rw [hw, ← List.append_assoc, List.drop_append_of_le_length (by omega),
      show more.length + new.length - room = more.length - (room - new.length) by omega]

/-- Once a text was refused, what the endless sink takes afterwards does not matter. -/
theorem afterRefusal {s s' : Ending β × Machine} {m' : Machine} (hroom : room < new.length)
    (hm' : m'.writes = new.drop (new.length - room) ++ old)
    (h : Truncated S (new ++ old) 0 refusal more s s') :
    Truncated S old room refusal (more ++ new) s (.refused refusal, m') where
  writes := by rw [h.writes, List.append_assoc]
  sink := h.sink
  accepted := h.accepted
  fits hlen := by
    rw [List.length_append] at hlen
    omega
  refuses _ := by
    have hdrop : (more ++ new).drop (more.length + new.length - room) =
        new.drop (new.length - room) := by
      rw [List.drop_append, List.drop_eq_nil_of_le (by omega), List.nil_append,
        show more.length + new.length - room - more.length = new.length - room by omega]
    rw [List.length_append, hdrop]
    exact ⟨rfl, hm'⟩

end Truncated

namespace Exec.IsTruncated

theorem write : IsTruncated Eq (Exec.write text) (Exec.write text) := by
  intro m room refusal
  refine ⟨[text], rfl, rfl, fun _ => nofun, fun hroom => ?_, fun hroom => ?_⟩
  · cases room with
    | zero => exact absurd hroom (Nat.not_succ_le_zero 0)
    | succ room => exact ⟨.done rfl, rfl⟩
  · cases room with
    | zero => exact ⟨rfl, rfl⟩
    | succ room => exact absurd hroom (by simp)

theorem bind {R : α → α → Prop} {S : β → β → Prop} {x y : Exec α} {f g : α → Exec β}
    (hrefl : ∀ a, R a a) (h : IsTruncated R x y)
    (hk : ∀ a b, R a b → IsTruncated S (f a) (g b)) : IsTruncated S (x >>= f) (y >>= g) := by
  intro m room refusal
  obtain ⟨new, h⟩ := h m room refusal
  show ∃ new, Truncated S m.writes room refusal new (Exec.bind x f _) (Exec.bind y g _)
  unfold Exec.bind
  generalize x { m with sink := .endless } = r at h
  generalize y { m with sink := .limited room refusal } = r' at h
  obtain ⟨e, l⟩ := r
  obtain ⟨e', l'⟩ := r'
  have hwrites : l.writes = new ++ m.writes := h.writes
  have hendless : { l with sink := .endless } = l := by
    rw [← show l.sink = .endless from h.sink]
  by_cases hroom : new.length ≤ room
  · -- Nothing was refused, so what follows has the room that is left.
    obtain ⟨hagree, hl'⟩ := h.fits hroom
    cases hagree with
    | @done a b hab =>
      obtain ⟨more, hmore⟩ := hk a b hab l (room - new.length) refusal
      rw [hendless, ← show l' = { l with sink := .limited _ _ } from hl', hwrites] at hmore
      exact ⟨more ++ new, hmore.after hroom⟩
    | fault => exact ⟨new, h.writes, h.sink, fun _ => nofun, fun _ => ⟨.fault, hl'⟩, by omega⟩
    | refused => exact absurd rfl (h.accepted _)
    | exhausted =>
      exact ⟨new, h.writes, h.sink, fun _ => nofun, fun _ => ⟨.exhausted, hl'⟩, by omega⟩
  · -- Only the first computation goes on, and writes behind what was cut off.
    have hroom := Nat.not_le.mp hroom
    obtain ⟨he', hl'⟩ := h.refuses hroom
    cases (show e' = .refused refusal from he')
    cases e with
    | done a =>
      obtain ⟨more, hmore⟩ := hk a a (hrefl a) l 0 refusal
      rw [hendless, hwrites] at hmore
      exact ⟨more ++ new, hmore.afterRefusal hroom hl'⟩
    | fault fault => exact ⟨new, h.writes, h.sink, fun _ => nofun, by omega, fun _ => ⟨rfl, hl'⟩⟩
    | refused reason => exact absurd rfl (h.accepted reason)
    | exhausted => exact ⟨new, h.writes, h.sink, fun _ => nofun, by omega, fun _ => ⟨rfl, hl'⟩⟩

theorem deeper {R : α → α → Prop} {x y : Exec α} (h : IsTruncated R x y) :
    IsTruncated R (Exec.deeper x) (Exec.deeper y) := by
  intro m room refusal
  obtain ⟨new, h⟩ := h { m with depth := m.depth + 1 } room refusal
  refine ⟨new, h.writes, h.sink, h.accepted, fun hroom => ?_, h.refuses⟩
  obtain ⟨hagree, hm⟩ := h.fits hroom
  exact ⟨hagree, by simp only [Exec.deeper, hm]⟩

end Exec.IsTruncated

def truncation : Exec.Lockstep where
  Holds := Exec.IsTruncated
  pure h _ _ _ := ⟨[], rfl, rfl, fun _ => nofun, fun _ => ⟨.done h, rfl⟩, nofun⟩
  bind := .bind
  fail _ _ _ := ⟨[], rfl, rfl, fun _ => nofun, fun _ => ⟨.fault, rfl⟩, nofun⟩
  record _ _ _ := ⟨[], rfl, rfl, fun _ => nofun, fun _ => ⟨.done rfl, rfl⟩, nofun⟩
  depth _ _ _ := ⟨[], rfl, rfl, fun _ => nofun, fun _ => ⟨.done rfl, rfl⟩, nofun⟩
  write := .write
  deeper := .deeper
  restart h m := h { m with depth := 0 }
  exhausted _ _ _ := ⟨[], rfl, rfl, fun _ => nofun, fun _ => ⟨.exhausted, rfl⟩, nofun⟩
  Lags := False
  early := nofun

namespace Run

variable {p : Program} {limit : Int} {texts : List String}

theorem program_truncated (limit : Int) (n : Nat) (p : Program) :
    Exec.IsTruncated Eq (program limit n p) (program limit n p) :=
  program_compares_self (C := truncation) (sameLimits_self _ limit) (.inl rfl) p

/-- A run is refused a text by its sink only, for the reason that the sink has. -/
theorem sink_of_refused (h : program limit n p m₀ = (.refused reason, m)) :
    ∃ room, m₀.sink = .limited room reason := by
  cases hsink : m₀.sink with
  | endless =>
    obtain ⟨new, htrunc⟩ := program_truncated limit n p m₀ 0 reason
    rw [← hsink, h] at htrunc
    exact absurd rfl (htrunc.accepted reason)
  | limited room refusal =>
    obtain ⟨new, htrunc⟩ := program_truncated limit n p m₀ room refusal
    rw [← hsink, h] at htrunc
    by_cases hroom : new.length ≤ room
    · exact absurd (htrunc.fits hroom).1.eq (htrunc.accepted reason)
    · cases (htrunc.refuses (Nat.not_le.mp hroom)).1
      exact ⟨room, rfl⟩

/-- An endless sink refuses nothing. -/
theorem not_refused (hsink : m₀.sink = .endless) (h : Finishes limit p m₀ ending m) :
    ending ≠ .refused reason := by
  rintro rfl
  obtain ⟨-, n, hn⟩ := h
  obtain ⟨room, hlimited⟩ := sink_of_refused hn
  cases hsink.symm.trans hlimited

-- ---------------------------------------------------------------------------
-- The texts of a run
-- ---------------------------------------------------------------------------

/-- These are the first texts that a run into an endless sink writes, whether or not the run ever
ends. -/
def FirstTexts (limit : Int) (p : Program) (texts : List String) : Prop :=
  ∃ n, texts <+: (program limit n p {}).2.writes.reverse

theorem FirstTexts.eventually (h : FirstTexts limit p texts) :
    ∃ n, ∀ k, n ≤ k → texts <+: (program limit k p {}).2.writes.reverse := by
  obtain ⟨n, hn⟩ := h
  refine ⟨n, fun k hk => hn.trans ?_⟩
  exact List.reverse_prefix.mpr (program_behind hk limit p {}).writes

/-- The first texts of a run are those of one sequence. -/
theorem FirstTexts.comparable (h : FirstTexts limit p texts) (h' : FirstTexts limit p texts') :
    texts <+: texts' ∨ texts' <+: texts := by
  obtain ⟨n, hn⟩ := h.eventually
  obtain ⟨n', hn'⟩ := h'.eventually
  exact List.prefix_or_prefix_of_prefix (hn _ (Nat.le_max_left n n'))
    (hn' _ (Nat.le_max_right n n'))

theorem Finishes.firstTexts (h : Finishes limit p {} ending m) :
    FirstTexts limit p texts ↔ texts <+: m.writes.reverse := by
  constructor
  · intro htexts
    obtain ⟨n, hn⟩ := htexts.eventually
    obtain ⟨k, hk⟩ := h.eventually
    have hprefix := hn _ (Nat.le_max_left n k)
    rwa [hk _ (Nat.le_max_right n k)] at hprefix
  · intro hprefix
    obtain ⟨-, n, hn⟩ := h
    exact ⟨n, by rwa [hn]⟩

-- ---------------------------------------------------------------------------
-- A failing sink truncates
-- ---------------------------------------------------------------------------

theorem Finishes.limited (h : Finishes limit p {} ending m) (hroom : m.writes.length ≤ room)
    (refusal : Failure) :
    Finishes limit p { sink := .limited room refusal } ending
      { m with sink := .limited (room - m.writes.length) refusal } := by
  obtain ⟨hend, n, hn⟩ := h
  refine ⟨hend, n, ?_⟩
  obtain ⟨new, htrunc⟩ := program_truncated limit n p {} room refusal
  rw [hn] at htrunc
  have hwrites : m.writes = new := htrunc.writes.trans (List.append_nil new)
  rw [← hwrites] at htrunc
  obtain ⟨hagree, hm⟩ := htrunc.fits hroom
  exact Prod.ext hagree.eq.symm hm

theorem FirstTexts.refused (h : FirstTexts limit p texts) (hroom : room < texts.length)
    (refusal : Failure) :
    ∃ m, Finishes limit p { sink := .limited room refusal } (.refused refusal) m ∧
      m.writes.reverse = texts.take room := by
  obtain ⟨n, more, hmore⟩ := h
  obtain ⟨new, htrunc⟩ := program_truncated limit n p {} room refusal
  have hnew : new.reverse = texts ++ more := by
    rw [hmore, htrunc.writes]
    simp
  have hlen : room < new.length := by
    have heq := congrArg List.length hnew
    rw [List.length_reverse, List.length_append] at heq
    omega
  obtain ⟨hrefused, hwrites⟩ := htrunc.refuses hlen
  refine ⟨_, .of_ending hrefused nofun, ?_⟩
  calc (program limit n p { sink := .limited room refusal }).2.writes.reverse
      = (new.drop (new.length - room)).reverse := by rw [hwrites]; simp
    _ = new.reverse.take room := by
        rw [List.reverse_drop, show new.length - (new.length - room) = room by omega]
    _ = texts.take room := by rw [hnew, List.take_append_of_le_length (by omega)]

/-- How a refusal is reported: the words come before its text, and a fault inside it is found. -/
theorem failure_of_refused (refusal : Failure) :
    ∃ failure, (Ending.refused refusal : Ending Unit).failure? = some failure ∧
      failure.fault? = refusal.fault? ∧ failure.text = "writing output: " ++ refusal.text :=
  ⟨_, rfl, rfl, rfl⟩

/-- A failing sink truncates a run and does nothing else. The texts that a run into an endless sink
writes are one sequence, of which a run that ends has written all. If a sink has room for all of
them, the run comes to the same as into the endless sink. If there are more, whether or not the run
would ever end, it ends when the room is used up, with just the first texts written and the error
of the sink as its failure. That is no fault, unless the sink refuses texts with a fault. -/
theorem failing_sink_truncates (p : Program) (limit : Int) (room : Nat) (refusal : Failure) :
    (∀ texts texts', FirstTexts limit p texts → FirstTexts limit p texts' →
      texts <+: texts' ∨ texts' <+: texts) ∧
    (∀ ending m, Finishes limit p {} ending m →
      (∀ texts, FirstTexts limit p texts ↔ texts <+: m.writes.reverse) ∧
      (m.writes.length ≤ room →
        Finishes limit p { sink := .limited room refusal } ending
          { m with sink := .limited (room - m.writes.length) refusal })) ∧
    (∀ texts, FirstTexts limit p texts → room < texts.length →
      ∃ m, Finishes limit p { sink := .limited room refusal } (.refused refusal) m ∧
        m.writes.reverse = texts.take room) ∧
    ∃ failure, (Ending.refused refusal : Ending Unit).failure? = some failure ∧
      failure.text = "writing output: " ++ refusal.text ∧ failure.fault? = refusal.fault? ∧
      (refusal.fault? = none →
        failure.phase? = none ∧ Outcome.ofFailure (some failure) = .internal) := by
  refine ⟨fun _ _ h h' => h.comparable h', fun _ _ h => ⟨fun _ => h.firstTexts, fun hroom => ?_⟩,
    fun _ h hroom => h.refused hroom refusal, ?_⟩
  · exact h.limited hroom refusal
  · obtain ⟨failure, hfailure, hfault, htext⟩ := failure_of_refused refusal
    refine ⟨failure, hfailure, htext, hfault, fun hnone => ?_⟩
    have hplain := Failure.ShowsText.of_fault? (hfault.trans hnone)
    exact ⟨hplain.phase, hplain.outcome⟩

def endlessLines : Program :=
  ⟨default, [], [.loop default (.literal default "true") [.printLine default]]⟩

theorem endlessLines_writes :
    (program 0 3 endlessLines {}).2.writes.reverse = ["\n", "\n", "\n"] := by
  decide +kernel

theorem endlessLines_texts : FirstTexts 0 endlessLines ["\n", "\n", "\n"] :=
  ⟨3, [], endlessLines_writes.symm⟩

/-- There is room for all three texts of one program, and for the first two of another that would
go on for ever. -/
theorem failing_sink_truncates_endlessLines :
    (∃ m, Finishes 2 threeDepths { sink := .limited 3 (.other "full") } (.done ()) m ∧
      m.output = "truefalsetrue") ∧
    (∃ m, Finishes 0 endlessLines { sink := .limited 2 (.other "full") }
        (.refused (.other "full")) m ∧
      m.writes.reverse = ["\n", "\n"]) ∧
    ∃ failure, (Ending.refused (.other "full") : Ending Unit).failure? = some failure ∧
      failure.text = "writing output: full" ∧ failure.phase? = none := by
  obtain ⟨m, hdone, houtput, hlen⟩ : ∃ m, Finishes 2 threeDepths {} (.done ()) m ∧
      m.output = "truefalsetrue" ∧ m.writes.length ≤ 3 :=
    ⟨_, .of_ending threeDepths_done.1 nofun, threeDepths_done.2, by decide +kernel⟩
  obtain ⟨-, hfits, -⟩ := failing_sink_truncates threeDepths 2 3 (.other "full")
  obtain ⟨-, -, hrefused, failure, hfailure, htext, -, hplain⟩ :=
    failing_sink_truncates endlessLines 0 2 (.other "full")
  refine ⟨⟨_, (hfits _ _ hdone).2 hlen, houtput⟩, hrefused _ endlessLines_texts (by decide),
    failure, hfailure, htext, (hplain rfl).1⟩

def foreignFault : Fault := ⟨.execution, "Division by zero", ⟨1, 1, "b.splat"⟩⟩

/-- A sink that refuses texts with a fault makes a fault of the refusal. -/
theorem refusal_with_fault :
    (∃ m, Finishes 0 endlessLines { sink := .limited 2 foreignFault.raise }
      (.refused foreignFault.raise) m) ∧
    ∃ failure, (Ending.refused foreignFault.raise : Ending Unit).failure? = some failure ∧
      failure.phase? = some .execution ∧ Outcome.ofFailure (some failure) ≠ .internal := by
  have hroom : 2 < ["\n", "\n", "\n"].length := by decide
  obtain ⟨m, hends, -⟩ := endlessLines_texts.refused hroom foreignFault.raise
  exact ⟨⟨m, hends⟩, _, rfl, rfl, by decide⟩

end Run

end SplatLang
