import SplatLang.Outcome

/-!
# Failures under layers

Callers put layers around a failure. A layer that traces or adds words hides nothing: the fault
inside, with its phase, its message and its place, is what it was, and only words come before the
text. Behind a layer that covers what is inside, or where there was no fault to begin with, nothing
is found but the text.

How errors are traced is left open. All that matters is that an error gets one layer for it, however
often it is traced in a row.
-/

namespace SplatLang

namespace Failure

/-- Records that errors pass. An error that is traced already stays as it is. -/
structure Tracing (wrap : Failure → Failure) : Prop where
  wraps : ∀ e, (∀ inner, e ≠ traced inner) → wrap e = traced e
  settles : ∀ e, wrap (traced e) = traced e

theorem Tracing.cases {wrap : Failure → Failure} (h : Tracing wrap) (e : Failure) :
    wrap e = traced e ∨ wrap e = e := by
  cases e with
  | traced inner => exact .inr (h.settles inner)
  | fault | other | context => exact .inl (h.wraps _ fun _ => nofun)

theorem Tracing.text {wrap : Failure → Failure} (h : Tracing wrap) (e : Failure) :
    (wrap e).text = e.text := by
  rcases h.cases e with he | he <;> rw [he]
  rfl

theorem Tracing.fault? {wrap : Failure → Failure} (h : Tracing wrap) (e : Failure) :
    (wrap e).fault? = e.fault? := by
  rcases h.cases e with he | he <;> rw [he]
  rfl

/-- Whatever is asked of a failure, the answer is that of a fault inside it. -/
structure Shows (e : Failure) (f : Fault) : Prop where
  fault : e.fault? = some f
  phase : e.phase? = some f.phase
  outcome : Outcome.ofFailure (some e) = .raised f.phase
  message : e.message = f.message
  location : e.location? = some f.location

structure ShowsText (e : Failure) : Prop where
  fault : e.fault? = none
  phase : e.phase? = none
  outcome : Outcome.ofFailure (some e) = .internal
  message : e.message = e.text
  location : e.location? = none

theorem Shows.of_fault? {e : Failure} (h : e.fault? = some f) : e.Shows f where
  fault := h
  phase := by simp [phase?, h]
  outcome := by simp [Outcome.ofFailure, phase?, h]
  message := by simp [Failure.message, h]
  location := by simp [location?, h]

theorem ShowsText.of_fault? {e : Failure} (h : e.fault? = none) : e.ShowsText where
  fault := h
  phase := by simp [phase?, h]
  outcome := by simp [Outcome.ofFailure, phase?, h]
  message := by simp [Failure.message, h]
  location := by simp [location?, h]

end Failure

/-- What a caller does to a failure that it hands on. -/
inductive Layer
  | trace
  | words (w : String)
  /-- Makes an error of any text, behind which nothing is found. -/
  | cover (text : String)
  deriving DecidableEq, Repr

namespace Layer

def Covers (layer : Layer) : Prop := ∃ text, layer = cover text

def around (wrap : Failure → Failure) : Layer → Failure → Failure
  | trace, e => wrap e
  | words w, e => .context w e
  | cover text, _ => .other text

def lead : Layer → String
  | trace => ""
  | words w => w ++ ": "
  | cover _ => ""

variable {wrap : Failure → Failure} (hwrap : Failure.Tracing wrap) {layer : Layer}
include hwrap

theorem around_text (h : ¬ layer.Covers) (e : Failure) :
    (layer.around wrap e).text = layer.lead ++ e.text := by
  cases layer with
  | trace => simp [around, lead, hwrap.text]
  | words w => rfl
  | cover text => exact absurd ⟨text, rfl⟩ h

theorem around_fault? (h : ¬ layer.Covers) (e : Failure) :
    (layer.around wrap e).fault? = e.fault? := by
  cases layer with
  | trace => exact hwrap.fault? e
  | words w => rfl
  | cover text => exact absurd ⟨text, rfl⟩ h

end Layer

/-- A failure under layers, the outermost of which comes first. -/
def Failure.under (wrap : Failure → Failure) (layers : List Layer) (e : Failure) : Failure :=
  layers.foldr (Layer.around wrap) e

namespace Failure

variable {wrap : Failure → Failure} (hwrap : Tracing wrap) {layers : List Layer}
include hwrap

theorem under_text (hopen : ∀ layer ∈ layers, ¬ layer.Covers) (e : Failure) :
    (e.under wrap layers).text = String.join (layers.map Layer.lead) ++ e.text := by
  induction layers with
  | nil => simp [under]
  | cons layer layers ih =>
    rw [List.forall_mem_cons] at hopen
    show (layer.around wrap (e.under wrap layers)).text = _
    rw [Layer.around_text hwrap hopen.1, ih hopen.2, List.map_cons, String.join_cons,
      String.append_assoc]

theorem under_fault? (hopen : ∀ layer ∈ layers, ¬ layer.Covers) (e : Failure) :
    (e.under wrap layers).fault? = e.fault? := by
  induction layers with
  | nil => rfl
  | cons layer layers ih =>
    rw [List.forall_mem_cons] at hopen
    exact (Layer.around_fault? hwrap hopen.1 _).trans (ih hopen.2)

/-- Where no fault is inside, no layer brings one. -/
theorem under_plain {e : Failure} (h : e.fault? = none) (layers : List Layer) :
    (e.under wrap layers).fault? = none := by
  induction layers with
  | nil => exact h
  | cons layer layers ih =>
    by_cases hcover : layer.Covers
    · obtain ⟨text, rfl⟩ := hcover
      rfl
    · exact (Layer.around_fault? hwrap hcover _).trans ih

end Failure

/-- A fault is seen through any layers that cover nothing: it is found with its phase, its message
and its place. An error that is no fault, or one behind a layer that covers it, has no phase and no
place, counts as internal, and is known by its text only. The text gains just what the layers put
before it, in their order, down to the first layer that covers what is inside by a text of its
own. -/
theorem faults_seen_through_layers (wrap : Failure → Failure) (hwrap : Failure.Tracing wrap)
    (layers : List Layer) (base : Failure) :
    (∀ f, base = .fault f → (∀ layer ∈ layers, ¬ layer.Covers) →
      (base.under wrap layers).Shows f) ∧
    ((∃ t, base = .other t) ∨ (∃ layer ∈ layers, layer.Covers) →
      (base.under wrap layers).ShowsText) ∧
    ((∀ layer ∈ layers, ¬ layer.Covers) →
      (base.under wrap layers).text = String.join (layers.map Layer.lead) ++ base.text) ∧
    ∀ outer text inner, layers = outer ++ .cover text :: inner →
      (∀ layer ∈ outer, ¬ layer.Covers) →
      (base.under wrap layers).text = String.join (outer.map Layer.lead) ++ text := by
  have hcovered (outer : List Layer) (text : String) (inner : List Layer) :
      base.under wrap (outer ++ .cover text :: inner) = (Failure.other text).under wrap outer := by
    rw [Failure.under, List.foldr_append]
    rfl
  refine ⟨?_, fun h => .of_fault? ?_, fun hopen => Failure.under_text hwrap hopen base, ?_⟩
  · rintro f rfl hopen
    exact .of_fault? (Failure.under_fault? hwrap hopen _)
  · rcases h with ⟨t, rfl⟩ | ⟨_, hmem, text, rfl⟩
    · exact Failure.under_plain hwrap rfl layers
    · obtain ⟨outer, inner, rfl⟩ := List.append_of_mem hmem
      rw [hcovered]
      exact Failure.under_plain hwrap rfl outer
  · rintro outer text inner rfl hopen
    rw [hcovered]
    exact Failure.under_text hwrap hopen _

def Failure.trace : Failure → Failure
  | traced e => traced e
  | e => traced e

theorem Failure.trace_tracing : Tracing trace where
  wraps e h := by
    cases e with
    | traced inner => exact absurd rfl (h inner)
    | fault | other | context => rfl
  settles _ := rfl

/-- Layers of both kinds around a fault, and the same with a cover between them. -/
theorem faults_seen_through_layers_twice :
    ((Failure.fault ⟨.parse, "no end", ⟨2, 7, "a"⟩⟩).under Failure.trace
      [.trace, .words "case", .trace, .trace, .words "run"]).Shows
        ⟨.parse, "no end", ⟨2, 7, "a"⟩⟩ ∧
    ((Failure.fault ⟨.parse, "no end", ⟨2, 7, "a"⟩⟩).under Failure.trace
      [.trace, .words "case", .trace, .trace, .words "run"]).text =
        "case: run: no end (a:2:7)" ∧
    ((Failure.fault ⟨.parse, "no end", ⟨2, 7, "a"⟩⟩).under Failure.trace
      [.words "case", .cover "hidden", .words "run"]).ShowsText ∧
    ((Failure.fault ⟨.parse, "no end", ⟨2, 7, "a"⟩⟩).under Failure.trace
      [.words "case", .cover "hidden", .words "run"]).text = "case: hidden" := by
  have hopen : ∀ layer ∈ [Layer.trace, .words "case", .trace, .trace, .words "run"],
      ¬ layer.Covers := by simp [Layer.Covers]
  have hseen := faults_seen_through_layers _ Failure.trace_tracing
    [.trace, .words "case", .trace, .trace, .words "run"] (.fault ⟨.parse, "no end", ⟨2, 7, "a"⟩⟩)
  have hcovered := faults_seen_through_layers _ Failure.trace_tracing
    [.words "case", .cover "hidden", .words "run"] (.fault ⟨.parse, "no end", ⟨2, 7, "a"⟩⟩)
  refine ⟨hseen.1 _ rfl hopen, (hseen.2.2.1 hopen).trans (by decide),
    hcovered.2.1 (.inr ⟨.cover "hidden", by simp, _, rfl⟩), ?_⟩
  exact (hcovered.2.2.2 [.words "case"] _ _ rfl (by simp [Layer.Covers])).trans (by decide)

end SplatLang
