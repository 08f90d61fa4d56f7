import SplatLang.Config
import SplatLang.Proofs.FileTree
import SplatLang.Proofs.Yaml.Values

/-!
# Configurations survive a store and a load

A stored configuration sets all its fields but the empty ones of a suite, so that reading it on top
of the defaults gives every field the value it had. Only the last checks change it, and what they
give passes them unchanged.

All that is asked of a codec is that it is `Faithful`: reading what it wrote makes the settings
that were written and no others. YAML is.
-/

namespace SplatLang.Config

open Yaml Text

-- ---------------------------------------------------------------------------
-- Settings
-- ---------------------------------------------------------------------------

section

/-- The number is one of the machine's. -/
def Fits (c : Config σ) : Prop := -(bound64 : Int) ≤ c.maxCallDepth ∧ c.maxCallDepth < bound64

def SuiteSetting.change : SuiteSetting σ → SuiteSource σ → SuiteSource σ
  | url value, s => { s with url := value }
  | ref value, s => { s with ref := value }
  | dir value, s => { s with dir := value }

def changeSuite (s : SuiteSource σ) (xs : List (SuiteSetting σ)) : SuiteSource σ :=
  xs.foldl (fun s x => x.change s) s

variable [Script σ]

def Setting.change : Setting σ → Config σ → Config σ
  | tests value, c => { c with tests := value }
  | verbose value, c => { c with verbose := value }
  | maxCallDepth value, c => { c with maxCallDepth := value }
  -- A suite that is there keeps what is not set.
  | suite xs, c => { c with suite := some (changeSuite (c.suite.getD blankSuite) xs) }

def change (c : Config σ) (xs : List (Setting σ)) : Config σ := xs.foldl (fun c x => x.change c) c

variable [DecidableEq σ]

/-- Every configuration can be written, and reading what was written sets the keys that were written
to the values written, on top of whatever was there. -/
def Codec.Faithful (codec : Codec σ) : Prop :=
  ∀ c : Config σ, c.Fits → ∃ bytes, codec.marshal c = some bytes ∧
    ∀ old, codec.unmarshal bytes old = some (old.change c.settings)

theorem changeSuite_settings (s : SuiteSource σ) : changeSuite blankSuite (suiteSettings s) = s := by
  obtain ⟨url, ref, dir⟩ := s
  by_cases href : ref = spell "" <;> by_cases hdir : dir = spell "" <;>
    simp [changeSuite, suiteSettings, unlessEmpty, SuiteSetting.change, blankSuite, href, hdir]

/-- The settings of a configuration make it out of the defaults. -/
theorem change_settings (c : Config σ) : change default c.settings = c := by
  obtain ⟨tests, verbose, depth, suite⟩ := c
  cases suite with
  | none => rfl
  | some s =>
    have hsuite := changeSuite_settings s
    simp [change, settings, Setting.change, default, hsuite]

end

-- ---------------------------------------------------------------------------
-- Fields
-- ---------------------------------------------------------------------------

def knownKeys : List String := ["tests", "verbose", "max_call_depth", "suite", "url", "ref", "dir"]

theorem isKey_of_known (h : key ∈ knownKeys) : Lexer.IsKey key.toList := by
  have hchars : knownKeys.all (fun key => key.toList.all isWordChar) = true := by decide
  have hfront : ∀ key ∈ knownKeys, key.toList ≠ [] ∧ key.toList.head? ≠ some '-' := by decide
  have hshort : ∀ key ∈ knownKeys, key.toList.length ≤ 1024 := by decide
  obtain ⟨hne, hdash⟩ := hfront key h
  obtain ⟨c, rest, hcs⟩ := List.exists_cons_of_ne_nil hne
  refine ⟨List.all_eq_true.mp (List.all_eq_true.mp hchars key h), ⟨c, rest, hcs, ?_⟩, hshort key h⟩
  rintro rfl
  exact hdash (by rw [hcs]; rfl)

theorem namesFields_of_sublist (h : (fs.map Field.key).Sublist knownKeys) : NamesFields fs := by
  have htexts : ∀ key ∈ knownKeys, (Yaml.scalar "" true key).asText? = some key := by decide
  have hmerge : ∀ key ∈ knownKeys, key ≠ "<<" := by decide
  have hknown (f) (hf : f ∈ fs) : f.key ∈ knownKeys := h.subset (List.mem_map_of_mem hf)
  exact ⟨fun f hf => htexts _ (hknown f hf), fun f hf => hmerge _ (hknown f hf),
    h.nodup (by decide)⟩

theorem properFields_of_forall (h : ∀ f ∈ fs, f.Proper) : ProperFields fs := by
  induction fs with
  | nil => trivial
  | cons f fs ih =>
    rw [List.forall_mem_cons] at h
    exact ⟨h.1, ih h.2⟩

/-- Fields whose values are read as the changes they stand for make these changes. -/
theorem applyChanges_fields {set : String → Yaml → α → Option α} {field : β → Field}
    {make : β → α → α} (empty : α) (xs : List β)
    (h : ∀ x ∈ xs, ∀ a, set (field x).key (field x).entry.2 a = some (make x a)) (a : α) :
    applyChanges empty set a ((xs.map field).map fun f => .set f.key f.entry.2) =
      some (xs.foldl (fun a x => make x a) a) := by
  induction xs generalizing a with
  | nil => rfl
  | cons x xs ih =>
    rw [List.forall_mem_cons] at h
    simp only [List.map_cons, applyChanges, h.1, Option.bind_eq_bind, Option.bind_some,
      List.foldl_cons]
    exact ih h.2 _

theorem changes?_fields (d : Document) (h : NamesFields fs) :
    d.changes? (.mapping (fieldEntries fs)) = some (fs.map fun f => .set f.key f.entry.2) :=
  entryChanges?_fields _ h (by simp)

-- ---------------------------------------------------------------------------
-- Documents
-- ---------------------------------------------------------------------------

theorem keys_suite (s : SuiteSource) :
    (((suiteSettings s).map SuiteSetting.field).map Field.key).Sublist ["url", "ref", "dir"] := by
  by_cases href : s.ref = "" <;> by_cases hdir : s.dir = "" <;>
    simp [suiteSettings, unlessEmpty, href, hdir, SuiteSetting.field, Field.key]

theorem properFields_suite (s : SuiteSource) :
    ProperFields ((suiteSettings s).map SuiteSetting.field) := by
  refine properFields_of_forall fun f hf => ?_
  obtain ⟨x, -, rfl⟩ := List.mem_map.mp hf
  cases x <;> exact isKey_of_known (by decide)

theorem setSuiteField_written (x : SuiteSetting String) (s : SuiteSource) :
    setSuiteField x.field.key x.field.entry.2 s = some (x.change s) := by
  cases x <;> simp [SuiteSetting.field, Field.key, Field.entry, setSuiteField, asText?_written,
    SuiteSetting.change]

/-- The fields of a suite are set on top of the suite that is there. -/
theorem readSuite_written (d : Document) (s : SuiteSource) (old : Option SuiteSource) :
    readSuite d old (.mapping (fieldEntries ((suiteSettings s).map SuiteSetting.field))) =
      some (some (changeSuite (old.getD blankSuite) (suiteSettings s))) := by
  have hnames : NamesFields ((suiteSettings s).map SuiteSetting.field) :=
    namesFields_of_sublist ((keys_suite s).trans (by decide))
  have happly := applyChanges_fields blankSuite (suiteSettings s)
    (fun x _ s => setSuiteField_written x s) (old.getD blankSuite)
  simp only [readSuite, changes?_fields d hnames, Option.bind_eq_bind, Option.bind_some, happly]
  rfl

variable {c : Config}

theorem keys_settings (c : Config) : ((c.settings.map Setting.field).map Field.key).Sublist
    ["tests", "verbose", "max_call_depth", "suite"] := by
  rw [settings]
  cases c.suite <;> simp [Setting.field, Field.key]

theorem isWord_boolean (b : Bool) : IsWord (if b then "true" else "false").toList := by
  have hchars : ["true", "false"].all (fun word => word.toList.all isWordChar) = true := by decide
  have hword (word) (h : word ∈ ["true", "false"]) :=
    List.all_eq_true.mp (List.all_eq_true.mp hchars word h)
  cases b with
  | false => exact ⟨hword "false" (by decide), plainFront_word (by decide) (by decide)⟩
  | true => exact ⟨hword "true" (by decide), plainFront_word (by decide) (by decide)⟩

/-- The settings of a configuration, with the suite as it is written. -/
theorem settings_cases (hc : c.Fits) (hx : x ∈ c.settings) :
    (∃ value, x = .tests value) ∨ (∃ value, x = .verbose value) ∨
    (∃ value : Int, x = .maxCallDepth value ∧ -(bound64 : Int) ≤ value ∧ value < bound64) ∨
    ∃ s, x = .suite (suiteSettings s) := by
  simp only [settings, List.cons_append, List.nil_append, List.mem_cons] at hx
  rcases hx with rfl | rfl | rfl | hx
  · exact .inl ⟨_, rfl⟩
  · exact .inr (.inl ⟨_, rfl⟩)
  · exact .inr (.inr (.inl ⟨_, rfl, hc⟩))
  · split at hx
    · cases hx
    next s _ => exact .inr (.inr (.inr ⟨s, List.mem_singleton.mp hx⟩))

theorem properFields_settings (hc : c.Fits) : ProperFields (c.settings.map Setting.field) := by
  refine properFields_of_forall fun f hf => ?_
  obtain ⟨x, hx, rfl⟩ := List.mem_map.mp hf
  obtain ⟨_, rfl⟩ | ⟨_, rfl⟩ | ⟨_, rfl, _⟩ | ⟨s, rfl⟩ := settings_cases hc hx
  · exact isKey_of_known (by decide)
  · exact ⟨isKey_of_known (by decide), isWord_boolean _⟩
  · exact ⟨isKey_of_known (by decide), isWord_toString _⟩
  · exact ⟨isKey_of_known (by decide), by simp [suiteSettings], properFields_suite s⟩

theorem setField_written (d : Document) (hc : c.Fits) (hx : x ∈ c.settings) (old : Config) :
    setField d x.field.key x.field.entry.2 old = some (x.change old) := by
  obtain ⟨_, rfl⟩ | ⟨b, rfl⟩ | ⟨n, rfl, hn⟩ | ⟨s, rfl⟩ := settings_cases hc hx
  · simp [Setting.field, Field.key, Field.entry, setField, asText?_written, Setting.change]
  · have hboolean :
        (Yaml.scalar "" true (if b then "true" else "false")).asBoolean? = some b := by
      cases b <;> decide
    simp only [Setting.field, Field.key, Field.entry, setField, hboolean, Option.map_some,
      Setting.change]
  · simp only [Setting.field, Field.key, Field.entry, setField, asInteger?_toString hn,
      Option.map_some, Setting.change]
  · simp only [Setting.field, Field.key, Field.entry, setField, readSuite_written,
      Option.map_some, Setting.change]

theorem ofDocument_written (hc : c.Fits) (old : Config) :
    ofDocument ⟨.mapping (fieldEntries (c.settings.map Setting.field)), []⟩ old =
      some (old.change c.settings) := by
  have hnames : NamesFields (c.settings.map Setting.field) :=
    namesFields_of_sublist ((keys_settings c).trans (by decide))
  rw [ofDocument, if_pos (isBounded_fields (properFields_settings hc)), changes?_fields _ hnames]
  exact applyChanges_fields _ _ (fun x hx old => setField_written _ hc hx old) old

theorem yaml_faithful : yaml.Faithful := by
  intro c hc
  refine ⟨_, rfl, fun old => ?_⟩
  have hne : c.settings.map Setting.field ≠ [] := List.cons_ne_nil _ _
  have hread : Yaml.read (bytesOf c.render) =
      some (some ⟨.mapping (fieldEntries (c.settings.map Setting.field)), []⟩) :=
    read_write (properFields_settings hc) hne
  simp only [yaml, hread]
  exact ofDocument_written hc old

-- ---------------------------------------------------------------------------
-- The last checks
-- ---------------------------------------------------------------------------

section

variable [Script σ] [DecidableEq σ] {c c' : Config σ}

structure Checked (c : Config σ) : Prop where
  depth : 0 ≤ c.maxCallDepth
  suiteDir : ∀ s, c.suite = some s → s.dir ≠ spell "" ∨ c.tests = spell ""

theorem withSuiteDir_eq (c : Config σ) :
    c.withSuiteDir = { c with
      suite := c.suite.map fun s => if s.dir = spell "" then { s with dir := c.tests } else s } := by
  obtain ⟨tests, verbose, depth, suite⟩ := c
  cases suite with
  | none => rfl
  | some s => by_cases hdir : s.dir = spell "" <;> simp [withSuiteDir, hdir]

theorem validate_negative (h : c.maxCallDepth < 0) : c.validate = .error .negativeDepth := if_pos h

theorem validate_natural (h : 0 ≤ c.maxCallDepth) : c.validate = .ok c.withSuiteDir :=
  if_neg (Int.not_lt.mpr h)

theorem checked_withSuiteDir (h : 0 ≤ c.maxCallDepth) : c.withSuiteDir.Checked := by
  rw [withSuiteDir_eq]
  refine ⟨h, fun s hs => ?_⟩
  rw [Option.map_eq_some_iff] at hs
  obtain ⟨s', -, rfl⟩ := hs
  split
  · exact or_comm.mp (em _)
  next hdir => exact .inl hdir

theorem checked_of_validate (h : c.validate = .ok c') : c'.Checked := by
  rcases Int.lt_or_le c.maxCallDepth 0 with hneg | hnat
  · rw [validate_negative hneg] at h
    cases h
  · rw [validate_natural hnat] at h
    cases h
    exact checked_withSuiteDir hnat

/-- The last checks keep what passed them. -/
theorem Checked.validate_eq (h : c.Checked) : c.validate = .ok c := by
  rw [validate_natural h.depth, withSuiteDir]
  split
  next s hs =>
    split
    next hdir =>
      have htests : c.tests = spell "" := (h.suiteDir s hs).resolve_left (absurd hdir)
      obtain ⟨tests, verbose, depth, suite⟩ := c
      obtain ⟨url, ref, dir⟩ := s
      simp_all
    · rfl
  · rfl

-- ---------------------------------------------------------------------------
-- Files
-- ---------------------------------------------------------------------------

variable {codec : Codec σ}

theorem checked_of_load (h : codec.load t path = .ok c) : c.Checked := by
  have hdefault : (default : Config σ).Checked := ⟨Int.le_refl 0, by simp [default]⟩
  unfold Codec.load at h
  split at h
  · cases h
    exact hdefault
  · cases h
  · split at h
    · cases h
    · exact checked_of_validate h

/-- Where a path can be written to, every configuration is stored, and it comes back checked. -/
theorem store_load (hcodec : codec.Faithful) (hpath : t.Writable path) (hc : c.Fits) :
    ∃ t', codec.store t path c = .ok t' ∧ codec.load t' path = c.validate ∧ t'.Writable path := by
  obtain ⟨bytes, hmarshal, hunmarshal⟩ := hcodec c hc
  obtain ⟨t', hwrite⟩ := (FileTree.writable_iff bytes).mp hpath
  refine ⟨t', ?_, ?_, FileTree.writable_of_write hwrite⟩
  · rw [Codec.store, hmarshal]
    simp only [hwrite]
    rfl
  · rw [Codec.load, FileTree.read_of_write hwrite]
    simp only [hunmarshal, change_settings]

/-- A configuration survives a store and a load, however it is written down, if only that is
faithful. A negative depth is refused then; otherwise every field comes back as it was, but a suite
without a directory has the one of the tests, and what came back survives as it is. Whatever is
loaded passes the last checks. -/
theorem store_load_round_trip (hcodec : codec.Faithful) (t : FileTree) (path : String) :
    (t.Writable path → ∀ c : Config σ, -(bound64 : Int) ≤ c.maxCallDepth →
      c.maxCallDepth < bound64 → ∃ t', codec.store t path c = .ok t' ∧
        (c.maxCallDepth < 0 → codec.load t' path = .error .negativeDepth) ∧
        (0 ≤ c.maxCallDepth → ∃ loaded, codec.load t' path = .ok loaded ∧
          loaded = { c with
            suite := c.suite.map fun s =>
              if s.dir = spell "" then { s with dir := c.tests } else s } ∧
          t'.Writable path ∧
          ∀ t₁ path₁, t₁.Writable path₁ →
            ∃ t₂, codec.store t₁ path₁ loaded = .ok t₂ ∧ codec.load t₂ path₁ = .ok loaded)) ∧
    ∀ c, codec.load t path = .ok c →
      0 ≤ c.maxCallDepth ∧ ∀ s, c.suite = some s → s.dir ≠ spell "" ∨ c.tests = spell "" := by
  constructor
  · intro hpath c hlow hhigh
    obtain ⟨t', hstore, hload, hagain⟩ := store_load hcodec hpath ⟨hlow, hhigh⟩
    refine ⟨t', hstore, ?_, ?_⟩
    · intro hneg
      rw [hload, validate_negative hneg]
    · intro hnat
      rw [validate_natural hnat] at hload
      refine ⟨c.withSuiteDir, hload, withSuiteDir_eq c, hagain, ?_⟩
      intro t₁ path₁ hpath₁
      have hdepth : c.withSuiteDir.maxCallDepth = c.maxCallDepth := by rw [withSuiteDir_eq]
      have hfits : c.withSuiteDir.Fits := ⟨hdepth ▸ hlow, hdepth ▸ hhigh⟩
      obtain ⟨t₂, hstore₂, hload₂, -⟩ := store_load hcodec hpath₁ hfits
      rw [(checked_withSuiteDir hnat).validate_eq] at hload₂
      exact ⟨t₂, hstore₂, hload₂⟩
  · intro c hload
    have hchecked := checked_of_load hload
    exact ⟨hchecked.depth, hchecked.suiteDir⟩

end

/-- Tests in a directory that reads like a boolean, and a suite with no field set, in YAML. -/
theorem store_load_round_trip_yes :
    yaml.Faithful ∧
    ∃ t', store ⟨.directory [], []⟩ fileName ⟨"yes", false, 3, some blankSuite⟩ = .ok t' ∧
      load t' fileName = .ok ⟨"yes", false, 3, some ⟨"", "", "yes"⟩⟩ := by
  have hpath : FileTree.Writable ⟨.directory [], []⟩ fileName := ⟨_, rfl⟩
  obtain ⟨t', hstore, -, hnatural⟩ := (store_load_round_trip yaml_faithful _ _).1 hpath
    ⟨"yes", false, 3, some blankSuite⟩ (by decide) (by decide)
  obtain ⟨loaded, hload, hloaded, -⟩ := hnatural (by decide)
  exact ⟨yaml_faithful, t', hstore, hload.trans (congrArg _ hloaded)⟩

end SplatLang.Config
