import Mathlib
import SplatLang.Proofs.Conformance.Directory
import SplatLang.Proofs.Interpreter.Files
import SplatLang.Proofs.Parser.Progress
import SplatLang.Proofs.Run.Sinks

/-!
# The accounts of a report

A run into an endless sink that ends fails with a fault only, whatever the source. So a case comes
to one of the outcomes that it can ask for, and it either passes, or raises a fault that it did not
ask for, or raises none where it should, or writes something else than it should. These exclude
each other, and the counts of a report add up.
-/

namespace SplatLang

-- ---------------------------------------------------------------------------
-- Failures are faults
-- ---------------------------------------------------------------------------

namespace Interpreter

variable {src : Source} {opts : Options} {e : Failure}

/-- If the source has a program, the program ends. -/
def Ends (src : Source) (opts : Options) : Prop :=
  ∀ p, (check src opts).result = .ok p →
    (Run.program opts.maxCallDepth opts.allowance p {}).1 ≠ .exhausted

theorem parse_fails_by_fault (h : (parse src opts).result = .error e) :
    ∃ f, e.fault? = some f := by
  rcases parse_error.mp h with h | ⟨ts, hts, hparse⟩
  · obtain ⟨f, -, rfl⟩ := tokens_error.mp h
    exact ⟨_, rfl⟩
  · rcases parseTokens_verdict fun t ht => (tokenize_genuine hts t ht).value_ne with
      ⟨p, rest, hok⟩ | ⟨f, rest, hfault⟩
    · rw [hok] at hparse
      cases hparse
    · rw [hfault] at hparse
      cases hparse
      exact ⟨_, rfl⟩

theorem check_fails_by_fault (h : (check src opts).result = .error e) :
    ∃ f, e.fault? = some f := by
  rcases check_error.mp h with h | ⟨p, f, -, -, rfl⟩
  · exact parse_fails_by_fault h
  · exact ⟨_, rfl⟩

/-- A run that ends fails with a fault of the source, if its sink takes everything. -/
theorem run_fails_by_fault (hends : Ends src opts)
    (h : (run src .endless opts).failure = some e) : ∃ f, e.fault? = some f := by
  rcases run_failure.mp h with h | ⟨p, hp, hrun⟩
  · exact check_fails_by_fault h
  · have hend := hends p hp
    obtain ⟨ending, m, hm, ⟨f, rfl, rfl⟩ | ⟨-, ⟨reason, rfl⟩ | rfl⟩⟩ := execute_failure hrun
    · exact ⟨_, rfl⟩
    · rw [hm] at hend
      exact absurd rfl (Run.not_refused rfl ⟨hend, _, hm⟩)
    · exact absurd (congrArg Prod.fst hm) hend

theorem ends_of_failure
    (h : (run src .endless opts).failure ≠ some (.other "the run was given up")) :
    Ends src opts := by
  intro p hp hexhausted
  refine h (run_failure.mpr (.inr ⟨p, hp, ?_⟩))
  simp only [execute, executeOn]
  rw [hexhausted]
  rfl

end Interpreter

-- ---------------------------------------------------------------------------
-- Outcomes
-- ---------------------------------------------------------------------------

namespace Outcome

theorem mem_all_iff : o ∈ all ↔ o ≠ .internal := by
  cases o with
  | internal => decide
  | raised p => cases p <;> decide
  | success => decide

theorem number_of_mem (h : o ∈ all) : 1 ≤ o.number ∧ o.number ≤ 5 := by
  have hall : ∀ o ∈ all, 1 ≤ o.number ∧ o.number ≤ 5 := by decide
  exact hall o h

theorem expected_mem (h : expected file = .ok o) : o ∈ all := by
  unfold expected at h
  split at h
  next hfind =>
    cases h
    exact List.mem_of_find?_eq_some hfind
  · cases h

theorem ofFailure_mem {failure : Option Failure}
    (h : ∀ e, failure = some e → ∃ f, e.fault? = some f) : ofFailure failure ∈ all := by
  rw [mem_all_iff]
  cases failure with
  | none => simp [ofFailure]
  | some e =>
    obtain ⟨f, hf⟩ := h e rfl
    simp [ofFailure, Failure.phase?, hf]

end Outcome

-- ---------------------------------------------------------------------------
-- Single cases
-- ---------------------------------------------------------------------------

namespace Conformance

open FileTree Text

variable {t : FileTree} {r : CaseResult}

def endedWell (r : CaseResult) : Bool := r.expected ≠ .success && r.actual = .success

/-- The case ended well as it should, but its output is not what is expected, or that cannot be
read. -/
def wroteWrong (t : FileTree) (r : CaseResult) : Bool :=
  r.expected = .success && r.actual = .success &&
    match t.read (outputPath r.path) with
    | .error _ => true
    | .ok want => dropReturns want ≠ dropReturns (bytesOf r.output)

structure Judged (t : FileTree) (r : CaseResult) : Prop where
  expected : r.expected ∈ Outcome.all
  actual : r.actual ∈ Outcome.all
  passed : r.passed = (decide (r.actual = r.expected) && !wroteWrong t r)

theorem judge_passed (r : CaseResult) :
    (judge t r.path r.expected r.actual r.output).1 =
      (decide (r.actual = r.expected) && !wroteWrong t r) := by
  unfold judge
  split
  next hexpected =>
    rw [wroteWrong, decide_eq_false hexpected]
    split <;> simp_all
  next hexpected =>
    rw [not_not] at hexpected
    rw [hexpected]
    split
    next hactual => simp [hactual]
    next hactual =>
      rw [not_not] at hactual
      simp only [wroteWrong, compareOutput, hactual, hexpected]
      cases t.read (outputPath r.path) with
      | error e => simp
      | ok want =>
        by_cases hsame : dropReturns want = dropReturns (bytesOf r.output) <;> simp [hsame]

theorem Judged.falseThrow (h : Judged t r) (hpassed : r.passed = true) : r.falseThrow = none := by
  rw [h.passed, Bool.and_eq_true, decide_eq_true_eq] at hpassed
  rw [CaseResult.falseThrow, if_pos hpassed.1]

/-- The run of a case by the name of its file, as far as that can be read. -/
def caseRun (dir : String) (opts : Options) (name : String) (content : Bytes)
    (failure : Option FileError) : RunReport :=
  Interpreter.run (sourceOf (Path.join dir name) (content, failure)) .endless
    { opts with file := name }

/-- The result tells what comes of running the entry. -/
structure Reports (t : FileTree) (dir : String) (opts : Options) (e : String × Node)
    (r : CaseResult) : Prop where
  path : r.path = Path.join dir e.1
  expected : Outcome.expected e.1 = .ok r.expected
  actual : r.actual = Outcome.ofFailure r.failure
  passed : r.passed = (judge t r.path r.expected r.actual r.output).1
  ran : ∃ content failure, e.2 = .file content failure ∧
    r.failure = (caseRun dir opts e.1 content failure).failure ∧
    r.output = (caseRun dir opts e.1 content failure).output

theorem Reports.judged (h : Reports t dir opts e r)
    (hends : ∀ content failure, e.2 = .file content failure →
      Interpreter.Ends (sourceOf (Path.join dir e.1) (content, failure))
        { opts with file := e.1 }) :
    Judged t r ∧ ∀ x, r.failure = some x → ∃ f, x.fault? = some f := by
  obtain ⟨content, failure, hfile, hfailure, -⟩ := h.ran
  have hfault : ∀ x, r.failure = some x → ∃ f, x.fault? = some f := by
    intro x hx
    rw [hfailure] at hx
    exact Interpreter.run_fails_by_fault (hends content failure hfile) hx
  refine ⟨⟨Outcome.expected_mem h.expected, ?_, ?_⟩, hfault⟩
  · rw [h.actual]
    exact Outcome.ofFailure_mem hfault
  · rw [h.passed, judge_passed]

-- ---------------------------------------------------------------------------
-- The cases of a directory
-- ---------------------------------------------------------------------------

theorem openText_file {failure : Option FileError} (h : t.find path = .ok (.file content failure)) :
    t.openText path = .ok (content, failure) := by
  simp [openText, h, bind, Except.bind]

theorem runCase_reports (hlist : t.list dir = .ok entries) (hproper : ProperEntries entries)
    (he : e ∈ caseEntries entries)
    (h : (runCase t (Path.join dir e.1) { opts with file := "" }).result = .ok r) :
    Reports t dir opts e r := by
  obtain ⟨name, node⟩ := e
  obtain ⟨hmem, hcase⟩ := List.mem_filter.mp he
  cases node with
  | directory es => simp [Node.isDirectory] at hcase
  | file content failure =>
    have hopen := openText_file (find_join hlist hproper hmem)
    have hbase := Path.base_join (list_ok hlist).1 (hproper.names _ hmem)
    unfold runCase at h
    rw [hbase, hopen] at h
    cases hexpected : Outcome.expected name with
    | error x =>
      rw [hexpected] at h
      cases h
    | ok expected =>
      rw [hexpected] at h
      cases h
      exact ⟨rfl, hexpected, rfl, rfl, content, failure, rfl, rfl, rfl⟩

theorem runCases_results (h : (runCases t opts verbose done paths).results = .ok results) :
    ∃ more, results = done.reverse ++ more ∧
      List.Forall₂ (fun path r => (runCase t path { opts with file := "" }).result = .ok r)
        paths more := by
  induction paths generalizing done with
  | nil =>
    cases h
    exact ⟨[], by simp, .nil⟩
  | cons path paths ih =>
    rw [runCases] at h
    cases hcase : runCase t path { opts with file := "" } with
    | mk trace result =>
      rw [hcase] at h
      cases result with
      | error e => cases h
      | ok r =>
        obtain ⟨more, hmore, hruns⟩ := ih h
        refine ⟨r :: more, by simp [hmore], .cons ?_ hruns⟩
        rw [hcase]

-- ---------------------------------------------------------------------------
-- Counting
-- ---------------------------------------------------------------------------

theorem sum_indicators {α : Type} (tests : List (α → Bool)) (x : α) :
    (tests.map fun p => if p x = true then 1 else 0).sum = tests.countP (· x) := by
  induction tests with
  | nil => rfl
  | cons p tests ih => rw [List.map_cons, List.sum_cons, ih, List.countP_cons, Nat.add_comm]

/-- If every element meets just one of the tests, the counts add up to the number of elements. -/
theorem sum_countP {α : Type} (xs : List α) (tests : List (α → Bool))
    (h : ∀ x ∈ xs, tests.countP (· x) = 1) : (tests.map fun p => xs.countP p).sum = xs.length := by
  induction xs with
  | nil => simp
  | cons x xs ih =>
    rw [List.forall_mem_cons] at h
    simp only [List.countP_cons, List.sum_map_add, sum_indicators, List.length_cons, ih h.2, h.1]

theorem sum_asked {results : List CaseResult} (h : ∀ r ∈ results, r.expected ∈ Outcome.all) :
    (Outcome.all.map fun o => results.countP (·.expected = o)).sum = results.length := by
  have hone : ∀ o ∈ Outcome.all, Outcome.all.countP (fun o' => decide (o = o')) = 1 := by decide
  have hsum := sum_countP results (Outcome.all.map fun o r => decide (r.expected = o))
    fun r hr => by simpa [List.countP_map, Function.comp_def] using hone _ (h r hr)
  rwa [List.map_map] at hsum

theorem tally_totals {results : List CaseResult} (h : ∀ r ∈ results, r.expected ∈ Outcome.all) :
    (Outcome.all.map fun o => (tally results o).2).sum = results.length ∧
      (Outcome.all.map fun o => (tally results o).1).sum = passedCount results := by
  refine ⟨?_, ?_⟩
  · simpa only [tally, ← List.countP_eq_length_filter] using sum_asked h
  · -- Counting the passed among the asked is counting the asked among the passed.
    have hswap : ∀ o, (tally results o).1 =
        (results.filter (·.passed)).countP (·.expected = o) := by
      intro o
      simp only [tally, passedCount, List.countP_filter, Bool.and_comm]
    simp only [hswap]
    rw [sum_asked fun r hr => h r (List.mem_of_mem_filter hr), passedCount,
      List.countP_eq_length_filter]

/-- The ways for a case to end, each of which is counted by itself. -/
def accounts (t : FileTree) : List (CaseResult → Bool) :=
  [(·.passed), (·.falseThrow = some .lex), (·.falseThrow = some .parse),
   (·.falseThrow = some .semantic), (·.falseThrow = some .execution), endedWell, wroteWrong t]

theorem Judged.accounted (h : Judged t r) : (accounts t).countP (· r) = 1 := by
  have hpassed := h.passed
  by_cases hsame : r.actual = r.expected
  · -- It passes unless its output is wrong.
    have hthrow : r.falseThrow = none := by rw [CaseResult.falseThrow, if_pos hsame]
    have hwell : endedWell r = false := by simp [endedWell, hsame]
    cases hwrong : wroteWrong t r <;> simp [accounts, hpassed, hsame, hthrow, hwell, hwrong]
  · have hwrong : wroteWrong t r = false := by
      rw [wroteWrong, Bool.and_eq_false_iff]
      refine .inl ?_
      by_cases hexpected : r.expected = .success
      · simp [hexpected, hexpected ▸ hsame]
      · simp [hexpected]
    cases hactual : r.actual with
    | internal => exact absurd hactual (Outcome.mem_all_iff.mp h.actual)
    | success =>
      have hne : r.expected ≠ .success := fun hexpected => hsame (hactual.trans hexpected.symm)
      have hthrow : r.falseThrow = none := by rw [CaseResult.falseThrow, if_neg hsame, hactual]
      have hwell : endedWell r = true := by simp [endedWell, hactual, hne]
      simp [accounts, hpassed, hsame, hthrow, hwell, hwrong]
    | raised p =>
      have hthrow : r.falseThrow = some p := by rw [CaseResult.falseThrow, if_neg hsame, hactual]
      have hwell : endedWell r = false := by simp [endedWell, hactual]
      cases p <;> simp [accounts, hpassed, hsame, hthrow, hwell, hwrong]

theorem balance {results : List CaseResult} (h : ∀ r ∈ results, Judged t r) :
    passedCount results + (falseThrows results .lex + falseThrows results .parse +
      falseThrows results .semantic + falseThrows results .execution) +
      results.countP endedWell + results.countP (wroteWrong t) = results.length := by
  have hsum := sum_countP results (accounts t) fun r hr => (h r hr).accounted
  simp only [accounts, List.map_cons, List.map_nil, List.sum_cons, List.sum_nil] at hsum
  simp only [passedCount, falseThrows]
  omega

-- ---------------------------------------------------------------------------
-- Reports
-- ---------------------------------------------------------------------------

theorem run_ok (h : (run t dir opts verbose).results = .ok results) :
    ∃ paths, discover t dir = .ok paths ∧
      List.Forall₂ (fun path r => (runCase t path { opts with file := "" }).result = .ok r)
        paths results := by
  unfold run at h
  cases hpaths : discover t dir with
  | error e =>
    rw [hpaths] at h
    cases h
  | ok paths =>
    rw [hpaths] at h
    obtain ⟨more, rfl, hruns⟩ := runCases_results h
    exact ⟨paths, rfl, hruns⟩

theorem reports_paths (h : List.Forall₂ (Reports t dir opts) es results) :
    (results.map fun r => bytesOf r.path) = es.map fun e => bytesOf (Path.join dir e.1) := by
  induction h with
  | nil => rfl
  | cons hr _ ih => rw [List.map_cons, List.map_cons, hr.path, ih]

theorem reports_judged (h : List.Forall₂ (Reports t dir opts) es results)
    (hends : ∀ e ∈ es, ∀ content failure, e.2 = .file content failure →
      Interpreter.Ends (sourceOf (Path.join dir e.1) (content, failure))
        { opts with file := e.1 }) :
    ∀ r ∈ results, Judged t r ∧ ∀ x, r.failure = some x → ∃ f, x.fault? = some f := by
  induction h with
  | nil => simp
  | cons hr _ ih =>
    rw [List.forall_mem_cons] at hends
    exact List.forall_mem_cons.mpr ⟨hr.judged hends.1, ih hends.2⟩

theorem run_reports (h : (run t dir opts verbose).results = .ok results)
    (hproper : ∀ entries, t.list dir = .ok entries → ProperEntries entries) :
    ∃ entries, ∃ es : List (String × Node), t.list dir = .ok entries ∧
      es.Perm (caseEntries entries) ∧ List.Forall₂ (Reports t dir opts) es results ∧
      (results.map fun r => bytesOf r.path).Pairwise (· < ·) := by
  obtain ⟨paths, hpaths, hruns⟩ := run_ok h
  obtain ⟨entries, es, hlist, hperm, rfl, hsorted⟩ := discover_ok hpaths
  have hentries := hproper entries hlist
  have hreports : List.Forall₂ (Reports t dir opts) es results := by
    rw [List.forall₂_map_left_iff] at hruns
    have hcases : ∀ e ∈ es, e ∈ caseEntries entries := fun e he => hperm.mem_iff.mp he
    exact ((List.forall₂_and_left es results).mpr ⟨hcases, hruns⟩).imp
      fun e r hr => runCase_reports hlist hentries hr.1 hr.2
  refine ⟨entries, es, hlist, hperm, hreports, ?_⟩
  rw [reports_paths hreports]
  exact discover_increasing (list_ok hlist).1 hentries hperm hsorted

/-- The accounts of a report, if all its cases end. There is one result for each case of the
directory, in the order of the bytes of their paths. No case ends with an internal error, the
tallies add up, and every case that did not pass is counted just once: as a false throw, as one
that ended well where it should not, or as one with a wrong output. -/
theorem report_accounts (t : FileTree) (dir : String) (opts : Options) (verbose : Bool)
    (results : List CaseResult) (hrun : (run t dir opts verbose).results = .ok results)
    (hproper : ∀ entries, t.list dir = .ok entries → ProperEntries entries)
    (hends : ∀ entries, t.list dir = .ok entries → ∀ name content failure,
      (name, .file content failure) ∈ caseEntries entries →
        Interpreter.Ends (sourceOf (Path.join dir name) (content, failure))
          { opts with file := name }) :
    (∃ entries, ∃ es : List (String × Node), t.list dir = .ok entries ∧
      es.Perm (caseEntries entries) ∧ List.Forall₂ (Reports t dir opts) es results) ∧
    (results.map fun r => bytesOf r.path).Pairwise (· < ·) ∧
    (∀ r ∈ results, (1 ≤ r.expected.number ∧ r.expected.number ≤ 5) ∧
      (1 ≤ r.actual.number ∧ r.actual.number ≤ 5) ∧
      (∀ e, r.failure = some e → ∃ f, e.fault? = some f) ∧
      (r.passed = true → r.falseThrow = none)) ∧
    (∀ src opts' e, Interpreter.Ends src opts' →
      (Interpreter.run src .endless opts').failure = some e → ∃ f, e.fault? = some f) ∧
    (Outcome.all.map fun o => (tally results o).2).sum = results.length ∧
    (Outcome.all.map fun o => (tally results o).1).sum = passedCount results ∧
    passedCount results + (falseThrows results .lex + falseThrows results .parse +
      falseThrows results .semantic + falseThrows results .execution) +
      results.countP endedWell + results.countP (wroteWrong t) = results.length := by
  obtain ⟨entries, es, hlist, hperm, hreports, horder⟩ := run_reports hrun hproper
  have hjudged := reports_judged hreports fun e he content failure hfile =>
    hends entries hlist e.1 content failure (hfile ▸ hperm.mem_iff.mp he)
  have hall : ∀ r ∈ results, r.expected ∈ Outcome.all := fun r hr => (hjudged r hr).1.expected
  refine ⟨⟨entries, es, hlist, hperm, hreports⟩, horder, fun r hr => ?_,
    fun _ _ _ => Interpreter.run_fails_by_fault, (tally_totals hall).1, (tally_totals hall).2,
    balance fun r hr => (hjudged r hr).1⟩
  obtain ⟨hr, hfault⟩ := hjudged r hr
  exact ⟨Outcome.number_of_mem hr.expected, Outcome.number_of_mem hr.actual, hfault, hr.falseThrow⟩

/-- Four cases: one passes, one raises no fault where it should, one a fault of another phase, and
one cannot be read to its end, which counts as a fault of its lexing. -/
def smallSuite : List (String × Node) :=
  [("a_goodexecution.out", .file (bytesOf "1\r")),
   ("a_goodexecution.splat", .file (bytesOf "program begin print 1; end;")),
   ("b_badlex.splat", .file (bytesOf "program begin end;")),
   ("c_badparse.splat", .file (bytesOf "?")), ("d.splat", .directory []),
   ("e_badlex.splat", .file (bytesOf "program begin\nend;") (some (.device "i/o error")))]

def smallTree : FileTree := ⟨.directory smallSuite, []⟩

theorem smallSuite_proper : ProperEntries smallSuite := by
  refine ⟨?_, by decide +kernel⟩
  have hnames : ∀ name ∈ smallSuite.map Prod.fst,
      (name ≠ "" ∧ '/' ∉ name.toList) ∧ name ≠ "." ∧ name ≠ ".." := by decide +kernel
  intro e he
  obtain ⟨⟨hne, hslash⟩, hhere, habove⟩ := hnames e.1 (List.mem_map_of_mem he)
  exact ⟨⟨hne, hslash⟩, hhere, habove⟩

def endsEntry (e : String × Node) : Bool :=
  match e.2 with
  | .file content failure =>
    (caseRun "." {} e.1 content failure).failure ≠ some (.other "the run was given up")
  | .directory _ => true

theorem smallSuite_ends {failure : Option FileError}
    (h : (name, .file content failure) ∈ caseEntries smallSuite) :
    Interpreter.Ends (sourceOf (Path.join "." name) (content, failure)) { file := name } := by
  have hall : (caseEntries smallSuite).all endsEntry = true := by decide +kernel
  have hentry := List.all_eq_true.mp hall _ h
  exact Interpreter.ends_of_failure (of_decide_eq_true hentry)

theorem smallSuite_discover :
    discover smallTree "." =
      .ok ["a_goodexecution.splat", "b_badlex.splat", "c_badparse.splat", "e_badlex.splat"] := by
  have hlist : smallTree.list "." = .ok smallSuite := by rfl
  have hpaths : ((smallSuite.filter fun e => !e.2.isDirectory && hasSuffix e.1 ".splat").map
      Prod.fst).map (Path.join ".") =
        ["a_goodexecution.splat", "b_badlex.splat", "c_badparse.splat", "e_badlex.splat"] := by
    decide +kernel
  unfold discover
  rw [hlist]
  simp only [bind, Except.bind, hpaths]
  rw [List.mergeSort_of_pairwise]
  decide +kernel

theorem report_accounts_smallSuite :
    ∃ results, (run smallTree "." {} false).results = .ok results ∧
      results.length = 4 ∧ passedCount results = 2 ∧ falseThrows results .lex = 1 ∧
      results.countP endedWell = 1 ∧
      (Outcome.all.map fun o => (tally results o).2).sum = 4 := by
  have hlist : smallTree.list "." = .ok smallSuite := by rfl
  have hcounts : ((run smallTree "." {} false).results.map fun rs =>
      (rs.length, passedCount rs, falseThrows rs .lex, rs.countP endedWell)).toOption =
        some (4, 2, 1, 1) := by
    rw [run, smallSuite_discover]
    decide +kernel
  cases hrun : (run smallTree "." {} false).results with
  | error e =>
    rw [hrun] at hcounts
    cases hcounts
  | ok results =>
    have haccounts := report_accounts smallTree "." {} false results hrun
      (fun entries hentries => by
        cases hlist.symm.trans hentries
        exact smallSuite_proper)
      (fun entries hentries name content failure hcase => by
        cases hlist.symm.trans hentries
        exact smallSuite_ends hcase)
    simp only [hrun, Except.map, Except.toOption, Option.some.injEq, Prod.mk.injEq] at hcounts
    obtain ⟨hlength, hpassed, hthrows, hwell⟩ := hcounts
    refine ⟨results, rfl, hlength, hpassed, hthrows, hwell, ?_⟩
    rw [haccounts.2.2.2.2.1, hlength]

end Conformance

end SplatLang
