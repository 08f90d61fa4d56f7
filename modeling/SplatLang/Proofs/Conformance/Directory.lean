import Mathlib
import SplatLang.Conformance
import SplatLang.Proofs.Utf8

/-!
# The cases of a directory

A path that is put together from a directory and the name of an entry leads to that entry, and the
name is found again at its end. The path is cleaned on the way. Where the directory can be opened
this changes nothing, since a step down and up again leads back to where it began. So the cases of
a directory are its entries, one by one, and they come in the order of the bytes of their paths.
-/

namespace SplatLang

-- ---------------------------------------------------------------------------
-- Components
-- ---------------------------------------------------------------------------

theorem Text.splitAt_eq_splitOn (sep : Char) (cs : List Char) :
    splitAt sep cs = cs.splitOn sep := by
  induction cs with
  | nil => rfl
  | cons c cs ih =>
    rw [splitAt, ih, List.splitOn_cons_eq_if_modifyHead]
    cases hcs : cs.splitOn sep with
    | nil => exact absurd hcs (List.splitOn_ne_nil sep cs)
    | cons piece pieces => simp

theorem Text.sep_not_mem (h : piece ∈ splitAt sep cs) : sep ∉ piece := by
  induction cs generalizing piece with
  | nil =>
    rw [List.mem_singleton.mp h]
    exact List.not_mem_nil
  | cons c cs ih =>
    rw [splitAt] at h
    split at h
    · rcases List.mem_cons.mp h with rfl | h
      · exact List.not_mem_nil
      · exact ih h
    next hc =>
      cases hcs : splitAt sep cs with
      | nil =>
        rw [hcs] at h
        rw [List.mem_singleton.mp h]
        simpa using Ne.symm hc
      | cons front pieces =>
        rw [hcs] at h ih
        rcases List.mem_cons.mp h with rfl | h
        · simpa using ⟨Ne.symm hc, ih List.mem_cons_self⟩
        · exact ih (List.mem_cons_of_mem _ h)

namespace FileTree

/-- What can stand between the slashes of a path. -/
structure IsComponent (c : String) : Prop where
  nonempty : c ≠ ""
  noSlash : '/' ∉ c.toList

theorem components_slash (path rest : String) :
    components (path ++ "/" ++ rest) = components path ++ components rest := by
  have hsplit : (path ++ "/" ++ rest).toList.splitOn '/' =
      path.toList.splitOn '/' ++ rest.toList.splitOn '/' := by
    rw [String.toList_append, String.toList_append, List.append_assoc]
    simp only [List.splitOn_eq_splitOnP]
    exact List.splitOnP_append_cons _ _ (by decide)
  simp only [components, Text.splitAt_eq_splitOn, hsplit, List.filter_append, List.map_append]

theorem components_self (h : IsComponent c) : components c = [c] := by
  have hne : c.toList ≠ [] := fun hc => h.nonempty (String.toList_eq_nil_iff.mp hc)
  simp [components, Text.splitAt_eq_splitOn, List.splitOn_eq_singleton h.noSlash, hne]

theorem components_intercalate (h : ∀ c ∈ cs, IsComponent c) :
    components ("/".intercalate cs) = cs := by
  match cs with
  | [] => rfl
  | [c] => exact components_self (h c (by simp))
  | c :: d :: cs =>
    rw [List.forall_mem_cons] at h
    rw [String.intercalate_cons_cons, components_slash, components_self h.1,
      components_intercalate h.2, List.singleton_append]

theorem isComponent_of_mem (h : c ∈ components path) : IsComponent c := by
  simp only [components, List.mem_map, List.mem_filter, decide_eq_true_eq] at h
  obtain ⟨cs, ⟨hcs, hne⟩, rfl⟩ := h
  refine ⟨by simpa using hne, ?_⟩
  rw [String.toList_ofList]
  exact Text.sep_not_mem hcs

-- ---------------------------------------------------------------------------
-- Following components
-- ---------------------------------------------------------------------------

theorem follow_append (trail : List (String × Node)) (cs ds : List String) :
    follow trail (cs ++ ds) = (follow trail cs).bind fun mid => follow mid ds := by
  induction cs generalizing trail with
  | nil => cases trail <;> simp [follow, Except.bind]
  | cons c cs ih =>
    rcases trail with _ | ⟨⟨here, node⟩, above⟩
    · rfl
    · cases node with
      | file content failure => rfl
      | directory entries =>
        simp only [List.cons_append, follow]
        split
        · exact ih _
        split
        · exact ih _
        split
        · rfl
        · exact ih _

theorem follow_append_ok (hmid : follow trail cs = .ok mid) :
    follow trail (cs ++ ds) = follow mid ds := by
  rw [follow_append, hmid]
  rfl

theorem follow_append_iff :
    follow trail (cs ++ ds) = .ok last ↔
      ∃ mid, follow trail cs = .ok mid ∧ follow mid ds = .ok last := by
  rw [follow_append]
  cases follow trail cs <;> simp [Except.bind]

/-- A single component leads somewhere from a directory only. -/
theorem follow_one (h : follow trail [c] = .ok last) :
    ∃ here entries above, trail = (here, .directory entries) :: above ∧
      (c = "." ∧ last = trail ∨
        c = ".." ∧ last = (if above = [] then trail else above) ∨
        c ≠ "." ∧ c ≠ ".." ∧
          ∃ child, entries.lookup c = some child ∧ last = (c, child) :: trail) := by
  rcases trail with _ | ⟨⟨here, node⟩, above⟩
  · cases h
  · cases node with
    | file content failure => cases h
    | directory entries =>
      refine ⟨here, entries, above, rfl, ?_⟩
      simp only [follow] at h
      split at h
      next hdot =>
        cases h
        exact .inl ⟨hdot, rfl⟩
      next hdot =>
      split at h
      next hup =>
        refine .inr (.inl ⟨hup, ?_⟩)
        split at h <;> cases h <;> simp_all
      next hup =>
        cases hchild : entries.lookup c with
        | none =>
          rw [hchild] at h
          cases h
        | some child =>
          rw [hchild] at h
          cases h
          exact .inr (.inr ⟨hdot, hup, child, rfl, rfl⟩)

end FileTree

namespace Path

open FileTree

variable {rooted : Bool} {origin trail : List (String × Node)}

theorem step_name (hdot : c ≠ ".") (hup : c ≠ "..") : step rooted done c = c :: done := by
  simp [step, hdot, hup]

/-- A step up undoes the step down before it. -/
theorem follow_up (hdone : follow origin (last :: done).reverse = .ok mid) (hdot : last ≠ ".")
    (hup : last ≠ "..") (h : follow mid [".."] = .ok trail) :
    follow origin done.reverse = .ok trail := by
  rw [List.reverse_cons] at hdone
  obtain ⟨before, hbefore, hlast⟩ := follow_append_iff.mp hdone
  obtain ⟨here, entries, above, rfl, ⟨rfl, -⟩ | ⟨rfl, -⟩ | ⟨-, -, child, -, rfl⟩⟩ :=
    follow_one hlast
  · exact absurd rfl hdot
  · exact absurd rfl hup
  · obtain ⟨here', entries', above', heq, ⟨hd, -⟩ | ⟨-, rfl⟩ | ⟨-, hu, -⟩⟩ := follow_one h
    · exact absurd hd (by decide)
    · cases heq
      simpa using hbefore
    · exact absurd rfl hu

/-- A cleaned path leads to where the path leads. If it starts at the root, nothing is above the
start. -/
theorem follow_clean (hroot : rooted = true → ∃ place, origin = [place])
    (h : follow origin cs = .ok trail) :
    follow origin (cs.foldl (step rooted) []).reverse = .ok trail ∧
      "." ∉ cs.foldl (step rooted) [] := by
  induction cs using List.reverseRecOn generalizing trail with
  | nil => exact ⟨h, List.not_mem_nil⟩
  | append_singleton cs c ih =>
    obtain ⟨mid, hmid, hlast⟩ := follow_append_iff.mp h
    obtain ⟨hdone, hdot⟩ := ih hmid
    rw [List.foldl_append, List.foldl_cons, List.foldl_nil]
    generalize cs.foldl (step rooted) [] = done at hdone hdot
    have hpush : follow origin (c :: done).reverse = .ok trail := by
      rw [List.reverse_cons, follow_append_ok hdone, hlast]
    obtain ⟨here, entries, above, hplace, ⟨rfl, rfl⟩ | ⟨rfl, htrail⟩ | ⟨hc, hc', -⟩⟩ :=
      follow_one hlast
    · exact ⟨hdone, hdot⟩
    · cases done with
      | nil =>
        cases rooted with
        | false => exact ⟨hpush, by simp [step]⟩
        | true =>
          -- At the root a step up leads nowhere else.
          obtain ⟨place, rfl⟩ := hroot rfl
          cases hdone
          cases hplace
          simp only [if_true] at htrail
          exact ⟨htrail ▸ rfl, List.not_mem_nil⟩
      | cons last rest =>
        rw [List.mem_cons, not_or] at hdot
        by_cases hup : last = ".."
        · have hstep : step rooted (last :: rest) ".." = ".." :: last :: rest := by simp [step, hup]
          rw [hstep]
          exact ⟨hpush, by simpa using hdot⟩
        · have hstep : step rooted (last :: rest) ".." = rest := by simp [step, hup]
          rw [hstep]
          exact ⟨follow_up hdone (Ne.symm hdot.1) hup hlast, hdot.2⟩
    · rw [step_name hc hc']
      exact ⟨hpush, by simpa using ⟨Ne.symm hc, hdot⟩⟩

/-- Cleaning keeps components of the path, or steps up. -/
theorem step_isComponent (hc : IsComponent c) (hdone : ∀ d ∈ done, IsComponent d) :
    ∀ d ∈ step rooted done c, IsComponent d := by
  have hup : IsComponent ".." := ⟨by decide, by decide⟩
  unfold step
  split
  · exact hdone
  split
  · cases done with
    | nil => cases rooted <;> simp [hup]
    | cons last above =>
      simp only
      split
      · exact List.forall_mem_cons.mpr ⟨hup, hdone⟩
      · exact (List.forall_mem_cons.mp hdone).2
  · exact List.forall_mem_cons.mpr ⟨hc, hdone⟩

theorem steps_isComponent {cs : List String} (h : ∀ c ∈ cs, IsComponent c)
    (hdone : ∀ d ∈ done, IsComponent d) : ∀ d ∈ cs.foldl (step rooted) done, IsComponent d := by
  induction cs generalizing done with
  | nil => exact hdone
  | cons c cs ih =>
    rw [List.forall_mem_cons] at h
    exact ih h.2 (step_isComponent h.1 hdone)

end Path

-- ---------------------------------------------------------------------------
-- Entries of a directory
-- ---------------------------------------------------------------------------

structure ProperName (name : String) : Prop extends FileTree.IsComponent name where
  notHere : name ≠ "."
  notAbove : name ≠ ".."

/-- Entries as a directory has them: under proper names, none of them twice. -/
structure ProperEntries (entries : List (String × Node)) : Prop where
  names : ∀ e ∈ entries, ProperName e.1
  distinct : (entries.map Prod.fst).Nodup

namespace Path

open FileTree

variable {dir name : String}

theorem isAbsolute_append (hdir : dir ≠ "") (rest : String) :
    isAbsolute (dir ++ rest) = isAbsolute dir := by
  have hne : dir.toList ≠ [] := fun h => hdir (String.toList_eq_nil_iff.mp h)
  rw [isAbsolute, isAbsolute, String.toList_append, List.head?_append_of_ne_nil _ hne]

def cleaned (dir : String) : List String :=
  ((components dir).foldl (step (isAbsolute dir)) []).reverse

theorem join_eq (hdir : dir ≠ "") (hname : ProperName name) :
    join dir name =
      (if isAbsolute dir then "/" else "") ++ "/".intercalate (cleaned dir ++ [name]) := by
  have hcs : ((components (dir ++ "/" ++ name)).foldl (step (isAbsolute dir)) []).reverse =
      cleaned dir ++ [name] := by
    rw [components_slash, components_self hname.toIsComponent, List.foldl_append, List.foldl_cons,
      List.foldl_nil, step_name hname.notHere hname.notAbove, List.reverse_cons, cleaned]
  rw [join, if_neg hdir, if_neg hname.nonempty, clean, String.append_assoc,
    isAbsolute_append hdir, ← String.append_assoc]
  simp only [hcs]
  split <;> simp

theorem isComponent_join (dir : String) (hname : ProperName name) :
    ∀ c ∈ cleaned dir ++ [name], IsComponent c := by
  rw [List.forall_mem_append]
  refine ⟨fun c hc => ?_, by simpa using hname.toIsComponent⟩
  exact steps_isComponent (fun _ => isComponent_of_mem) (by simp) c (List.mem_reverse.mp hc)

theorem components_join (hdir : dir ≠ "") (hname : ProperName name) :
    components (join dir name) = cleaned dir ++ [name] := by
  rw [join_eq hdir hname]
  split
  · have hslash := components_slash "" ("/".intercalate (cleaned dir ++ [name]))
    rw [String.empty_append] at hslash
    rw [hslash, components_intercalate (isComponent_join dir hname)]
    rfl
  · rw [String.empty_append, components_intercalate (isComponent_join dir hname)]

theorem join_ne (hdir : dir ≠ "") (hname : ProperName name) : join dir name ≠ "" := by
  intro h
  have hcs := components_join hdir hname
  rw [h, show components "" = [] from rfl] at hcs
  simp at hcs

theorem base_join (hdir : dir ≠ "") (hname : ProperName name) : base (join dir name) = name := by
  rw [base, if_neg (join_ne hdir hname), components_join hdir hname, List.getLast?_concat]
  rfl

theorem intercalate_front (c : String) (cs : List String) :
    ∃ rest, "/".intercalate (c :: cs) = c ++ rest := by
  cases cs with
  | nil => exact ⟨"", by simp⟩
  | cons d cs => exact ⟨_, by rw [String.intercalate_cons_cons, String.append_assoc]⟩

theorem intercalate_back (cs : List String) (c : String) :
    ∃ front, "/".intercalate (cs ++ [c]) = front ++ c := by
  induction cs with
  | nil => exact ⟨"", by simp⟩
  | cons d cs ih =>
    obtain ⟨front, hfront⟩ := ih
    refine ⟨d ++ "/" ++ front, ?_⟩
    rw [List.cons_append, String.intercalate_cons_of_ne_nil (by simp), hfront]
    simp only [String.append_assoc]

theorem isAbsolute_join (hdir : dir ≠ "") (hname : ProperName name) :
    isAbsolute (join dir name) = isAbsolute dir := by
  rw [join_eq hdir hname]
  split
  next habs =>
    rw [habs, isAbsolute, String.toList_append]
    rfl
  next habs =>
    -- The path begins as its first component does.
    obtain ⟨c, cs, hcs⟩ := List.exists_cons_of_ne_nil (List.append_ne_nil_of_right_ne_nil
      (cleaned dir) (List.cons_ne_nil name []))
    have hc : IsComponent c := isComponent_join dir hname c (by simp [hcs])
    obtain ⟨rest, hrest⟩ := intercalate_front c cs
    rw [hcs, hrest, String.empty_append, isAbsolute_append hc.nonempty, Bool.eq_false_iff.mpr habs,
      isAbsolute, decide_eq_false_iff_not]
    exact fun hslash => hc.noSlash (List.mem_of_head? hslash)

theorem endsInSlash_join (hdir : dir ≠ "") (hname : ProperName name) :
    endsInSlash (join dir name) = false := by
  obtain ⟨front, hfront⟩ := intercalate_back (cleaned dir) name
  have hne : name.toList ≠ [] := fun h => hname.nonempty (String.toList_eq_nil_iff.mp h)
  rw [join_eq hdir hname, hfront, ← String.append_assoc, endsInSlash, String.toList_append,
    List.getLast?_append_of_ne_nil _ hne, decide_eq_false_iff_not]
  exact fun hslash => hname.noSlash (List.mem_of_getLast? hslash)

end Path

theorem ProperEntries.lookup {entries : List (String × Node)} (h : ProperEntries entries)
    (hmem : (name, node) ∈ entries) : entries.lookup name = some node := by
  obtain ⟨before, after, rfl⟩ := List.append_of_mem hmem
  refine List.lookup_eq_some_iff.mpr ⟨before, after, rfl, fun e he => ?_⟩
  have hdistinct := h.distinct
  rw [List.map_append, List.map_cons, List.nodup_append] at hdistinct
  have hne := hdistinct.2.2 e.1 (List.mem_map_of_mem he) name List.mem_cons_self
  simpa using Ne.symm hne

namespace FileTree

variable {t : FileTree} {dir : String}

theorem list_ok (h : t.list dir = .ok entries) :
    dir ≠ "" ∧ ∃ here above, follow [("", t.root)] (t.start dir ++ components dir) =
      .ok ((here, .directory entries) :: above) := by
  by_cases hdir : dir = ""
  · subst hdir
    cases h
  refine ⟨hdir, ?_⟩
  simp only [list, find, locate, if_neg hdir] at h
  cases hfollow : follow [("", t.root)] (t.start dir ++ components dir) with
  | error e =>
    rw [hfollow] at h
    cases h
  | ok trail =>
    rw [hfollow] at h
    rcases trail with _ | ⟨⟨here, node⟩, above⟩
    · cases h
    · cases node with
      | file content failure =>
        by_cases hslash : endsInSlash dir = true <;> simp [hslash, bind, Except.bind] at h
      | directory es =>
        cases h
        exact ⟨here, above, rfl⟩

theorem start_join (hdir : dir ≠ "") (hname : ProperName name) :
    t.start (Path.join dir name) = t.start dir := by
  rw [start, start, Path.isAbsolute_join hdir hname]

/-- The path of an entry leads to the entry. -/
theorem find_join (hlist : t.list dir = .ok entries) (hproper : ProperEntries entries)
    (hmem : (name, node) ∈ entries) : t.find (Path.join dir name) = .ok node := by
  obtain ⟨hdir, here, above, htrail⟩ := list_ok hlist
  have hname : ProperName name := hproper.names _ hmem
  obtain ⟨origin, horigin, hdirs⟩ := follow_append_iff.mp htrail
  have hroot : isAbsolute dir = true → ∃ place, origin = [place] := by
    intro habs
    rw [start, if_pos habs] at horigin
    cases horigin
    exact ⟨_, rfl⟩
  have hclean : follow origin (Path.cleaned dir) = .ok ((here, .directory entries) :: above) :=
    (Path.follow_clean hroot hdirs).1
  have hentry : follow ((here, .directory entries) :: above) [name] =
      .ok ((name, node) :: (here, .directory entries) :: above) := by
    simp [follow, hname.notHere, hname.notAbove, hproper.lookup hmem]
  have hfollow : follow [("", t.root)]
      (t.start (Path.join dir name) ++ components (Path.join dir name)) =
        .ok ((name, node) :: (here, .directory entries) :: above) := by
    rw [start_join hdir hname, Path.components_join hdir hname, follow_append_ok horigin,
      follow_append_ok hclean, hentry]
  rw [find, locate, if_neg (Path.join_ne hdir hname), hfollow]
  cases node with
  | file content failure => simp [Path.endsInSlash_join hdir hname, bind, Except.bind]
  | directory es => rfl

end FileTree

-- ---------------------------------------------------------------------------
-- Cases
-- ---------------------------------------------------------------------------

namespace Conformance

open FileTree Text

def caseEntries (entries : List (String × Node)) : List (String × Node) :=
  entries.filter fun e => !e.2.isDirectory && hasSuffix e.1 ".splat"

theorem discover_ok (h : discover t dir = .ok paths) :
    ∃ entries, ∃ es : List (String × Node), t.list dir = .ok entries ∧
      es.Perm (caseEntries entries) ∧ paths = es.map (fun e => Path.join dir e.1) ∧
      paths.Pairwise (· ≤ ·) := by
  unfold discover at h
  cases hlist : t.list dir with
  | error e =>
    rw [hlist] at h
    cases h
  | ok entries =>
    rw [hlist] at h
    cases h
    refine ⟨entries, (caseEntries entries).mergeSort
      (fun a b => decide (Path.join dir a.1 ≤ Path.join dir b.1)), rfl, List.mergeSort_perm _ _, ?_,
      List.pairwise_mergeSort' (· ≤ ·) _⟩
    rw [List.map_map]
    refine Eq.symm (List.map_mergeSort ?_)
    exact fun _ _ _ _ => rfl

/-- The cases come in the order of the bytes of their paths, and none of them twice. -/
theorem discover_increasing {es : List (String × Node)} (hdir : dir ≠ "")
    (hproper : ProperEntries entries) (hperm : es.Perm (caseEntries entries))
    (hsorted : (es.map fun e => Path.join dir e.1).Pairwise (· ≤ ·)) :
    (es.map fun e => bytesOf (Path.join dir e.1)).Pairwise (· < ·) := by
  have hnodup : (es.map fun e => Path.join dir e.1).Nodup := by
    -- The base of a path gives the name back, and no name comes twice.
    refine List.Nodup.of_map Path.base ?_
    have hbase : (es.map fun e => Path.join dir e.1).map Path.base = es.map Prod.fst := by
      rw [List.map_map]
      refine List.map_congr_left fun e he => ?_
      exact Path.base_join hdir (hproper.names e (List.mem_of_mem_filter (hperm.mem_iff.mp he)))
    rw [hbase, (hperm.map Prod.fst).nodup_iff]
    exact hproper.distinct.sublist (List.filter_sublist.map _)
  rw [List.pairwise_map]
  rw [List.Nodup, List.pairwise_map] at hnodup
  rw [List.pairwise_map] at hsorted
  exact (hsorted.and hnodup).imp fun ⟨hle, hne⟩ => bytesOf_lt (lt_of_le_of_ne hle hne)

end Conformance

end SplatLang
