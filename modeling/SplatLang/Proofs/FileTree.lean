import SplatLang.Proofs.Conformance.Directory

/-!
# What was written to a file is read back

Writing puts a node at the end of a path of names. A path to it is followed the same way before and
after: as long as the way agrees with those names, the nodes on it are the old ones with the new
node further down, and once it leaves them they are the old ones.
-/

namespace SplatLang

namespace Node

theorem lookup_setEntry (name : String) (node : Node) (entries : List (String × Node)) :
    (setEntry name node entries).lookup name = some node := by
  induction entries with
  | nil => simp [setEntry]
  | cons e entries ih =>
    obtain ⟨n, old⟩ := e
    rw [setEntry]
    split
    next h => simp [h]
    next h =>
      have hne : (name == n) = false := by simpa using Ne.symm h
      simp [List.lookup, hne, ih]

theorem lookup_setEntry_of_ne (h : other ≠ name) (node : Node) (entries : List (String × Node)) :
    (setEntry name node entries).lookup other = entries.lookup other := by
  induction entries with
  | nil =>
    have hne : (other == name) = false := by simpa using h
    simp [setEntry, List.lookup, hne]
  | cons e entries ih =>
    obtain ⟨n, old⟩ := e
    rw [setEntry]
    split
    next hn =>
      have hne : (other == n) = false := by simpa [hn] using h
      simp [List.lookup, hne]
    next hn =>
      simp only [List.lookup]
      split
      · rfl
      · exact ih

/-- Following names downwards from a node meets no directory at their end. -/
def NoDirectory : List String → Node → Prop
  | [], node => ∀ entries, node ≠ directory entries
  | _ :: _, file _ _ => True
  | name :: rest, directory entries =>
    ∀ child, entries.lookup name = some child → NoDirectory rest child

end Node

namespace FileTree

theorem namesOf_cons (hne : up ≠ []) (c : String) (item : Node) :
    namesOf ((c, item) :: up) = namesOf up ++ [c] := by
  have hreverse : (up.map Prod.fst).reverse ≠ [] := by simpa using hne
  rw [namesOf, List.map_cons, List.reverse_cons, List.tail_append_of_ne_nil hreverse]
  rfl

/-- Two trails in trees that differ by one node: the way in the first one, and in the second, where
`node` was put at the end of `names`. What is left of the names is given as long as the way agrees
with them. -/
inductive Alongside (node : Node) (names : List String) : (left : Option (List String)) →
    (trail trail' : List (String × Node)) → Prop
  | root (free : Node.NoDirectory names here) :
      Alongside node names (some names) [("", here)] [("", Node.put node names here)]
  | agree (above : Alongside node names (some (c :: left)) ((h, .directory entries) :: up) up')
      (child : entries.lookup c = some item) (free : Node.NoDirectory left item) :
      Alongside node names (some left) ((c, item) :: (h, .directory entries) :: up)
        ((c, Node.put node left item) :: up')
  | leave (above : Alongside node names (some (d :: left)) up up') (other : c ≠ d) :
      Alongside node names none ((c, item) :: up) ((c, item) :: up')
  | apart (above : Alongside node names none up up') :
      Alongside node names none ((c, item) :: up) ((c, item) :: up')

namespace Alongside

variable {node : Node} {names : List String} {trail trail' : List (String × Node)}

theorem ne_nil (h : Alongside node names left trail trail') : trail ≠ [] ∧ trail' ≠ [] := by
  cases h <;> simp

/-- The way before the last step was alongside as well. -/
theorem above (h : Alongside node names left ((c, item) :: up) trail') :
    ∃ item' up', trail' = (c, item') :: up' ∧
      (up = [] ∧ up' = [] ∨ up ≠ [] ∧ up' ≠ [] ∧ ∃ left, Alongside node names left up up') := by
  cases h with
  | root => exact ⟨_, _, rfl, .inl ⟨rfl, rfl⟩⟩
  | agree h => exact ⟨_, _, rfl, .inr ⟨by simp, h.ne_nil.2, _, h⟩⟩
  | leave h => exact ⟨_, _, rfl, .inr ⟨h.ne_nil.1, h.ne_nil.2, _, h⟩⟩
  | apart h => exact ⟨_, _, rfl, .inr ⟨h.ne_nil.1, h.ne_nil.2, _, h⟩⟩

theorem free (h : Alongside node names (some left) ((c, item) :: up) trail') :
    Node.NoDirectory left item := by
  cases h with
  | root free => exact free
  | agree _ _ free => exact free

theorem head (h : Alongside node names left ((c, item) :: up) trail') :
    trail'.head? = some (c, left.elim item (Node.put node · item)) := by
  cases h <;> rfl

/-- From a directory the names go on, and in the other tree it is a directory too. -/
theorem directory (h : Alongside node names left ((c, .directory entries) :: up) trail') :
    (left = none ∧ trail'.head? = some (c, .directory entries)) ∨
      ∃ d rest, left = some (d :: rest) ∧
        trail'.head? = some (c, Node.put node (d :: rest) (.directory entries)) := by
  cases left with
  | none => exact .inl ⟨rfl, h.head⟩
  | some left =>
    cases left with
    | nil => exact absurd rfl (h.free entries)
    | cons d rest => exact .inr ⟨d, rest, rfl, h.head⟩

/-- One component leads alongside. -/
theorem step (h : Alongside node names left trail trail') (hfollow : follow trail [c] = .ok next) :
    ∃ left next', follow trail' [c] = .ok next' ∧ Alongside node names left next next' := by
  obtain ⟨here, entries, up, rfl, hcases⟩ := follow_one hfollow
  obtain ⟨item', up', rfl, hup⟩ := h.above
  have hdirectory := h.directory
  simp only [List.head?_cons, Option.some.injEq, Prod.mk.injEq, true_and] at hdirectory
  rcases hcases with ⟨rfl, rfl⟩ | ⟨rfl, rfl⟩ | ⟨hdot, hdots, child, hchild, rfl⟩
  · rcases hdirectory with ⟨-, rfl⟩ | ⟨d, rest, -, rfl⟩ <;> exact ⟨left, _, rfl, h⟩
  · have hup' : follow ((here, item') :: up') [".."] =
        .ok (if up' = [] then [(here, item')] else up') := by
      rcases hdirectory with ⟨-, rfl⟩ | ⟨d, rest, -, rfl⟩ <;> simp [follow, Node.put]
    rcases hup with ⟨rfl, rfl⟩ | ⟨hup, hne, left, habove⟩
    · exact ⟨left, _, hup', h⟩
    · rw [if_neg hne] at hup'
      rw [if_neg hup]
      exact ⟨left, up', hup', habove⟩
  · rcases hdirectory with ⟨rfl, rfl⟩ | ⟨d, rest, rfl, rfl⟩
    · refine ⟨none, (c, child) :: (here, .directory entries) :: up', ?_, .apart h⟩
      simp [follow, hdot, hdots, hchild]
    · by_cases hc : c = d
      · subst hc
        have hfree : Node.NoDirectory rest child := h.free child hchild
        refine ⟨some rest, _, ?_, .agree h hchild hfree⟩
        simp [follow, Node.put, hdot, hdots, Node.lookup_setEntry, hchild]
      · refine ⟨none, _, ?_, .leave h hc⟩
        simp [follow, Node.put, hdot, hdots, Node.lookup_setEntry_of_ne hc, hchild]

/-- A whole path leads alongside. -/
theorem run (h : Alongside node names left trail trail') (hfollow : follow trail cs = .ok last) :
    ∃ left last', follow trail' cs = .ok last' ∧ Alongside node names left last last' := by
  induction cs generalizing left trail trail' with
  | nil =>
    cases hfollow
    exact ⟨left, trail', rfl, h⟩
  | cons c cs ih =>
    rw [← List.singleton_append, follow_append_iff] at hfollow
    obtain ⟨mid, hstep, hrest⟩ := hfollow
    obtain ⟨left, mid', hstep', hmid⟩ := h.step hstep
    obtain ⟨left, last', hrest', hlast⟩ := ih hmid hrest
    refine ⟨left, last', ?_, hlast⟩
    rw [← List.singleton_append, follow_append_iff]
    exact ⟨mid', hstep', hrest'⟩

/-- The names of a trail and those that are left make up all, or the trail went another way. -/
theorem namesOf_left (h : Alongside node names left trail trail') :
    left.elim (¬namesOf trail <+: names) fun left => namesOf trail ++ left = names := by
  induction h with
  | root => rfl
  | agree habove _ _ ih => simpa [namesOf_cons] using ih
  | leave habove other ih =>
    rw [Option.elim_some] at ih
    rw [Option.elim_none, namesOf_cons habove.ne_nil.1, ← ih, List.prefix_append_right_inj,
      List.cons_prefix_cons]
    exact fun h => other h.1
  | apart habove ih =>
    rw [Option.elim_none, namesOf_cons habove.ne_nil.1]
    exact fun h => ih ((List.prefix_append _ _).trans h)

/-- At the end of the names the trail has come to where they lead. -/
theorem left_eq (h : Alongside node (namesOf trail ++ rest) left trail trail') :
    left = some rest := by
  have hnames := h.namesOf_left
  cases left with
  | none => exact absurd (List.prefix_append _ _) hnames
  | some left => rw [List.append_cancel_left hnames]

end Alongside

-- ---------------------------------------------------------------------------
-- Trails
-- ---------------------------------------------------------------------------

/-- Every place of a trail is an entry of the one before. -/
inductive Leads (top : Node) : List (String × Node) → Prop
  | start : Leads top [("", top)]
  | down (above : Leads top ((h, .directory entries) :: up))
      (child : entries.lookup c = some item) :
      Leads top ((c, item) :: (h, .directory entries) :: up)

namespace Leads

variable {top : Node} {trail : List (String × Node)}

theorem step (h : Leads top trail) (hfollow : follow trail [c] = .ok next) : Leads top next := by
  obtain ⟨here, entries, up, rfl, hcases⟩ := follow_one hfollow
  rcases hcases with ⟨-, rfl⟩ | ⟨-, rfl⟩ | ⟨-, -, child, hchild, rfl⟩
  · exact h
  · split
    · exact h
    next hup =>
      cases h with
      | start => exact absurd rfl hup
      | down above => exact above
  · exact .down h hchild

theorem run (h : Leads top trail) (hfollow : follow trail cs = .ok last) : Leads top last := by
  induction cs generalizing trail with
  | nil =>
    cases hfollow
    exact h
  | cons c cs ih =>
    rw [← List.singleton_append, follow_append_iff] at hfollow
    obtain ⟨mid, hstep, hrest⟩ := hfollow
    exact ih (h.step hstep) hrest

/-- What holds behind a trail holds behind its names. -/
theorem noDirectory (h : Leads top ((c, item) :: up)) (hfree : Node.NoDirectory rest item) :
    Node.NoDirectory (namesOf ((c, item) :: up) ++ rest) top := by
  generalize htrail : (c, item) :: up = trail at h
  induction h generalizing c item up rest with
  | start =>
    cases htrail
    exact hfree
  | down above child ih =>
    cases htrail
    rw [namesOf_cons (by simp), List.append_assoc]
    refine ih ?_ rfl
    intro child' hchild'
    rw [child, Option.some.injEq] at hchild'
    exact hchild' ▸ hfree

end Leads

-- ---------------------------------------------------------------------------
-- Reading and writing
-- ---------------------------------------------------------------------------

theorem locate_file_iff {failure : Option FileError} :
    locate t path = .ok ((name, .file content failure) :: up) ↔
      path ≠ "" ∧ endsInSlash path = false ∧
        follow [("", t.root)] (t.start path ++ components path) =
          .ok ((name, .file content failure) :: up) := by
  rw [locate]
  split
  · simp [*]
  · simp only [bind, Except.bind]
    split
    next e hfollow => simp [hfollow]
    · split <;> grind

theorem follow_of_notFound (h : locate t path = .error .notFound) (hpath : path ≠ "") :
    follow [("", t.root)] (t.start path ++ components path) = .error .notFound := by
  rw [locate, if_neg hpath] at h
  simp only [bind, Except.bind] at h
  split at h
  next e hfollow => rw [hfollow, h]
  next trail hfollow => split at h <;> grind

theorem components_of_parentAndName (h : parentAndName path = some (parent, name)) :
    components path = parent ++ [name] ∧ path ≠ "" := by
  rw [parentAndName] at h
  split at h
  · cases h
  next last above hcomponents =>
    cases h
    rw [List.reverse_eq_iff, List.reverse_cons] at hcomponents
    refine ⟨hcomponents, ?_⟩
    rintro rfl
    exact absurd hcomponents.symm (by simp [components, Text.splitAt])

/-- Where a name leads nowhere, it is that of an entry to be. -/
theorem lookup_of_notFound
    (h : follow ((here, .directory entries) :: up) [name] = .error .notFound) :
    name ≠ "." ∧ name ≠ ".." ∧ entries.lookup name = none := by
  simp only [follow] at h
  grind

/-- The way to a place before and after a file was put behind it. -/
theorem follow_put (node : Node)
    (hfollow : follow [("", top)] cs = .ok ((name, item) :: up))
    (hfree : Node.NoDirectory rest item) :
    ∃ up', follow [("", Node.put node (namesOf ((name, item) :: up) ++ rest) top)] cs =
      .ok ((name, Node.put node rest item) :: up') := by
  have hnames := (Leads.start.run hfollow).noDirectory hfree
  have hstart : Alongside node _ _ _ _ := .root hnames
  obtain ⟨left, trail', hfollow', halong⟩ := hstart.run hfollow
  obtain rfl := halong.left_eq
  obtain ⟨item', up', rfl, -⟩ := halong.above
  have hhead := halong.head
  rw [List.head?_cons, Option.some.injEq] at hhead
  rw [hhead] at hfollow'
  exact ⟨up', hfollow'⟩

/-- Writing replaces the file that a path leads to, or adds one to the directory it leads into. -/
theorem write_cases (h : write t path content = .ok t') :
    path ≠ "" ∧ endsInSlash path = false ∧
      ((∃ name old failure up,
          follow [("", t.root)] (t.start path ++ components path) =
            .ok ((name, .file old failure) :: up) ∧
          t' = { t with
            root := Node.put (.file content) (namesOf ((name, .file old failure) :: up)) t.root }) ∨
        ∃ parent name here entries up,
          components path = parent ++ [name] ∧ name ≠ "." ∧ name ≠ ".." ∧
          entries.lookup name = none ∧
          follow [("", t.root)] (t.start path ++ parent) = .ok ((here, .directory entries) :: up) ∧
          t' = { t with
            root := Node.put (.file content)
              (namesOf ((here, .directory entries) :: up) ++ [name]) t.root }) := by
  unfold write at h
  split at h
  next name old failure up hlocate =>
    cases h
    obtain ⟨hpath, hslash, hfollow⟩ := locate_file_iff.mp hlocate
    exact ⟨hpath, hslash, .inl ⟨name, old, failure, up, hfollow, rfl⟩⟩
  · cases h
  next e hlocate =>
    split at h
    next parent name hparent =>
      obtain ⟨hcomponents, hpath⟩ := components_of_parentAndName hparent
      have hmissing := follow_of_notFound hlocate hpath
      rw [hcomponents, ← List.append_assoc] at hmissing
      simp only [bind, Except.bind] at h
      split at h
      · cases h
      next trail hfollow =>
        rw [follow_append_ok hfollow] at hmissing
        split at h
        next here entries up =>
          obtain ⟨hdot, hdots, hlookup⟩ := lookup_of_notFound hmissing
          split at h
          · cases h
          next hslash =>
            cases h
            exact ⟨hpath, by simpa using hslash, .inr
              ⟨parent, name, here, entries, up, hcomponents, hdot, hdots, hlookup, hfollow, rfl⟩⟩
        · cases h
    · cases h

/-- Behind a write the path leads to the file with what was written. -/
theorem locate_of_write (h : write t path content = .ok t') :
    ∃ name up, t'.locate path = .ok ((name, .file content) :: up) := by
  obtain ⟨hpath, hslash, hcases⟩ := write_cases h
  obtain ⟨name, old, failure, up, hfollow, rfl⟩ |
    ⟨parent, name, here, entries, up, hcomponents, hdot, hdots, hlookup, hfollow, rfl⟩ := hcases
  · have hfree : Node.NoDirectory [] (.file old failure) := by simp [Node.NoDirectory]
    obtain ⟨up', hfollow'⟩ := follow_put (.file content) hfollow hfree
    rw [List.append_nil] at hfollow'
    exact ⟨name, up', locate_file_iff.mpr ⟨hpath, hslash, hfollow'⟩⟩
  · have hfree : Node.NoDirectory [name] (.directory entries) := by
      simp [Node.NoDirectory, hlookup]
    obtain ⟨up', hfollow'⟩ := follow_put (.file content) hfollow hfree
    have hname : follow ((here, Node.put (.file content) [name] (.directory entries)) :: up')
        [name] = .ok ((name, .file content) ::
          (here, Node.put (.file content) [name] (.directory entries)) :: up') := by
      simp [follow, Node.put, hdot, hdots, Node.lookup_setEntry]
    have hwhole := (follow_append_ok hfollow').trans hname
    rw [List.append_assoc, ← hcomponents] at hwhole
    exact ⟨name, _, locate_file_iff.mpr ⟨hpath, hslash, hwhole⟩⟩

/-- What was written to a path is read from it. -/
theorem read_of_write (h : write t path content = .ok t') : t'.read path = .ok content := by
  obtain ⟨name, up, hlocate⟩ := locate_of_write h
  have hfind : t'.find path = .ok (.file content) := by
    rw [find, hlocate]
    rfl
  rw [read, hfind]

/-- A path to a file, or to where one may be made. -/
def Writable (t : FileTree) (path : String) : Prop := ∃ t', t.write path [] = .ok t'

/-- The content does not decide whether a write goes through. -/
theorem writable_iff {t : FileTree} (content : Text.Bytes) :
    t.Writable path ↔ ∃ t', t.write path content = .ok t' := by
  unfold Writable write
  split
  · simp
  · simp
  next e hlocate =>
    split
    · cases hfollow : follow [("", t.root)] (t.start path ++ _) with
      | error e => simp [bind, Except.bind]
      | ok trail =>
        simp only [bind, Except.bind]
        split
        · split <;> simp
        · simp
    · simp

/-- Behind a write the path can be written to again. -/
theorem writable_of_write (h : write t path content = .ok t') : t'.Writable path := by
  obtain ⟨name, up, hlocate⟩ := locate_of_write h
  exact ⟨_, by rw [write, hlocate]⟩

end FileTree

end SplatLang
