import Mathlib.Data.List.Infix
import Worksheet.File.Tree

/-!
# Writing into a tree of files

A write fails, or it makes one file in a directory that was there (`Wrote`). So what is at any other
place stays what it was, every path leads to where it led, and the file's text is read back.

* `wrote_of_write`: what a write that does not fail does.
* `Wrote.node_eq`: what is at each place after it.
* `Wrote.resolve_eq_ok_iff`: where each path leads after it.
* `Wrote.readText_path`: the file has the text.
* `Wrote.readText_eq`, `Wrote.hasPath_eq`: paths that lead elsewhere find what they found.
* `OnTree`: file systems whose operations are those of trees, but for writes that fail.
-/

namespace Worksheet.FileTree

variable {tree after : FileTree} {path text : String} {place p q : List String}

/-- The text of the file that a path leads to. -/
def readText (tree : FileTree) (path : String) : Except FileError String :=
  match tree.read path with
  | .error e => .error e
  | .ok bytes =>
    match String.fromUTF8? bytes with
    | some text => .ok text
    | none => .error .notText

/-- Two paths lead to one place, where there is a file or may be one. -/
def SameFile (tree : FileTree) (path path' : String) : Prop :=
  ∃ place, tree.resolve path = .ok place ∧ tree.resolve path' = .ok place

/-- A file with this text was made at a place, in a directory. -/
structure Wrote (tree after : FileTree) (place : List String) (text : String) : Prop where
  eq : after = { tree with files := tree.files.insert place text.toUTF8 }
  directory : tree.isDirectory place.dropLast = true
  node_ne : tree.node place ≠ .directory

theorem read_eq (h : tree.resolve path = .ok q) : tree.read path =
    match tree.node q with
    | .file content => .ok content
    | .locked error => .error error
    | .directory => .error .isDirectory
    | .nothing => .error .notFound := by
  rw [read, h]
  rfl

/-- The bytes of a text are read as the text. -/
theorem fromUTF8?_toUTF8 (text : String) : String.fromUTF8? text.toUTF8 = some text := by
  simp only [String.fromUTF8?, String.toUTF8_eq_toByteArray, dif_pos text.isValidUTF8]
  rfl

/-! ## Directories -/

theorem isDirectory_iff : tree.isDirectory p = true ↔
    (p <+: tree.workingDirectory ∨ ∃ directory ∈ tree.directories, p <+: directory) ∨
      ∃ file, (file ∈ tree.files ∨ file ∈ tree.locked) ∧ p <+: file ∧ p ≠ file := by
  simp only [isDirectory, Bool.or_eq_true, List.any_cons, List.isPrefixOf_iff_prefix,
    List.any_eq_true, List.mem_append, Std.ExtTreeMap.mem_keys, Std.ExtTreeSet.mem_toList,
    Bool.and_eq_true, bne_iff_ne]

theorem isDirectory_of_above (h : tree.isDirectory p = true) (hq : q <+: p) :
    tree.isDirectory q = true := by
  rw [isDirectory_iff] at h ⊢
  obtain (hp | ⟨directory, hdirectory, hp⟩) | ⟨file, hfile, hp, hne⟩ := h
  · exact Or.inl (Or.inl (hq.trans hp))
  · exact Or.inl (Or.inr ⟨directory, hdirectory, hq.trans hp⟩)
  · refine Or.inr ⟨file, hfile, hq.trans hp, ?_⟩
    rintro rfl
    exact hne (hp.eq_of_length_le hq.length_le)

theorem isDirectory_start (tree : FileTree) (path : String) :
    tree.isDirectory (tree.start path) = true := by
  rw [isDirectory_iff, start]
  split
  · exact Or.inl (Or.inl List.nil_prefix)
  · exact Or.inl (Or.inl List.prefix_rfl)

/-! ## Following names -/

/-- The place that a name leads to from a directory. -/
def next (p : List String) (name : String) : List String :=
  if name = "." then p else if name = ".." then p.dropLast else p ++ [name]

/-- Each name is followed from a directory. -/
theorem follow_cons_eq_ok_iff {name : String} {names : List String} :
    tree.follow p (name :: names) = .ok q ↔
      tree.node p = .directory ∧ tree.follow (next p name) names = .ok q := by
  rw [follow]
  cases tree.node p with
  | nothing => simp
  | file content => simp
  | locked error => simp
  | directory =>
    simp only [true_and, next]
    split
    · rfl
    · split
      · rfl
      · rfl

theorem isDirectory_of_node (h : tree.node p = .directory) : tree.isDirectory p = true := by
  unfold node at h
  split at h
  · contradiction
  · contradiction
  · split at h
    · assumption
    · contradiction

/-- Names that are followed from a place in a directory end in a directory. -/
theorem isDirectory_dropLast_of_follow {names : List String}
    (hp : tree.isDirectory p.dropLast = true) (h : tree.follow p names = .ok q) :
    tree.isDirectory q.dropLast = true := by
  induction names generalizing p with
  | nil =>
    obtain rfl := Except.ok.inj h
    exact hp
  | cons name names ih =>
    obtain ⟨hnode, hnext⟩ := follow_cons_eq_ok_iff.mp h
    have hdirectory := isDirectory_of_node hnode
    refine ih ?_ hnext
    unfold next
    split
    · exact hp
    · split
      · exact isDirectory_of_above hp (List.dropLast_prefix _)
      · rw [List.dropLast_concat]
        exact hdirectory

/-- **What a write does** that does not fail. -/
theorem wrote_of_write (h : tree.write path text = .ok after) :
    ∃ place, tree.resolve path = .ok place ∧ tree.Wrote after place text := by
  unfold write at h
  by_cases hempty : path.isEmpty = true
  · rw [if_pos hempty] at h
    contradiction
  rw [if_neg hempty] at h
  cases hplace : tree.follow (tree.start path) (names path) with
  | error e =>
    rw [hplace] at h
    contradiction
  | ok place =>
    rw [hplace] at h
    by_cases hslash : path.endsWith "/" = true
    · simp only [bind, Except.bind, hslash, if_true] at h
      contradiction
    · have hresolve : tree.resolve path = .ok place := by
        rw [resolve, if_neg hempty, if_neg hslash, List.append_nil, hplace]
      have hdirectory := isDirectory_dropLast_of_follow (isDirectory_of_above
        (tree.isDirectory_start path) (List.dropLast_prefix _)) hplace
      simp only [bind, Except.bind, hslash, Bool.false_eq_true, if_false] at h
      split at h
      · contradiction
      · contradiction
      · rename_i hnode _
        exact ⟨place, hresolve, (Except.ok.inj h).symm, hdirectory, hnode⟩

/-! ## After a write -/

section Wrote

variable (h : tree.Wrote after place text)
include h

theorem Wrote.getElem?_eq (q : List String) :
    after.files[q]? = if q = place then some text.toUTF8 else tree.files[q]? := by
  rw [h.eq, Std.ExtTreeMap.getElem?_insert]
  simp only [Std.LawfulEqCmp.compare_eq_iff_eq, @eq_comm _ place]

theorem Wrote.workingDirectory_eq : after.workingDirectory = tree.workingDirectory := by
  rw [h.eq]

theorem Wrote.directories_eq : after.directories = tree.directories := by
  rw [h.eq]

theorem Wrote.locked_eq : after.locked = tree.locked := by
  rw [h.eq]

theorem Wrote.mem_files_iff {file : List String} :
    file ∈ after.files ↔ file = place ∨ file ∈ tree.files := by
  rw [h.eq, Std.ExtTreeMap.mem_insert, Std.LawfulEqCmp.compare_eq_iff_eq, @eq_comm _ place]

/-- No directory is made, since the file is made in one. -/
theorem Wrote.isDirectory_eq (q : List String) : after.isDirectory q = tree.isDirectory q := by
  rw [Bool.eq_iff_iff, isDirectory_iff, h.workingDirectory_eq, h.directories_eq, h.locked_eq]
  simp only [h.mem_files_iff]
  constructor
  · rintro (habove | ⟨file, (rfl | hfile) | hfile, hbelow, hne⟩)
    · exact isDirectory_iff.mpr (Or.inl habove)
    · have hlast : file ≠ [] := by
        rintro rfl
        exact hne (List.prefix_nil.mp hbelow)
      rw [← List.dropLast_concat_getLast hlast, List.prefix_concat_iff,
        List.dropLast_concat_getLast hlast] at hbelow
      exact isDirectory_of_above h.directory (hbelow.resolve_left hne)
    · exact isDirectory_iff.mpr (Or.inr ⟨file, Or.inl hfile, hbelow, hne⟩)
    · exact isDirectory_iff.mpr (Or.inr ⟨file, Or.inr hfile, hbelow, hne⟩)
  · intro hq
    refine (isDirectory_iff.mp hq).imp_right ?_
    rintro ⟨file, hfile, hbelow, hne⟩
    exact ⟨file, hfile.imp_left Or.inr, hbelow, hne⟩

/-- **What is at each place after a write.** -/
theorem Wrote.node_eq (q : List String) :
    after.node q = if q = place then .file text.toUTF8 else tree.node q := by
  rw [node, h.getElem?_eq, h.locked_eq, h.isDirectory_eq]
  by_cases hq : q = place
  · rw [if_pos hq, if_pos hq]
  · rw [if_neg hq, if_neg hq]
    rfl

theorem Wrote.node_eq_directory_iff : after.node q = .directory ↔ tree.node q = .directory := by
  rw [h.node_eq]
  split
  · rename_i hq
    exact ⟨fun hfile => by contradiction, fun hdirectory => absurd (hq ▸ hdirectory) h.node_ne⟩
  · rfl

theorem Wrote.follow_eq_ok_iff {names : List String} :
    after.follow p names = .ok q ↔ tree.follow p names = .ok q := by
  induction names generalizing p with
  | nil => rfl
  | cons name names ih =>
    rw [follow_cons_eq_ok_iff, follow_cons_eq_ok_iff, h.node_eq_directory_iff, ih]

/-- **Every path leads to where it led** before the write. -/
theorem Wrote.resolve_eq_ok_iff (path : String) :
    after.resolve path = .ok q ↔ tree.resolve path = .ok q := by
  unfold resolve
  split
  · rfl
  · rw [start, start, h.workingDirectory_eq, h.follow_eq_ok_iff]

/-- **The file is read back.** -/
theorem Wrote.readText_path (hplace : tree.resolve path = .ok place) :
    after.readText path = .ok text := by
  have hread : after.read path = .ok text.toUTF8 := by
    rw [read_eq ((h.resolve_eq_ok_iff path).mpr hplace), h.node_eq, if_pos rfl]
  rw [readText, hread]
  simp only [fromUTF8?_toUTF8]

theorem Wrote.hasPath_path (hplace : tree.resolve path = .ok place) :
    after.hasPath path = true := by
  rw [hasPath, (h.resolve_eq_ok_iff path).mpr hplace]
  simp only [h.node_eq, if_true]

/-- What a path that leads elsewhere finds is there as before. -/
theorem Wrote.node_eq_of_not_sameFile {other : String} (hplace : tree.resolve path = .ok place)
    (hother : ¬ tree.SameFile other path) (hq : tree.resolve other = .ok q) :
    after.node q = tree.node q := by
  rw [h.node_eq, if_neg]
  rintro rfl
  exact hother ⟨q, hq, hplace⟩

/-- A path that leads elsewhere finds the text that it found. -/
theorem Wrote.readText_eq {other found : String} (hplace : tree.resolve path = .ok place)
    (hother : ¬ tree.SameFile other path) (hread : tree.readText other = .ok found) :
    after.readText other = .ok found := by
  cases hq : tree.resolve other with
  | error e =>
    rw [readText, read, hq] at hread
    contradiction
  | ok q =>
    rw [readText, read_eq hq] at hread
    rw [readText, read_eq ((h.resolve_eq_ok_iff other).mpr hq),
      h.node_eq_of_not_sameFile hplace hother hq, hread]

/-- A path that leads elsewhere finds something exactly if it found something. -/
theorem Wrote.hasPath_eq {other : String} (hplace : tree.resolve path = .ok place)
    (hother : ¬ tree.SameFile other path) : after.hasPath other = tree.hasPath other := by
  cases hq : tree.resolve other with
  | error e =>
    cases hafter : after.resolve other with
    | error e' => rw [hasPath, hasPath, hq, hafter]
    | ok q =>
      rw [(h.resolve_eq_ok_iff other).mp hafter] at hq
      contradiction
  | ok q =>
    rw [hasPath, hasPath, hq, (h.resolve_eq_ok_iff other).mpr hq]
    simp only [h.node_eq_of_not_sameFile hplace hother hq]

end Wrote

/-! ## File systems on trees -/

/-- The file system answers from the tree, and what it writes is the tree's write. It may fail to
write for reasons of its own; where it fails, the tree stays as it is. -/
structure OnTree (fs : FileSystem (StateM FileTree)) : Prop where
  hasPath : ∀ tree path, (fs.hasPath path).run tree = (tree.hasPath path, tree)
  read : ∀ tree path, (fs.read path).run tree = (tree.read path, tree)
  write : ∀ tree path text, (∃ e, (fs.write path text).run tree = (.error e, tree)) ∨
    ∃ after, tree.write path text = .ok after ∧ (fs.write path text).run tree = (.ok (), after)

theorem onTree_fileSystem : OnTree fileSystem := by
  refine ⟨fun tree path => rfl, fun tree path => rfl, fun tree path text => ?_⟩
  simp only [fileSystem, StateT.run_bind, StateT.run_get, pure_bind]
  cases tree.write path text with
  | error e => exact Or.inl ⟨e, rfl⟩
  | ok after => exact Or.inr ⟨after, rfl, rfl⟩

/-- Where the first action is known to end, the second goes on. -/
theorem run_bind_of_run {α β : Type} {first : StateM FileTree α} {next : α → StateM FileTree β}
    {a : α} (h : first.run tree = (a, after)) :
    (first >>= next).run tree = (next a).run after := by
  rw [StateT.run_bind, h]
  rfl

theorem OnTree.readText {fs : FileSystem (StateM FileTree)} (h : OnTree fs) (tree : FileTree)
    (path : String) : (fs.readText path).run tree = (tree.readText path, tree) := by
  rw [FileSystem.readText, run_bind_of_run (h.read tree path), FileTree.readText]
  cases tree.read path with
  | error e => rfl
  | ok bytes =>
    dsimp only
    cases String.fromUTF8? bytes with
    | none => rfl
    | some text => rfl

end Worksheet.FileTree
