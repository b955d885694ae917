import Mathlib.Data.List.Basic

/-!
# POSIX paths

`PurePosixPath` of `pathlib`.  A path is what stands before its first component and
its components; parsing drops empty components and dots and keeps `..`.
-/

namespace KVSSD.Paths

/-- A text that `pathlib` keeps as one component. -/
structure Plain (text : String) : Prop where
  ne_empty : text ≠ ""
  ne_dot : text ≠ "."
  no_slash : '/' ∉ text.toList

/-- The `root` of a path. -/
inductive Anchor where
  | relative
  | slash
  | doubleSlash
  deriving DecidableEq, Repr

def Anchor.text : Anchor → String
  | relative => ""
  | slash => "/"
  | doubleSlash => "//"

/-- Two slashes at the start stay; any other number of them counts as one. -/
def anchorOf : List Char → Anchor
  | '/' :: '/' :: '/' :: _ => .slash
  | '/' :: '/' :: _ => .doubleSlash
  | '/' :: _ => .slash
  | _ => .relative

theorem anchorOf_relative {text : List Char} (noSlash : '/' ∉ text) :
    anchorOf text = .relative := by
  unfold anchorOf
  split
  · simp at noSlash
  · simp at noSlash
  · simp at noSlash
  · rfl

def components (text : String) : List String :=
  ((text.toList.splitOn '/').map String.ofList).filter fun part => part ≠ "" ∧ part ≠ "."

theorem not_mem_of_mem_splitOn {separator : Char} {text part : List Char}
    (member : part ∈ text.splitOn separator) : separator ∉ part := by
  induction text generalizing part with
  | nil =>
      rw [List.splitOn_nil, List.mem_singleton] at member
      simp [member]
  | cons character text induction =>
      rw [List.splitOn_cons_eq_if_modifyHead] at member
      by_cases separates : character = separator
      · rw [if_pos (by simpa using separates)] at member
        rcases List.mem_cons.mp member with rfl | rest
        · simp
        · exact induction rest
      · rw [if_neg (by simpa using separates)] at member
        obtain ⟨head, tail, split⟩ := List.exists_cons_of_ne_nil
          (List.splitOn_ne_nil separator text)
        rw [split, List.modifyHead_cons] at member
        rw [split] at induction
        rcases List.mem_cons.mp member with rfl | rest
        · have headPlain := induction List.mem_cons_self
          simp only [List.mem_cons, not_or]
          exact ⟨fun same => separates same.symm, headPlain⟩
        · exact induction (List.mem_cons_of_mem _ rest)

theorem plain_of_mem_components {text part : String} (member : part ∈ components text) :
    Plain part := by
  obtain ⟨mapped, kept⟩ := List.mem_filter.mp member
  obtain ⟨characters, split, rfl⟩ := List.mem_map.mp mapped
  obtain ⟨nonempty, noDot⟩ : String.ofList characters ≠ "" ∧ String.ofList characters ≠ "." := by
    simpa using kept
  constructor
  · exact nonempty
  · exact noDot
  · rw [String.toList_ofList]
    exact not_mem_of_mem_splitOn split

theorem components_of_plain {text : String} (plain : Plain text) : components text = [text] := by
  unfold components
  rw [List.splitOn_eq_singleton plain.no_slash]
  simp [plain.ne_empty, plain.ne_dot]

@[ext] structure PosixPath where
  anchor : Anchor
  tail : List String
  plain : ∀ part ∈ tail, Plain part

namespace PosixPath

/-- `Path(text)`. -/
def ofString (text : String) : PosixPath :=
  ⟨anchorOf text.toList, components text, fun _ member => plain_of_mem_components member⟩

/-- `path / text`: an absolute text replaces the path. -/
def join (path : PosixPath) (text : String) : PosixPath :=
  match anchorOf text.toList with
  | .relative =>
      { anchor := path.anchor
        tail := path.tail ++ components text
        plain := by
          intro part member
          rcases List.mem_append.mp member with own | joined
          · exact path.plain part own
          · exact plain_of_mem_components joined }
  | _ => ofString text

/-- `path.parts`. -/
def parts (path : PosixPath) : List String :=
  if path.anchor = .relative then path.tail else path.anchor.text :: path.tail

/-- A path below a directory, which no `..` leaves. -/
def Inside (path directory : PosixPath) : Prop :=
  path.anchor = directory.anchor ∧
    ∃ rest, rest ≠ [] ∧ path.tail = directory.tail ++ rest ∧ ".." ∉ rest

theorem join_of_plain (path : PosixPath) {text : String} (plain : Plain text) :
    (path.join text).anchor = path.anchor ∧ (path.join text).tail = path.tail ++ [text] := by
  unfold join
  rw [anchorOf_relative plain.no_slash]
  constructor
  · rfl
  · exact congrArg (path.tail ++ ·) (components_of_plain plain)

theorem joins_of_plain (path : PosixPath) {texts : List String}
    (plain : ∀ text ∈ texts, Plain text) :
    (texts.foldl join path).anchor = path.anchor ∧
      (texts.foldl join path).tail = path.tail ++ texts := by
  induction texts generalizing path with
  | nil => simp
  | cons text texts induction =>
      obtain ⟨anchor, tail⟩ := path.join_of_plain (plain text (by simp))
      obtain ⟨anchors, tails⟩ := induction (path.join text) fun other member =>
        plain other (by simp [member])
      constructor
      · exact anchors.trans anchor
      · rw [List.foldl_cons, tails, tail, List.append_assoc, List.singleton_append]

theorem parts_append {path directory : PosixPath} {rest : List String}
    (anchors : path.anchor = directory.anchor) (tails : path.tail = directory.tail ++ rest) :
    path.parts = directory.parts ++ rest := by
  unfold parts
  rw [anchors, tails]
  by_cases relative : directory.anchor = .relative
  · rw [if_pos relative, if_pos relative]
  · rw [if_neg relative, if_neg relative]
    rfl

end PosixPath

/-- A path with doubled slashes, a dot and a way back. -/
example : (PosixPath.ofString "/mnt//nvme/./a/../b").parts =
    ["/", "mnt", "nvme", "a", "..", "b"] := by
  decide +kernel

end KVSSD.Paths
