import SemanticSidecar.Lib.Text
import Mathlib.Algebra.Group.Int.Defs
import Mathlib.Data.List.Nodup
import Mathlib.Data.List.Perm.Basic
import Mathlib.Data.String.Basic
import Mathlib.Order.Lattice

/-!
# A flat directory

A sidecar package is one directory without subdirectories: the executable, its native modules and
some texts.  The packager reads it to write an inventory of it, and the sidecar reads it to find
the modules it may load.  Both list its entries, in whatever order the file system has them, and
then look at them one by one.

An entry has a name, which is a byte string and need not be UTF-8, and leads to a `Node`.  Only a
symbolic link can lead nowhere, and looking at a link shows what it leads to, except where
`DirEntry.isRegular` asks about the entry itself.

A name occurs once in a directory.  A file has a length below 2^64 and its time a number of
nanoseconds that is below 2^128, since these are the integers that the source puts them into.
Whether a directory is `Directory.Same` as another one does not depend on the order of the entries,
which is all that two listings of it can differ in.
-/

set_option autoImplicit false

namespace SemanticSidecar

/-! ## Files -/

/-- A modification time, in nanoseconds from the Unix epoch. -/
structure FileTime where
  /-- The nanoseconds, below zero for a time before the epoch. -/
  nanos : ℤ
  /-- They fit into the `u128` of `as_nanos`. -/
  bounded : nanos < 2 ^ 128
  deriving DecidableEq

/-- A regular file.  Not every platform keeps a modification time. -/
structure RegularFile where
  /-- The bytes of the file. -/
  contents : List UInt8
  /-- When it was modified last, if that is known. -/
  modified : Option FileTime
  /-- Its length is a `u64`. -/
  bounded : contents.length < 2 ^ 64
  deriving DecidableEq

/-- What an entry of a directory can lead to. -/
inductive Node where
  /-- A regular file. -/
  | regular (file : RegularFile)
  /-- A directory, a pipe, a socket or a device. -/
  | other (len : ℕ) (modified : Option FileTime) (bounded : len < 2 ^ 64)
  deriving DecidableEq

/-- `Metadata::len`. -/
def Node.len : Node → ℕ
  | .regular file => file.contents.length
  | .other len _ _ => len

theorem Node.len_lt (node : Node) : node.len < 2 ^ 64 := by
  rcases node with file | ⟨len, modified, bounded⟩
  · exact file.bounded
  · exact bounded

/-- `Metadata::modified`, where there is one. -/
def Node.modified : Node → Option FileTime
  | .regular file => file.modified
  | .other _ modified _ => modified

/-- `Metadata::is_file`. -/
def Node.isFile : Node → Bool
  | .regular _ => true
  | .other _ _ _ => false

/-! ## Directories -/

/-- `DirEntry`: a name, and what it leads to. -/
structure DirEntry where
  /-- The bytes of the name, which need not be text. -/
  name : List UInt8
  /-- The entry is a symbolic link. -/
  isLink : Bool
  /-- What there is at the end of it; nothing where a link dangles. -/
  node : Option Node
  deriving DecidableEq

/-- `FileType::is_file`, which does not follow a link. -/
def DirEntry.isRegular (entry : DirEntry) : Bool := !entry.isLink && entry.node.any Node.isFile

/-- `Path::is_file`, which does. -/
def DirEntry.isFile (entry : DirEntry) : Bool := entry.node.any Node.isFile

/-- A directory, as it is listed. -/
structure Directory where
  /-- The entries, in the order they are listed. -/
  entries : List DirEntry
  /-- No name is listed twice. -/
  nodup : (entries.map DirEntry.name).Nodup

/-- An empty file. -/
def emptyFile (name : String) : DirEntry :=
  ⟨Text.toUtf8 name, false, some (.regular ⟨[], none, by decide⟩)⟩

/-- The same directory in another order. -/
def Directory.Same (root root' : Directory) : Prop := root.entries.Perm root'.entries

/-- The entry with a name. -/
def Directory.find (root : Directory) (name : List UInt8) : Option DirEntry :=
  root.entries.find? fun entry => entry.name = name

theorem Directory.mem_of_find {root : Directory} {name : List UInt8} {entry : DirEntry}
    (h : root.find name = some entry) : entry ∈ root.entries ∧ entry.name = name := by
  have hname := List.find?_some (p := fun entry : DirEntry => decide (entry.name = name)) h
  exact ⟨List.mem_of_find?_eq_some h, of_decide_eq_true hname⟩

theorem Directory.find_eq_some {root : Directory} {name : List UInt8} {entry : DirEntry} :
    root.find name = some entry ↔ entry ∈ root.entries ∧ entry.name = name := by
  refine ⟨root.mem_of_find, fun ⟨hmem, hname⟩ => ?_⟩
  rcases hfind : root.find name with _ | other
  · exact absurd (decide_eq_true hname) (List.find?_eq_none.mp hfind entry hmem)
  · -- Two entries of one name are one entry.
    obtain ⟨hother, heq⟩ := root.mem_of_find hfind
    exact congrArg some (List.inj_on_of_nodup_map root.nodup hother hmem (heq.trans hname.symm))

/-- What is found does not depend on the order. -/
theorem Directory.Same.find {root root' : Directory} (h : root.Same root') (name : List UInt8) :
    root.find name = root'.find name := by
  refine Option.ext fun entry => ?_
  rw [Directory.find_eq_some, Directory.find_eq_some, h.mem_iff]

/-! ## Sorted names

Rust orders strings by their bytes, which for UTF-8 is the order of their characters. -/

/-- `sort`, for names. -/
def sortNames (names : List String) : List String := names.mergeSort fun a b => a ≤ b

theorem sortNames_perm (names : List String) : (sortNames names).Perm names :=
  List.mergeSort_perm _ _

theorem sortNames_pairwise (names : List String) : (sortNames names).Pairwise (· ≤ ·) := by
  have h := @List.pairwise_mergeSort String (fun a b => decide (a ≤ b))
    (fun a b c hab hbc => decide_eq_true ((of_decide_eq_true hab).trans (of_decide_eq_true hbc)))
    (fun a b => by
      rw [Bool.or_eq_true, decide_eq_true_iff, decide_eq_true_iff]
      exact le_total a b) names
  exact h.imp fun hle => of_decide_eq_true hle

/-- Sorting forgets the order that there was. -/
theorem sortNames_eq {names : List String} (sorted : List String) (hperm : names.Perm sorted)
    (hsorted : sorted.Pairwise (· ≤ ·)) : sortNames names = sorted :=
  ((sortNames_perm names).trans hperm).eq_of_pairwise (fun _ _ _ _ => le_antisymm)
    (sortNames_pairwise names) hsorted

end SemanticSidecar
