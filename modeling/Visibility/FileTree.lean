import Visibility.Path
import Visibility.Value

/-!
# Trees of files

The files that a program may read: for each file the document it holds, or that it holds none.  The
directories above a file are there with it.  A path is followed part by part, from the directory
that relative paths start in or from the root of an absolute path; what the tree does not hold does
not exist.
-/

namespace Visibility

/-- What a file holds: a document, or a text that is none. -/
inductive FileContent where
  | document (v : Value)
  | invalid

/-- What stands at a place of the tree. -/
inductive FileEntry where
  | file (content : FileContent)
  | directory

/-- Why a file cannot be read. -/
inductive AccessError where
  | notFound
  | isDirectory
  | notADirectory
  /-- A path, or one of its parts, is longer than any can be. -/
  | nameTooLong
  /-- A path has a null character, which none can have. -/
  | nullCharacter
  deriving DecidableEq, Repr

/-- Files and directories with their places. -/
structure FileTree where
  entries : List (List String × FileEntry)

namespace FileTree

/-! ## §1 Places -/

/-- What stands at a place: an entry, or a directory that some entry lies in. -/
def entryAt? (t : FileTree) (place : List String) : Option FileEntry :=
  match t.entries.find? (·.1 == place) with
  | some (_, entry) => some entry
  | none =>
    if place = [] ∨ t.entries.any (fun entry => place.isPrefixOf entry.1) then some .directory
    else none

/-- The place above a place.  Above the start of relative paths lie places that begin with two dots,
and nothing lies above a root. -/
def above (place : List String) : List String :=
  match place.getLast? with
  | none | some ".." => place ++ [".."]
  | some part => if part.startsWith "/" then place else place.dropLast

/-- Where a path starts. -/
def origin (p : Path) : List String :=
  if p.root = "" then [] else [p.root]

/-- One part further on from a place. -/
def onward (place : List String) (part : String) : List String :=
  if part = ".." then above place else place ++ [part]

/-- A part of a path has at most this many bytes. -/
def maxPartBytes : Nat := 255

/-- A path has fewer bytes than this. -/
def pathBytesLimit : Nat := 4096

/-- Follows the parts of a path from a place, through directories only. -/
def follow (t : FileTree) (place : List String) : List String → Except AccessError (List String)
  | [] => .ok place
  | part :: parts =>
    -- Two dots lead upwards only from a directory that is there.
    match t.entryAt? place with
    | none => .error .notFound
    | some (.file _) => .error .notADirectory
    | some .directory =>
      if maxPartBytes < part.utf8ByteSize then .error .nameTooLong
      else follow t (onward place part) parts

/-- What stands at the end of a path. -/
def find (t : FileTree) (p : Path) : Except AccessError FileEntry :=
  if p.text.toList.contains '\x00' then .error .nullCharacter
  else if pathBytesLimit ≤ p.text.utf8ByteSize then .error .nameTooLong
  else match t.follow (origin p) p.parts with
  | .error e => .error e
  | .ok place => (t.entryAt? place).elim (.error .notFound) .ok

/-- The place that a path leads to if all parts of it are there. -/
def placeOf (p : Path) : List String :=
  p.parts.foldl onward (origin p)

/-! ## §2 Reading -/

/-- Whether there is anything at a path.  Of a path that is too long that cannot be told. -/
def holds (t : FileTree) (p : Path) : Except AccessError Bool :=
  match t.find p with
  | .ok _ => .ok true
  | .error .nameTooLong => .error .nameTooLong
  | .error _ => .ok false

/-- Whether there is a file at a path. -/
def isFile (t : FileTree) (p : Path) : Bool :=
  match t.find p with
  | .ok (.file _) => true
  | _ => false

/-- The content of a file. -/
def read (t : FileTree) (p : Path) : Except AccessError FileContent :=
  match t.find p with
  | .ok (.file content) => .ok content
  | .ok .directory => .error .isDirectory
  | .error e => .error e

/-- The names of what lies in a directory, each once and in the order of their characters. -/
def namesIn (t : FileTree) (p : Path) : List String :=
  match t.follow (origin p) p.parts with
  | .error _ => []
  | .ok place =>
    let names := t.entries.filterMap fun entry =>
      if place.isPrefixOf entry.1 then (entry.1.drop place.length).head? else none
    names.eraseDups.mergeSort (fun a b => a ≤ b)

end FileTree

end Visibility
