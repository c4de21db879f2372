import Visibility.Document
import Visibility.FileTree

/-!
# Building a context

A context for the command line starts from the mapping of a file and takes assignments one after the
other.  An assignment `a.b.c=text` goes down the mappings `a` and `b`, making those that are
missing, and puts the value of the text under the last key.

Mappings are objects: an assignment changes the mapping that it reaches, and the change is seen
wherever this mapping is part of the context.  `Value.putAt` is that change.
-/

namespace Visibility

/-! ## §1 Changing an object -/

mutual

/-- Puts an entry under a string key into the mapping with the given identity, wherever it is part
of the value. -/
def Value.putAt (w : Value) (target : Identity) (key : String) (v : Value) : Value :=
  match w with
  | .list id items => .list id (putAtItems items target key v)
  | .tuple id items => .tuple id (putAtItems items target key v)
  | .map id entries =>
    let entries := putAtEntries entries target key v
    .map id (if id = target then Value.put (.string key) v entries else entries)
  | w => w
termination_by structural w

/-- The same in each item of an array. -/
def putAtItems (items : List Value) (target : Identity) (key : String) (v : Value) : List Value :=
  match items with
  | [] => []
  | w :: ws => w.putAt target key v :: putAtItems ws target key v
termination_by structural items

/-- The same in the value of each entry of a mapping. -/
def putAtEntries (entries : List (Value × Value)) (target : Identity) (key : String) (v : Value) :
    List (Value × Value) :=
  match entries with
  | [] => []
  | (k, w) :: es => (k, w.putAt target key v) :: putAtEntries es target key v
termination_by structural entries

end

/-! ## §2 Assignments -/

/-- Why a context cannot be built. -/
inductive ContextError where
  | access (file : Path) (error : AccessError)
  | invalidDocument (file : Path)
  | notAMapping (file : Path)
  | invalidAssignment (text : String)
  | blockedKey (key part : String)
  | invalidValue (text : String)
  /-- The value has the form of a document, but one of its parts cannot be read. -/
  | unreadableValue (cause : Document.ReadError)
  deriving DecidableEq, Repr

/-- The message of the reason why there is no context. -/
def ContextError.message : ContextError → String
  | .access file _ => file.text ++ ": cannot be read"
  | .invalidDocument file => file.text ++ ": invalid YAML"
  | .notAMapping file => file.text ++ ": context must be a mapping"
  | .invalidAssignment text => "Invalid assignment '" ++ text ++ "', expected KEY=VALUE"
  | .blockedKey key part => "Cannot set '" ++ key ++ "': '" ++ part ++ "' is not a mapping"
  | .invalidValue text =>
    "Invalid value in '" ++ text ++ "': " ++ Document.ReadError.malformed.message
  | .unreadableValue cause => cause.message

/-- A context under construction: the identity and the entries of its top mapping, and how many
objects were built for it. -/
structure Draft where
  id : Identity
  entries : List (Value × Value)
  objects : Nat

/-- The top mapping as a value. -/
def Draft.root (d : Draft) : Value :=
  .map d.id d.entries

/-- Puts an entry into the mapping with the given identity. -/
def Draft.put (d : Draft) (target : Identity) (key : String) (v : Value) : Draft :=
  let entries := putAtEntries d.entries target key v
  { d with entries := if d.id = target then Value.put (.string key) v entries else entries }

/-- An assignment: the keys on the way, the last key, and the text of the value. -/
structure Assignment where
  text : String
  key : String
  parents : List String
  leaf : String
  value : String

namespace Assignment

/-- Splits an assignment at the first equals sign, and the key at its dots. -/
def ofText? (text : String) : Option Assignment :=
  let cs := text.toList
  let key := cs.takeWhile (· != '=')
  match cs.dropWhile (· != '=') with
  | [] => none
  | _ :: value =>
    if key = [] then none
    else
      let parts := (key.splitOn '.').map String.ofList
      some ⟨text, String.ofList key, parts.dropLast, parts.getLastD "", String.ofList value⟩

/-- Goes down from a mapping of a draft along keys and makes the mappings that are missing.  Gives
the identity of the mapping at the end, or the key whose value is no mapping. -/
def descend (d : Draft) (id : Identity) (entries : List (Value × Value)) :
    List String → Except String (Draft × Identity)
  | [] => .ok (d, id)
  | part :: parts =>
    match Value.find? part entries with
    | some (.map next entries) => descend d next entries parts
    | some _ => .error part
    | none =>
      -- A missing mapping is made at once, even if the assignment fails later on.
      let made := Identity.assembled d.objects
      descend { d.put id part (.map made []) with objects := d.objects + 1 } made [] parts

/-- Carries an assignment out.  Whether the key can be reached is found out before the value is
read. -/
def apply (a : Assignment) (d : Draft) : Except ContextError Draft :=
  match descend d d.id d.entries a.parents with
  | .error part => .error (.blockedKey a.key part)
  | .ok (d, target) =>
    -- The new value may take the place of a mapping that lies on the way of a later assignment.
    match Document.read .assembled d.objects a.value with
    | .error .malformed => .error (.invalidValue a.text)
    | .error cause => .error (.unreadableValue cause)
    | .ok (v, objects) => .ok { d.put target a.leaf v with objects }

end Assignment

namespace Draft

/-- The start: a mapping of its own with the given entries. -/
def ofEntries (entries : List (Value × Value)) : Draft :=
  ⟨.assembled 0, entries, 1⟩

/-- The start from a file, or from nothing. -/
def ofFile? (tree : FileTree) : Option Path → Except ContextError Draft
  | none => .ok (ofEntries [])
  | some file =>
    match tree.read file with
    | .error e => .error (.access file e)
    | .ok .invalid => .error (.invalidDocument file)
    | .ok (.document .null) => .ok (ofEntries [])
    | .ok (.document (.map _ entries)) => .ok (ofEntries entries)
    | .ok (.document _) => .error (.notAMapping file)

/-- Carries the assignments out in order. -/
def assign (d : Draft) : List String → Except ContextError Draft
  | [] => .ok d
  | text :: texts =>
    match Assignment.ofText? text with
    | none => .error (.invalidAssignment text)
    | some a =>
      match a.apply d with
      | .error e => .error e
      | .ok d => d.assign texts

end Draft

/-- The context of a file and of assignments on top of it, as a mapping. -/
def buildContext (tree : FileTree) (file : Option Path) (assignments : List String) :
    Except ContextError Value :=
  match Draft.ofFile? tree file with
  | .error e => .error e
  | .ok d => (d.assign assignments).map (·.root)

end Visibility
