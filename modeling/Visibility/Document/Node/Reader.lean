import Visibility.Document.Node
import Visibility.Document.Token.Lexer

/-!
# From tokens to nodes

`Graph.ofTokens` reads the nodes of one document.  The readers of the parts of a collection take the
reader of a single node, which may lie one level deeper than the collection; so nodes within each
other are limited by `nestingLimit`, and what is nested deeper is refused.

Where a token is looked at and reading of the text has failed before it, the failure is the result.
-/

namespace Visibility.Document

/-! ## §1 Readers -/

/-- What is known while nodes are read: the tokens that are left and what ends them, the nodes so
far, the anchors and the handles of tags.  Nodes are open as long as their parts are read. -/
structure Reading where
  tokens : List Token
  failure : Option ReadError
  graph : Graph
  anchors : List (String × Nat)
  handles : List (String × String)
  openNodes : List Nat
  /-- How many aliases stand for a node that they are part of. -/
  loops : Nat

/-- A reader: it goes on from what is known, or fails. -/
abbrev Reader : Type → Type := StateT Reading (Except ReadError)

namespace Reader

/-- Fails because the document has not the right form. -/
def refuse {α : Type} : Reader α :=
  throw .malformed

/-- The next token. -/
def peek : Reader Token := do
  let r ← get
  match r.tokens with
  | token :: _ => return token
  | [] => throw (r.failure.getD .malformed)

/-- Passes over the next token. -/
def skip : Reader Unit :=
  modify fun r => { r with tokens := r.tokens.drop 1 }

/-- Passes over the next token if it is the given one, and says whether it was. -/
def skipIf (token : Token) : Reader Bool := do
  if (← peek) = token then
    skip
    return true
  else return false

/-- How many tokens are left. -/
def tokensLeft : Reader Nat := do
  return (← get).tokens.length

/-! ## §2 New nodes -/

/-- Adds a node and gives its number. -/
def addNode (node : Node) : Reader Nat := do
  let r ← get
  set { r with graph := r.graph.add node }
  return r.graph.size

/-- Adds the node of a place where nothing is written. -/
def nothing : Reader Nat :=
  addNode .nothing

/-- Notes the anchor of a node; a document has each anchor once. -/
def noteAnchor (anchor : Option String) (n : Nat) : Reader Unit := do
  match anchor with
  | none => return
  | some name =>
    let r ← get
    if (r.anchors.lookup name).isSome then refuse
    set { r with anchors := (name, n) :: r.anchors }

/-- Adds a node with an anchor. -/
def addAnchored (anchor : Option String) (node : Node) : Reader Nat := do
  let n ← addNode node
  noteAnchor anchor n
  return n

/-- Adds a collection, whose parts are read after its anchor is known. -/
def addCollection (anchor : Option String) (tag : Tag) (content : Reader Content) : Reader Nat := do
  let n ← addAnchored anchor ⟨tag, .sequence []⟩
  modify fun r => { r with openNodes := n :: r.openNodes }
  let content ← content
  modify fun r => { r with graph := r.graph.set n ⟨tag, content⟩, openNodes := r.openNodes.drop 1 }
  return n

/-- The node of an alias. -/
def aliased (name : String) : Reader Nat := do
  let r ← get
  match r.anchors.lookup name with
  | none => refuse
  | some n =>
    if r.openNodes.contains n then set { r with loops := r.loops + 1 }
    return n

/-! ## §3 Properties -/

/-- The properties of a node: its anchor, and its tag as it is written. -/
structure Properties where
  anchor : Option String
  tag : Option (Option String × String)

/-- Passes over an anchor if there is one. -/
def readAnchor? : Reader (Option String) := do
  match ← peek with
  | .anchor name =>
    skip
    return some name
  | _ => return none

/-- Passes over a tag if there is one. -/
def readTag? : Reader (Option (Option String × String)) := do
  match ← peek with
  | .tag handle suffix =>
    skip
    return some (handle, suffix)
  | _ => return none

/-- Reads an anchor and a tag, in either order. -/
def readProperties : Reader Properties := do
  match ← readAnchor? with
  | some name => return ⟨some name, ← readTag?⟩
  | none =>
    match ← readTag? with
    | some tag => return ⟨← readAnchor?, some tag⟩
    | none => return ⟨none, none⟩

/-- Writes a tag out: its handle becomes what it stands for. -/
def writtenOut : Option (Option String × String) → Reader (Option String)
  | none => return none
  | some (none, suffix) => return some suffix
  | some (some handle, suffix) => do
    match (← get).handles.lookup handle with
    | none => refuse
    | some start => return some (start ++ suffix)

/-- The tag of a node: the one that is written out unless that says nothing. -/
def tagOr (written : Option String) (otherwise : Tag) : Tag :=
  match written with
  | none | some "!" => otherwise
  | some text => .ofText text

/-- The tag of a scalar.  A plain scalar has one by its form, and so has a quoted one if its tag is
written but says nothing. -/
def scalarTag (written : Option String) (text : String) (isPlain : Bool) : Tag :=
  match written with
  | none => if isPlain then .ofPlain text else .string
  | some _ => tagOr written (.ofPlain text)

/-! ## §4 Parts of collections -/

/-- Where a node stands.  Outside of brackets, the items of a sequence may be in the column of the
key whose value the sequence is; inside of brackets, a pair may be an item. -/
inductive Place where
  | block
  | entry
  | flow
  | pair
  deriving DecidableEq, Repr

/-- The reader of a single node at a place. -/
abbrev NodeReader := Place → Reader Nat

/-- Reads a node unless one of the given tokens is next, before which there is nothing. -/
def readUnless (ends : List Token) (place : Place) (node : NodeReader) : Reader Nat := do
  if ends.contains (← peek) then nothing else node place

/-- Reads the items of a block after dashes, up to the end of the block. -/
def readBlockItems (node : NodeReader) : Nat → Reader (List Nat)
  | 0 => refuse
  | fuel + 1 => do
    if ← skipIf .dash then
      let item ← readUnless [.dash, .blockEnd] .block node
      return item :: (← readBlockItems node fuel)
    else if ← skipIf .blockEnd then return []
    else refuse

/-- Reads items after dashes that open no block of their own. -/
def readEntryItems (node : NodeReader) : Nat → Reader (List Nat)
  | 0 => refuse
  | fuel + 1 => do
    if ← skipIf .dash then
      let item ← readUnless [.dash, .key, .value, .blockEnd] .block node
      return item :: (← readEntryItems node fuel)
    else return []

/-- Reads the entries of a block, up to its end. -/
def readBlockEntries (node : NodeReader) : Nat → Reader (List (Nat × Nat))
  | 0 => refuse
  | fuel + 1 => do
    if ← skipIf .key then
      let key ← readUnless [.key, .value, .blockEnd] .entry node
      let value ←
        if ← skipIf .value then readUnless [.key, .value, .blockEnd] .entry node else nothing
      return (key, value) :: (← readBlockEntries node fuel)
    else if ← skipIf .blockEnd then return []
    else refuse

/-- Reads a key and its value inside brackets, which end with the given token. -/
def readPair (ending : Token) (node : NodeReader) : Reader (Nat × Nat) := do
  let key ← readUnless [.value, .comma, ending] .flow node
  let value ← if ← skipIf .value then readUnless [.comma, ending] .flow node else nothing
  return (key, value)

/-- Passes over the comma before a part that is not the first one. -/
def skipComma (isFirst : Bool) : Reader Unit := do
  if !isFirst then
    if !(← skipIf .comma) then refuse

/-- Reads the items of a sequence in brackets. -/
def readFlowItems (node : NodeReader) (isFirst : Bool) : Nat → Reader (List Nat)
  | 0 => refuse
  | fuel + 1 => do
    if ← skipIf .closeBracket then return []
    skipComma isFirst
    match ← peek with
    | .closeBracket =>
      skip
      return []
    | .key =>
      let item ← node .pair
      return item :: (← readFlowItems node false fuel)
    | _ =>
      let item ← node .flow
      return item :: (← readFlowItems node false fuel)

/-- Reads the entries of a mapping in braces.  A key may stand without a value. -/
def readFlowEntries (node : NodeReader) (isFirst : Bool) : Nat → Reader (List (Nat × Nat))
  | 0 => refuse
  | fuel + 1 => do
    if ← skipIf .closeBrace then return []
    skipComma isFirst
    match ← peek with
    | .closeBrace =>
      skip
      return []
    | .key =>
      skip
      let entry ← readPair .closeBrace node
      return entry :: (← readFlowEntries node false fuel)
    | _ =>
      let key ← node .flow
      let value ← nothing
      return (key, value) :: (← readFlowEntries node false fuel)

/-! ## §5 Nodes -/

/-- Reads a node that is no alias, after its properties. -/
def readContent (node : NodeReader) (place : Place) (p : Properties) : Reader Nat := do
  let written ← writtenOut p.tag
  let fuel := (← tokensLeft) + 1
  let inBlock := place = .block ∨ place = .entry
  let sequence (items : Reader (List Nat)) : Reader Nat :=
    addCollection p.anchor (tagOr written .sequence) (.sequence <$> items)
  let mapping (entries : Reader (List (Nat × Nat))) : Reader Nat :=
    addCollection p.anchor (tagOr written .mapping) (.mapping <$> entries)
  match ← peek with
  | .scalar text isPlain =>
    skip
    addAnchored p.anchor ⟨scalarTag written text isPlain, .scalar text⟩
  | .openBracket =>
    skip
    sequence (readFlowItems node true fuel)
  | .openBrace =>
    skip
    mapping (readFlowEntries node true fuel)
  | token =>
    if token = .dash ∧ place = .entry then sequence (readEntryItems node fuel)
    else if token = .sequenceBlock ∧ inBlock then
      skip
      sequence (readBlockItems node fuel)
    else if token = .mappingBlock ∧ inBlock then
      skip
      mapping (readBlockEntries node fuel)
    -- A node with properties may have no content.
    else if p.anchor.isSome ∨ p.tag.isSome then
      addAnchored p.anchor ⟨tagOr written .null, .scalar ""⟩
    else refuse

/-- Reads a node in which other nodes are at most `depth` levels deep. -/
def readNode : Nat → NodeReader
  | 0 => fun _ => throw .nestedTooDeeply
  | depth + 1 => fun place => do
    match ← peek, place with
    | .key, .pair =>
      skip
      addCollection none .mapping do
        return .mapping [← readPair .closeBracket (readNode depth)]
    | .reference name, _ =>
      skip
      aliased name
    | _, _ =>
      let properties ← readProperties
      readContent (readNode depth) place properties

/-! ## §6 Documents -/

/-- How deeply nodes may lie within each other. -/
def nestingLimit : Nat := 480

/-- The handles of tags that need no directive. -/
def standardHandles : List (String × String) :=
  [("!", "!"), ("!!", Tag.standardStart)]

/-- Reads directives.  The version is given at most once and is a first one, and each handle is
given at most once. -/
def readDirectives (versioned : Bool) (handles : List (String × String)) :
    Nat → Reader (List (String × String))
  | 0 => refuse
  | fuel + 1 => do
    match ← peek with
    | .directive (.version major) =>
      skip
      if versioned || major != 1 then refuse
      readDirectives true handles fuel
    | .directive (.tagHandle handle start) =>
      skip
      if (handles.lookup handle).isSome then refuse
      readDirectives versioned ((handle, start) :: handles) fuel
    | .directive .other =>
      skip
      readDirectives versioned handles fuel
    | _ => return handles

/-- Reads directives and the mark that starts a document, and sets the handles of tags. -/
def readStart : Reader Unit := do
  let handles ← readDirectives false [] ((← tokensLeft) + 1)
  if !(← skipIf .documentStart) then refuse
  modify fun r => { r with handles := handles ++ standardHandles }

/-- Passes over marks that end a document. -/
def skipEnds : Nat → Reader Unit
  | 0 => return
  | fuel + 1 => do
    if ← skipIf .documentEnd then skipEnds fuel

/-- Reads the first document, if there is one. -/
def readFirst : Reader (Option Nat) := do
  match ← peek with
  | .theEnd => return none
  | .directive _ | .documentStart =>
    readStart
    match ← peek with
    | .directive _ | .documentStart | .documentEnd | .theEnd => return some (← nothing)
    | _ => return some (← readNode nestingLimit .block)
  | _ => return some (← readNode nestingLimit .block)

/-- Reads the only document of a text. -/
def readOnly : Reader (Option Nat) := do
  let root ← readFirst
  skipEnds ((← tokensLeft) + 1)
  if (← peek) = .theEnd then return root
  -- Directives of another document may still fail to be read.
  readStart
  refuse

end Reader

/-- The nodes of a document: all of them, the outermost one unless there is nothing at all, and how
many aliases stand for a node that they are part of. -/
structure RootedGraph where
  graph : Graph
  root : Option Nat
  loops : Nat

/-- Reads the nodes of a document from its tokens. -/
def RootedGraph.ofTokens (s : Scanned) : Except ReadError RootedGraph := do
  let start : Reading :=
    { tokens := s.tokens, failure := s.failure, graph := .empty, anchors := [],
      handles := Reader.standardHandles, openNodes := [], loops := 0 }
  let (root, r) ← Reader.readOnly.run start
  return ⟨r.graph, root, r.loops⟩

end Visibility.Document
