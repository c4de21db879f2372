/-!
# Tokens of a document

The smallest parts of a document that have a meaning: indicators, properties of nodes and scalars.
The indentation of lines, too, becomes tokens, which open and close blocks.
-/

namespace Visibility.Document

/-- An instruction before a document. -/
inductive Directive where
  /-- The version of the notation, of which the first part counts. -/
  | version (major : Nat)
  /-- A short form of the start of tags. -/
  | tagHandle (handle start : String)
  /-- Anything else. -/
  | other
  deriving DecidableEq, Repr

/-- A token. -/
inductive Token where
  | directive (d : Directive)
  | documentStart
  | documentEnd
  | sequenceBlock
  | mappingBlock
  | blockEnd
  | openBracket
  | closeBracket
  | openBrace
  | closeBrace
  | comma
  | dash
  | key
  | value
  | reference (name : String)
  | anchor (name : String)
  /-- A tag, of which a handle stands for the start. -/
  | tag (handle : Option String) (suffix : String)
  | scalar (text : String) (isPlain : Bool)
  | theEnd
  deriving DecidableEq, Repr

end Visibility.Document
