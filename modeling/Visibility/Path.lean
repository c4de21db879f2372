/-!
# Paths

A path in its normal form: repeated separators, single dots and a separator at the end carry no
meaning and are dropped, two dots are kept.  The path without parts is written as a single dot.
-/

namespace Visibility

/-- A path: how it starts, nothing or one or two separators, and its parts. -/
structure Path where
  root : String
  parts : List String
  deriving DecidableEq, Repr

namespace Path

/-- How a text starts: exactly two separators are a start of their own, any other number from one on
counts as one. -/
def rootOf (s : String) : String :=
  -- A start of exactly two separators has a meaning of its own on some systems.
  match (s.toList.takeWhile (· == '/')).length with
  | 0 => ""
  | 2 => "//"
  | _ => "/"

/-- Whether a piece between separators is a part of the path. -/
def isPart (piece : String) : Bool :=
  piece != "" && piece != "."

/-- The path that is written so. -/
def ofText (s : String) : Path :=
  ⟨rootOf s, (s.splitOn "/").filter isPart⟩

/-- How a path is written. -/
def text (p : Path) : String :=
  match p.root ++ String.intercalate "/" p.parts with
  | "" => "."
  | s => s

/-- The path of an entry of a directory. -/
def child (p : Path) (name : String) : Path :=
  { p with parts := p.parts ++ [name] }

end Path

end Visibility
