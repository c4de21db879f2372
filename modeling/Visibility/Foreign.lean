import Visibility.Moment
import Visibility.Text.Printable

/-!
# Foreign things

Objects that conditions cannot look into: things that are known by a name only, moments, sequences
of bytes, and sets.  Each has a description, which is all that is ever shown of it.
-/

namespace Visibility

/-- What is known of an object that is neither an array nor a mapping.  Of a set that are the
descriptions of its members. -/
inductive Foreign where
  | named (name : String)
  | moment (m : Moment)
  | bytes (bs : List UInt8)
  | set (members : List String)
  deriving DecidableEq, Repr

namespace Foreign

/-- Whether there is nothing in it. -/
def isEmpty : Foreign → Bool
  | .named _ | .moment _ => false
  | .bytes bs => bs.isEmpty
  | .set members => members.isEmpty

/-- Whether two things are one key.  Moments and bytes are so by what they hold. -/
def sameContent (a b : Foreign) : Bool :=
  match a, b with
  | .moment m, .moment n => m.same n
  | .bytes bs, .bytes cs => bs == cs
  | _, _ => false

/-- A byte as it is shown between the given quotes. -/
def showByte (quote : Char) (b : UInt8) : List Char :=
  let c := Char.ofNat b.toNat
  -- Beyond the printable ASCII characters, bytes are shown by their numbers.
  if b.toNat < 0x7F then Text.showChar quote c else '\\' :: 'x' :: Text.paddedHex 2 b.toNat

/-- Bytes between quotes; double ones if only single quotes occur among them. -/
def showBytes (bs : List UInt8) : String :=
  let holds (c : Char) : Bool := bs.any (·.toNat == c.toNat)
  let quote := if holds '\'' && !holds '"' then '"' else '\''
  String.ofList ('b' :: quote :: (bs.flatMap (showByte quote) ++ [quote]))

/-- The description of a foreign thing. -/
def describe : Foreign → String
  | .named name => "<opaque " ++ name ++ ">"
  | .moment m => m.describe
  | .bytes bs => showBytes bs
  | .set [] => "set()"
  | .set members => "\x7b" ++ String.intercalate ", " members ++ "\x7d"

end Foreign

end Visibility
