/-!
# Reading errors

Why a text is no document, or has a scalar that does not have the form its tag asks for.
-/

namespace Visibility.Document

/-- Why a document cannot be read. -/
inductive ReadError where
  /-- The text has not the form of a document, or a node does not have the form of its tag. -/
  | malformed
  /-- Nodes are within each other too deeply. -/
  | nestedTooDeeply
  /-- An escape stands for a number beyond the last character. -/
  | noCharacter
  /-- An escape stands for a number of more than 31 bits. -/
  | characterTooLarge
  /-- A scalar that is to be a number has no character at all, or none but a sign. -/
  | emptyNumeral
  /-- A scalar that is to be a number is none, or has too many digits. -/
  | noNumeral
  /-- A number in base sixty has too many parts. -/
  | numeralTooLong
  /-- A scalar that is to be true or false is neither. -/
  | noTruth
  /-- A scalar that is to be a moment is none. -/
  | noMoment
  /-- The calendar or the clock does not have a moment. -/
  | impossibleMoment
  deriving DecidableEq, Repr

/-- The message of an error. -/
def ReadError.message : ReadError → String
  | .malformed => "the document is malformed"
  | .nestedTooDeeply => "the document is nested too deeply"
  | .noCharacter => "there is no character of such a number"
  | .characterTooLarge => "the number of a character is too large"
  | .emptyNumeral => "a numeral has no digits"
  | .noNumeral => "a scalar is no number that can be read"
  | .numeralTooLong => "a numeral has too many parts"
  | .noTruth => "a scalar is neither true nor false"
  | .noMoment => "a scalar is no moment"
  | .impossibleMoment => "there is no such moment"

end Visibility.Document
