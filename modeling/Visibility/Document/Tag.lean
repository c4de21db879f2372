import Visibility.Document.Timestamp

/-!
# Tags

What kind of thing a node of a document is.  A tag may be written out; a plain scalar without a tag
gets one by its form.  Some words are null or booleans, numerals are numbers and timestamps are
moments; everything else is a string.

Whole numbers are written in base ten, two, eight or sixteen, or in base sixty with colons between
the digits; numbers with places need a point, and an exponent needs its sign.  Underscores between
the digits carry no meaning.
-/

namespace Visibility.Document

/-! ## §1 The tags -/

/-- The tags that have a meaning. -/
inductive Tag where
  | null
  | bool
  | int
  | float
  | binary
  | timestamp
  | string
  | sequence
  | mapping
  | orderedMapping
  | pairs
  | set
  /-- The tag of a key that merges the entries of its value into the mapping. -/
  | merge
  /-- The tag of a key under which a mapping has the scalar that it stands for. -/
  | scalarKey
  | unknown
  deriving DecidableEq, Repr

namespace Tag

/-- How the tags that have a meaning start when they are written out. -/
def standardStart : String := "tag:yaml.org,2002:"

/-- The tag of a name behind the standard start. -/
def ofName (name : String) : Tag :=
  match name with
  | "null" => .null
  | "bool" => .bool
  | "int" => .int
  | "float" => .float
  | "binary" => .binary
  | "timestamp" => .timestamp
  | "str" => .string
  | "seq" => .sequence
  | "map" => .mapping
  | "omap" => .orderedMapping
  | "pairs" => .pairs
  | "set" => .set
  | "merge" => .merge
  | "value" => .scalarKey
  | _ => .unknown

/-- The tag that is written out as a text. -/
def ofText (text : String) : Tag :=
  let start := standardStart.toList
  if start.isPrefixOf text.toList then ofName (String.ofList (text.toList.drop start.length))
  else .unknown

end Tag

/-! ## §2 Words -/

/-- The words for null; nothing at all is one of them. -/
def isNullWord (s : String) : Bool :=
  ["", "~", "null", "Null", "NULL"].contains s

/-- The words for `true`. -/
def isTrueWord (s : String) : Bool :=
  ["yes", "Yes", "YES", "true", "True", "TRUE", "on", "On", "ON"].contains s

/-- The words for `false`. -/
def isFalseWord (s : String) : Bool :=
  ["no", "No", "NO", "false", "False", "FALSE", "off", "Off", "OFF"].contains s

/-- Indicators, which have no meaning as scalars. -/
def isLoneIndicator (s : String) : Bool :=
  ["!", "&", "*"].contains s

/-- The infinities and the number that is none. -/
def isFloatWord (s : String) : Bool :=
  [".inf", ".Inf", ".INF", "+.inf", "+.Inf", "+.INF", "-.inf", "-.Inf", "-.INF",
    ".nan", ".NaN", ".NAN"].contains s

/-! ## §3 Numerals -/

/-- Splits off a sign. -/
def dropSign : List Char → List Char
  | '+' :: cs => cs
  | '-' :: cs => cs
  | cs => cs

/-- A character of a run of decimal digits: a digit or an underscore. -/
def isRunChar (c : Char) : Bool :=
  isDigit c || c == '_'

/-- A run of digits of a base, which may be all underscores. -/
def isRunOf (isBaseDigit : Char → Bool) (cs : List Char) : Bool :=
  cs ≠ [] && cs.all fun c => isBaseDigit c || c == '_'

/-- A digit of base sixty: one or two decimal digits, below sixty. -/
def isSixtieth : List Char → Bool
  | [d] => isDigit d
  | [t, d] => '0' ≤ t && t ≤ '5' && isDigit d
  | _ => false

/-- Whether a text without a sign is a whole number. -/
def isMagnitude (cs : List Char) : Bool :=
  match cs with
  | '0' :: 'b' :: digits => isRunOf isBinaryDigit digits
  | '0' :: 'x' :: digits => isRunOf isHexDigit digits
  | ['0'] => true
  -- A leading zero makes the base eight.
  | '0' :: digits => isRunOf isOctalDigit digits
  | c :: _ =>
    match cs.splitOn ':' with
    | leading :: sixtieths => isDigit c && isRunOf isDigit leading && sixtieths.all isSixtieth
    | [] => false
  | [] => false

/-- An exponent with its sign, or nothing. -/
def isSignedExponent : List Char → Bool
  | [] => true
  | e :: sign :: digits =>
    (e == 'e' || e == 'E') && (sign == '+' || sign == '-') && digits ≠ [] && digits.all isDigit
  | _ => false

/-- Whether a text starts with a digit. -/
def startsWithDigit (cs : List Char) : Bool :=
  (cs.head?.map isDigit).getD false

/-- Whether a text is a number with a point, and with an exponent if it has one. -/
def isDecimal (cs : List Char) : Bool :=
  let unsigned := dropSign cs
  match unsigned.dropWhile isRunChar with
  | '.' :: places =>
    let starts :=
      if startsWithDigit unsigned then true
      -- A point in front needs a digit behind it, and no sign before it.
      else atPoint cs && startsWithDigit places
    starts && isSignedExponent (places.dropWhile isRunChar)
  | _ => false
where
  atPoint (cs : List Char) : Bool := cs.head? == some '.'

/-- Whether a text is a number in base sixty with a point at the end or before its last places. -/
def isSexagesimal (cs : List Char) : Bool :=
  let unsigned := dropSign cs
  let whole := unsigned.takeWhile (· != '.')
  match unsigned.dropWhile (· != '.'), whole.splitOn ':' with
  | '.' :: places, leading :: sixtieths =>
    startsWithDigit leading && isRunOf isDigit leading && sixtieths ≠ [] &&
      sixtieths.all isSixtieth && places.all isRunChar
  | _, _ => false

/-! ## §4 Plain scalars -/

/-- The tag of a plain scalar by its form.  Of a form is also a text with a line break behind it. -/
def Tag.ofPlain (text : String) : Tag :=
  let cs := text.toList
  let cs := if cs.getLast? = some '\n' ∧ cs ≠ ['\n'] then cs.dropLast else cs
  let s := String.ofList cs
  if isTrueWord s || isFalseWord s then .bool
  else if isFloatWord s || isDecimal cs || isSexagesimal cs then .float
  else if isMagnitude (dropSign cs) then .int
  else if s = "<<" then .merge
  else if isNullWord s then .null
  else if (Timestamp.ofText? cs).any Timestamp.isPlain then .timestamp
  else if s = "=" then .scalarKey
  else if isLoneIndicator s then .unknown
  else .string

end Visibility.Document
