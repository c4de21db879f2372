import Visibility.Expr
import Visibility.Failure
import Visibility.Number.Numeral

/-!
# Reading expressions from tokens

The grammar, from the loosest level to the tightest:

* disjunction: conjunctions between `||`
* conjunction: comparisons between `&&`
* comparison: negations between the equalities and relations
* negation: any number of `!` before a postfix expression
* postfix expression: a primary one, then property names and calls after dots
* primary expression: a literal, a name, an array, or a group

Operators of one level group to the left.  Each level is a function of its own, and a function calls
only the next one, except that arrays, arguments and groups start over at the loosest level.  The
number of calls within each other is limited; `Expr.callDepth` is that limit, and it is also what
makes the functions terminate.

The token list may end without an end token; what follows its last token is one.
-/

namespace Visibility

/-! ## §1 Results -/

/-- The result of reading from the front of a token list: what was read and the tokens after it, or
why reading stopped and the tokens it stopped at. -/
inductive Parsed (α : Type) where
  | done (result : α) (rest : List Token)
  | stopped (cause : SyntaxError) (rest : List Token)

namespace Parsed

/-- Goes on with what was read. -/
def andThen {α β : Type} (p : Parsed α) (next : α → List Token → Parsed β) : Parsed β :=
  match p with
  | done a rest => next a rest
  | stopped cause rest => stopped cause rest

/-- The tokens after what was read, or at which reading stopped. -/
def rest {α : Type} : Parsed α → List Token
  | done _ rest => rest
  | stopped _ rest => rest

end Parsed

namespace Expr

/-! ## §2 Looking at the next token -/

/-- The next token. -/
def current (ts : List Token) : Token :=
  ts.head?.getD .eof

/-- The operator that the next token is. -/
def currentOperator? (ts : List Token) : Option Operator :=
  if (current ts).kind = .operator then some (.ofText (current ts).text) else none

/-- Takes a token of the given kind. -/
def expect (kind : TokenKind) (ts : List Token) : Parsed Token :=
  if (current ts).kind = kind then .done (current ts) (ts.drop 1)
  else .stopped (.expectedToken kind (current ts)) ts

/-- The value of a literal token. -/
def literalValue? (t : Token) : Option Value :=
  match t.kind with
  | .string => some (.string t.text)
  | .number => some (.double (Numeral.lexemeValue t.text))
  | .boolean => some (.bool (t.text == "true"))
  | .null => some .null
  | _ => none

/-! ## §3 Repetitions -/

/-- Goes on after the first operand of a level: as long as one of its operators follows, reads
another operand and joins it to the left. -/
def leftChain (accepts : Operator → Bool) (operand : List Token → Parsed Expr) (left : Expr)
    (ts : List Token) : Parsed Expr :=
  match ts with
  | [] => .done left []
  | t :: rest =>
    if t.kind = .operator ∧ accepts (.ofText t.text) then
      match operand rest with
      | .stopped cause stop => .stopped cause stop
      | .done right more =>
        let joined := Expr.binary (.ofText t.text) left right
        -- Every level leaves no more tokens than it was given, so the other case never arises.
        if _shorter : more.length ≤ rest.length then leftChain accepts operand joined more
        else .done joined more
    else .done left ts
termination_by ts.length

/-- Goes on after the first item of a list: as long as a comma follows, reads another item. -/
def moreItems (item : List Token → Parsed Expr) (ts : List Token) : Parsed (List Expr) :=
  match ts with
  | [] => .done [] []
  | t :: rest =>
    if t.kind = .comma then
      match item rest with
      | .stopped cause stop => .stopped cause stop
      | .done e more =>
        if _shorter : more.length ≤ rest.length then
          (moreItems item more).andThen fun es rest => .done (e :: es) rest
        else .done [e] more
    else .done [] ts
termination_by ts.length

/-- Goes on after a primary expression: reads property names and calls after dots. -/
def postfixChain (arguments : List Token → Parsed (List Expr)) (object : Expr) (ts : List Token) :
    Parsed Expr :=
  match ts with
  | [] => .done object []
  | dot :: rest =>
    if dot.kind = .dot then
      match rest with
      | [] => .stopped (.expectedToken .identifier .eof) []
      | property :: rest =>
        if property.kind = .identifier then
          -- A parenthesis right after the name makes it a call.
          if (current rest).kind = .lparen then
            match arguments (rest.drop 1) with
            | .stopped cause stop => .stopped cause stop
            | .done es more =>
              let call := Expr.call object property.text es
              if _shorter : more.length ≤ rest.length then postfixChain arguments call more
              else .done call more
          else postfixChain arguments (.member object property.text) rest
        else .stopped (.expectedToken .identifier property) (property :: rest)
    else .done object ts
termination_by ts.length

/-! ## §4 The levels -/

mutual

/-- Conjunctions between `||`. -/
def disjunction : Nat → List Token → Parsed Expr
  | 0, ts => .stopped .nestedTooDeeply ts
  | depth + 1, ts =>
    (conjunction depth ts).andThen (leftChain (· == .or) (conjunction depth))

/-- Comparisons between `&&`. -/
def conjunction : Nat → List Token → Parsed Expr
  | 0, ts => .stopped .nestedTooDeeply ts
  | depth + 1, ts =>
    (comparison depth ts).andThen (leftChain (· == .and) (comparison depth))

/-- Negations between equalities and relations. -/
def comparison : Nat → List Token → Parsed Expr
  | 0, ts => .stopped .nestedTooDeeply ts
  | depth + 1, ts =>
    (negation depth ts).andThen (leftChain Operator.isComparison (negation depth))

/-- Any number of `!` before a postfix expression. -/
def negation : Nat → List Token → Parsed Expr
  | 0, ts => .stopped .nestedTooDeeply ts
  | depth + 1, ts =>
    -- A negation stays on its level, so any number of them may follow each other.
    if currentOperator? ts = some .not then
      (negation depth (ts.drop 1)).andThen fun operand rest => .done (.unary .not operand) rest
    else postfixExpr depth ts

/-- A primary expression with property names and calls after it. -/
def postfixExpr : Nat → List Token → Parsed Expr
  | 0, ts => .stopped .nestedTooDeeply ts
  | depth + 1, ts => (primary depth ts).andThen (postfixChain (items depth .rparen))

/-- A literal, a name, an array or a group. -/
def primary : Nat → List Token → Parsed Expr
  | 0, ts => .stopped .nestedTooDeeply ts
  | depth + 1, ts =>
    match literalValue? (current ts) with
    | some value => .done (.literal value) (ts.drop 1)
    | none =>
      match (current ts).kind with
      | .identifier => .done (.name (current ts).text) (ts.drop 1)
      | .lbracket =>
        (items depth .rbracket (ts.drop 1)).andThen fun es rest => .done (.array es) rest
      -- A group starts over at the loosest level.
      | .lparen =>
        (disjunction depth (ts.drop 1)).andThen fun inner rest =>
          (expect .rparen rest).andThen fun _ rest => .done (.group inner) rest
      | _ => .stopped (.unexpectedToken (current ts).text) ts

/-- Expressions between commas, up to and including the closing token. -/
def items : Nat → TokenKind → List Token → Parsed (List Expr)
  | 0, _, ts => .stopped .nestedTooDeeply ts
  | depth + 1, closing, ts =>
    -- There may be no items, but no comma without one on both sides.
    let listed : Parsed (List Expr) :=
      if (current ts).kind = closing then .done [] ts
      else (disjunction depth ts).andThen fun e rest =>
        (moreItems (disjunction depth) rest).andThen fun es rest => .done (e :: es) rest
    listed.andThen fun es rest => (expect closing rest).andThen fun _ rest => .done es rest

end

/-! ## §5 Whole expressions -/

/-- How many levels may be open within each other. -/
def callDepth : Nat := 960

/-- Reads an expression that takes all tokens up to the end. -/
def parse (ts : List Token) : Parsed Expr :=
  if (current ts).kind = .eof then .stopped .emptyExpression ts
  else (disjunction callDepth ts).andThen fun e rest =>
    if (current rest).kind = .eof then .done e rest
    else .stopped (.unexpectedToken (current rest).text) rest

/-- A place in a token list. -/
structure Cursor where
  rest : List Token
  position : Nat

namespace Cursor

/-- The start of a token list. -/
def start (ts : List Token) : Cursor := ⟨ts, 0⟩

/-- Reads an expression from here on and moves to where reading stopped. -/
def parse (c : Cursor) : Except SyntaxError Expr × Cursor :=
  let moved (rest : List Token) : Cursor := ⟨rest, c.position + (c.rest.length - rest.length)⟩
  match Expr.parse c.rest with
  | .done e rest => (.ok e, moved rest)
  -- A reading that failed leaves its place moved; the next one goes on from there.
  | .stopped cause rest => (.error cause, moved rest)

/-- The results of reading `n` times in a row, each with the position after it. -/
def parseTimes : Nat → Cursor → List (Except SyntaxError Expr × Nat)
  | 0, _ => []
  | n + 1, c =>
    let (result, c) := c.parse
    (result, c.position) :: parseTimes n c

end Cursor

/-- The expression that a token list spells. -/
def ofTokens (ts : List Token) : Except SyntaxError Expr :=
  (Cursor.start ts).parse.1

end Expr

end Visibility
