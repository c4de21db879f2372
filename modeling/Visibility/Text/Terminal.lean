/-!
# Text for a terminal

How lines become the text that a command writes.  Control sequences, with which a text could ask a
terminal for a colour or a cursor movement, are left out of a line, and every line ends in a single
line feed.

A control sequence is an escape character and an opening bracket, then parameters, then intermediate
characters, and one final character; what has no final character is no control sequence and stays.
Main statement: a line without escape characters is written as it is.
-/

namespace Visibility.Text

/-! ## §1 Control sequences -/

/-- A parameter of a control sequence. -/
def isControlParameter (c : Char) : Bool :=
  '0' ≤ c && c ≤ '?'

/-- An intermediate character of a control sequence. -/
def isControlIntermediate (c : Char) : Bool :=
  ' ' ≤ c && c ≤ '/'

/-- The character that ends a control sequence. -/
def isControlFinal (c : Char) : Bool :=
  '@' ≤ c && c ≤ '~'

/-- What follows the control sequence at the front of a text, if there is one. -/
def afterControl? : List Char → Option (List Char)
  | '\x1b' :: '[' :: cs =>
    match (cs.dropWhile isControlParameter).dropWhile isControlIntermediate with
    | c :: rest => if isControlFinal c then some rest else none
    | [] => none
  | _ => none

theorem afterControl?_length {cs rest : List Char} (h : afterControl? cs = some rest) :
    rest.length < cs.length := by
  unfold afterControl? at h
  split at h
  · rename_i cs
    split at h
    · rename_i c after dropped
      split at h
      · cases h
        -- the final character alone is already a loss
        have bound := ((List.dropWhile_sublist isControlIntermediate).trans
          (List.dropWhile_sublist isControlParameter (l := cs))).length_le
        rw [dropped] at bound
        simp only [List.length_cons] at bound ⊢
        omega
      · cases h
    · cases h
  · cases h

/-- A text without its control sequences.  What is left is not looked at again. -/
def dropControls (cs : List Char) : List Char :=
  match h : afterControl? cs with
  | some rest =>
    have := afterControl?_length h
    dropControls rest
  | none =>
    match cs with
    | [] => []
    | c :: cs => c :: dropControls cs
termination_by cs.length

theorem dropControls_cons {c : Char} (h : c ≠ '\x1b') (cs : List Char) :
    dropControls (c :: cs) = c :: dropControls cs := by
  have none : afterControl? (c :: cs) = none := by
    unfold afterControl?
    split
    · rename_i eq
      exact absurd (List.cons.inj eq).1 h
    · rfl
  rw [dropControls]
  split
  · rename_i found
    rw [none] at found
    cases found
  · rfl

/-- Nothing is dropped in front of the first escape character. -/
theorem dropControls_append {cs : List Char} (h : '\x1b' ∉ cs) (ds : List Char) :
    dropControls (cs ++ ds) = cs ++ dropControls ds := by
  induction cs with
  | nil => rfl
  | cons c cs ih =>
    simp only [List.mem_cons, not_or] at h
    rw [List.cons_append, dropControls_cons (Ne.symm h.1), ih h.2, List.cons_append]

theorem dropControls_of_not_mem {cs : List Char} (h : '\x1b' ∉ cs) : dropControls cs = cs := by
  have nil : dropControls [] = [] := by
    rw [dropControls]
    rfl
  have dropped := dropControls_append h []
  rwa [nil, List.append_nil] at dropped

/-- A line without its control sequences. -/
def withoutControls (line : String) : String :=
  String.ofList (dropControls line.toList)

theorem withoutControls_append {s : String} (h : '\x1b' ∉ s.toList) (t : String) :
    withoutControls (s ++ t) = s ++ withoutControls t := by
  rw [withoutControls, String.toList_append, dropControls_append h, String.ofList_append,
    String.ofList_toList, withoutControls]

/-- A line without escape characters is written as it is. -/
theorem withoutControls_of_not_mem {line : String} (h : '\x1b' ∉ line.toList) :
    withoutControls line = line := by
  rw [withoutControls, dropControls_of_not_mem h, String.ofList_toList]

/-! ## §2 Lines -/

/-- Writes a carriage return with a line feed after it as the line feed alone. -/
def unifyLineEnds : List Char → List Char
  | [] => []
  | '\r' :: '\n' :: cs => '\n' :: unifyLineEnds cs
  | c :: cs => c :: unifyLineEnds cs

/-- The text of lines. -/
def ofLines (lines : List String) : String :=
  String.ofList (unifyLineEnds ((lines.map fun line => line.toList ++ ['\n']).flatten))

end Visibility.Text
