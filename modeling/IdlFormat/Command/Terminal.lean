import IdlFormat.Text.Basic

/-!
# Control sequences of terminals

What a program writes may end up in a file, so the sequences that make a terminal change colours or
move its cursor are taken out. Such a sequence is an escape character and an opening bracket, then
parameters, then intermediate characters, and one final character; each of the three classes is a
range of ASCII.
-/

namespace IdlFormat

namespace Terminal

/-- The characters of parameters: digits and the punctuation from the colon to the question mark. -/
def isParameter (c : Char) : Bool :=
  0x30 ≤ c.toNat && c.toNat ≤ 0x3F

/-- The characters between parameters and the final character: the space and the punctuation before
the digits. -/
def isIntermediate (c : Char) : Bool :=
  0x20 ≤ c.toNat && c.toNat ≤ 0x2F

/-- The characters that end a control sequence: letters and the punctuation around them. -/
def isFinal (c : Char) : Bool :=
  0x40 ≤ c.toNat && c.toNat ≤ 0x7E

/-- What follows the control sequence that a text starts with. -/
def afterSequence? : Text → Option Text
  | '\x1b' :: '[' :: rest =>
      match (rest.dropWhile isParameter).dropWhile isIntermediate with
      | c :: after => if isFinal c then some after else none
      | [] => none
  | _ => none

theorem length_afterSequence?_lt {text after : Text} (found : afterSequence? text = some after) :
    after.length < text.length := by
  unfold afterSequence? at found
  split at found
  · rename_i rest
    have parameters : (rest.dropWhile isParameter).length ≤ rest.length :=
      (List.dropWhile_sublist _).length_le
    have intermediates : ((rest.dropWhile isParameter).dropWhile isIntermediate).length ≤
        (rest.dropWhile isParameter).length :=
      (List.dropWhile_sublist _).length_le
    split at found
    · rename_i equation
      split at found
      · cases found
        simp only [equation, List.length_cons] at intermediates ⊢
        omega
      · cases found
    · cases found
  · cases found

/-- The text without control sequences. -/
def plain (text : Text) : Text :=
  match text with
  | [] => []
  | c :: rest =>
      match _found : afterSequence? (c :: rest) with
      | some after => plain after
      | none => c :: plain rest
termination_by text.length
decreasing_by
  · exact length_afterSequence?_lt _found
  · simp

end Terminal

end IdlFormat
