import SqlFootprint.Dialect

/-!
# Numbers

A number has digits, at most one point, an exponent only if it has digits of its own, and a
letter `L` that marks it as long. `0x` starts the digits of a hexadecimal string, a point alone is
a period, and in a dialect whose words may start with digits the characters of a word turn the
number into one.
-/

namespace SqlFootprint.Lexer

/-- The digits at the front of the characters. -/
def digitsOf (cs : List Char) : List Char := cs.takeWhile Char.isDigit

/-- The mark of an exponent and its sign, whether or not digits follow. -/
def exponentMark : List Char → List Char
  | e :: sign :: _ =>
    if e == 'e' || e == 'E' then if sign == '+' || sign == '-' then [e, sign] else [e] else []
  | [e] => if e == 'e' || e == 'E' then [e] else []
  | [] => []

/-- An exponent with its digits. -/
def exponentOf (cs : List Char) : List Char :=
  let mark := exponentMark cs
  let digits := digitsOf (cs.drop mark.length)
  if mark = [] ∨ digits = [] then [] else mark ++ digits

/-- The digits and the point of a number. -/
def mantissaOf (cs : List Char) : List Char :=
  let whole := digitsOf cs
  match cs.drop whole.length with
  | '.' :: rest => whole ++ '.' :: digitsOf rest
  | _ => whole

/-- A number whose mantissa was read, with what follows the mantissa. -/
def numberAfter (mantissa rest : List Char) : Token × List Char :=
  let exponent := exponentOf rest
  let digits := String.ofList (mantissa ++ exponent)
  match rest.drop exponent.length with
  | 'L' :: rest => (.number digits true, rest)
  | rest => (.number digits false, rest)

/-- A number or, where words may start with digits, such a word. -/
def numberOrWord (lexicon : Lexicon) (mantissa rest : List Char) : Token × List Char :=
  let tail := rest.takeWhile lexicon.continuesWord
  if lexicon.numericWords ∧ exponentMark rest = [] ∧ tail ≠ [] then
    (.word ⟨String.ofList (mantissa ++ tail), none⟩, rest.drop tail.length)
  else numberAfter mantissa rest

/-- What stands at the front of characters that start with a digit or a point. -/
def numberAt (lexicon : Lexicon) : List Char → Token × List Char
  | '0' :: 'x' :: rest =>
    let digits := rest.takeWhile Text.isHexDigit
    (.string .hexadecimal (String.ofList digits), rest.drop digits.length)
  | cs =>
    let mantissa := mantissaOf cs
    if mantissa = ['.'] then (.period, cs.drop 1)
    else numberOrWord lexicon mantissa (cs.drop mantissa.length)

private theorem numberAfter_length (mantissa rest : List Char) :
    (numberAfter mantissa rest).2.length ≤ rest.length := by
  simp only [numberAfter]
  split
  · next hdrop =>
    have hlen := congrArg List.length hdrop
    simp only [List.length_drop, List.length_cons] at hlen
    simp only
    omega
  · simp

private theorem numberOrWord_length (lexicon : Lexicon) (mantissa rest : List Char) :
    (numberOrWord lexicon mantissa rest).2.length ≤ rest.length := by
  simp only [numberOrWord]
  split
  · simp
  · exact numberAfter_length mantissa rest

private theorem mantissaOf_pos {c : Char} {cs : List Char} (h : c = '.' ∨ c.isDigit = true) :
    0 < (mantissaOf (c :: cs)).length := by
  simp only [mantissaOf, digitsOf, List.takeWhile_cons]
  rcases h with rfl | h
  · simp
  · simp only [h]
    split <;> simp

/-- A digit or a point is always read. -/
theorem numberAt_length {lexicon : Lexicon} {c : Char} {cs : List Char}
    (h : c = '.' ∨ c.isDigit = true) :
    (numberAt lexicon (c :: cs)).2.length ≤ cs.length := by
  unfold numberAt
  split
  · next heq =>
    cases heq
    simp
    omega
  · have hpos := @mantissaOf_pos c cs h
    dsimp only
    split
    · simp
    · refine Nat.le_trans (numberOrWord_length _ _ _) ?_
      simp only [List.length_drop, List.length_cons]
      omega

end SqlFootprint.Lexer
