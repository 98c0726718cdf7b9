import SqlFootprint.Lexer.Body

/-!
# Strings with escapes

Two forms of string read escapes that stand for code points: `E'..'` and `U&'..'`. An `E` string
fails as a whole, a `U&` string at the character that makes it fail.
-/

namespace SqlFootprint.Lexer

/-- The character of a code point, unless there is none. -/
def charOfCode? (code : Nat) : Option Char :=
  if code.isValidChar then some (Char.ofNat code) else none

/-- The number that a list of digits stands for, if each is a digit of the base. -/
def numeral? (base : Nat) : Nat → List Char → Option Nat
  | value, [] => some value
  | value, c :: rest =>
    match Text.hexValue? c with
    | some digit => if digit < base then numeral? base (value * base + digit) rest else none
    | none => none

/-- Digits without the plus sign that may lead them. -/
def withoutPlus : List Char → List Char
  | '+' :: digits => digits
  | digits => digits

/-- The character written with a fixed number of hexadecimal digits; a plus sign may lead. -/
def codePoint? (width : Nat) (cs : List Char) : Option (Char × List Char) :=
  if cs.length < width then none
  else ((numeral? 16 0 (withoutPlus (cs.take width))).bind charOfCode?).map
    fun c ↦ (c, cs.drop width)

/-- The ASCII character of a numeral, which counts modulo 256. -/
def asciiOfNumeral? (base : Nat) (digits : List Char) : Option Char :=
  (numeral? base 0 digits).bind fun n ↦
    if n % 256 < 128 then some (Char.ofNat (n % 256)) else none

/-- What follows `\x`: at most two hexadecimal digits, or the letter itself. -/
def hexEscape? (cs : List Char) : Option (Char × List Char) :=
  let digits := (cs.take 2).takeWhile Text.isHexDigit
  if digits = [] then some ('x', cs)
  else (asciiOfNumeral? 16 digits).map fun c ↦ (c, cs.drop digits.length)

/-- What follows a backslash and an octal digit: at most two more. -/
def octalEscape? (first : Char) (cs : List Char) : Option (Char × List Char) :=
  let digits := (cs.take 2).takeWhile Text.isOctalDigit
  (asciiOfNumeral? 8 (first :: digits)).map fun c ↦ (c, cs.drop digits.length)

/-- What follows a backslash in an `E` string. -/
def escape? : List Char → Option (Char × List Char)
  | [] => none
  | 'b' :: rest => some ('\x08', rest)
  | 'f' :: rest => some ('\x0c', rest)
  | 'n' :: rest => some ('\n', rest)
  | 'r' :: rest => some ('\r', rest)
  | 't' :: rest => some ('\t', rest)
  | 'u' :: rest => codePoint? 4 rest
  | 'U' :: rest => codePoint? 8 rest
  | 'x' :: rest => hexEscape? rest
  | c :: rest => if Text.isOctalDigit c then octalEscape? c rest else some (c, rest)

private theorem codePoint?_length {width : Nat} {cs : List Char} {c : Char} {rest : List Char}
    (h : codePoint? width cs = some (c, rest)) : rest.length ≤ cs.length := by
  unfold codePoint? at h
  split at h
  · cases h
  · obtain ⟨d, _, h⟩ := Option.map_eq_some_iff.1 h
    cases h
    exact (List.drop_suffix _ _).length_le

private theorem hexEscape?_length {cs : List Char} {c : Char} {rest : List Char}
    (h : hexEscape? cs = some (c, rest)) : rest.length ≤ cs.length := by
  unfold hexEscape? at h
  dsimp only at h
  split at h
  · cases h
    exact Nat.le_refl _
  · obtain ⟨d, _, h⟩ := Option.map_eq_some_iff.1 h
    cases h
    exact (List.drop_suffix _ _).length_le

private theorem octalEscape?_length {first : Char} {cs : List Char} {c : Char} {rest : List Char}
    (h : octalEscape? first cs = some (c, rest)) : rest.length ≤ cs.length := by
  obtain ⟨d, _, h⟩ := Option.map_eq_some_iff.1 h
  cases h
  exact (List.drop_suffix _ _).length_le

/-- An escape takes at least one character. -/
theorem escape?_length {cs : List Char} {c : Char} {rest : List Char}
    (h : escape? cs = some (c, rest)) : rest.length < cs.length := by
  unfold escape? at h
  split at h
  · cases h
  iterate 5
    · cases h
      exact Nat.lt_succ_self _
  · exact Nat.lt_succ_of_le (codePoint?_length h)
  · exact Nat.lt_succ_of_le (codePoint?_length h)
  · exact Nat.lt_succ_of_le (hexEscape?_length h)
  · split at h
    · exact Nat.lt_succ_of_le (octalEscape?_length h)
    · cases h
      exact Nat.lt_succ_self _

/-- The body of an `E` string; no escape may stand for the null character. -/
def escapedBody? : List Char → Option Body
  | [] => none
  | '\'' :: '\'' :: rest => (escapedBody? rest).map (.cons '\'')
  | '\'' :: rest => some ([], rest)
  | '\\' :: cs =>
    match h : escape? cs with
    | some (c, rest) =>
      have := escape?_length h
      if c = '\x00' then none else (escapedBody? rest).map (.cons c)
    | none => none
  | c :: rest => (escapedBody? rest).map (.cons c)
termination_by cs => cs.length
decreasing_by all_goals simp only [List.length_cons]; omega

theorem escapedBody?_length {cs : List Char} {body : Body} (h : escapedBody? cs = some body) :
    body.2.length ≤ cs.length := by
  fun_induction escapedBody? cs generalizing body with
  | case1 => cases h
  | case2 rest ih =>
    exact Nat.le_succ_of_le (Nat.le_succ_of_le (Body.length_of_map_cons h ih))
  | case3 rest =>
    cases h
    exact Nat.le_succ _
  | case4 => cases h
  | case5 cs c rest _ hrest _ ih =>
    exact Nat.le_trans (Body.length_of_map_cons h ih) (Nat.le_of_lt (Nat.lt_succ_of_lt hrest))
  | case6 => cases h
  | case7 c rest _ _ _ ih => exact Nat.le_succ_of_le (Body.length_of_map_cons h ih)

/-- The character written with exactly `digits` more hexadecimal digits. -/
def hexCode (digits value : Nat) (cs : List Char) : Except Halt (Char × List Char) :=
  match digits, cs with
  | 0, cs =>
    match charOfCode? value with
    | some c => .ok (c, cs)
    | none => .error ⟨.badCodePoint value, cs⟩
  | _ + 1, [] => .error ⟨.missingHexDigit, []⟩
  | digits + 1, c :: rest =>
    match Text.hexValue? c with
    | some digit => hexCode digits (value * 16 + digit) rest
    | none => .error ⟨.badHexDigit c, rest⟩

theorem hexCode_length {digits value : Nat} {cs : List Char} {c : Char} {rest : List Char}
    (h : hexCode digits value cs = .ok (c, rest)) : rest.length ≤ cs.length := by
  fun_induction hexCode digits value cs with
  | case1 =>
    cases h
    exact Nat.le_refl _
  | case2 => cases h
  | case3 => cases h
  | case4 _ _ _ _ _ _ ih => exact Nat.le_succ_of_le (ih h)
  | case5 => cases h

/-- The body of a `U&` string. -/
def unicodeBody : List Char → Except Halt Body
  | [] => .error ⟨.unterminatedUnicodeString, []⟩
  | '\'' :: '\'' :: rest => (unicodeBody rest).map (.cons '\'')
  | '\'' :: rest => .ok ([], rest)
  | '\\' :: '\\' :: rest => (unicodeBody rest).map (.cons '\\')
  | '\\' :: '+' :: cs =>
    match h : hexCode 6 0 cs with
    | .ok (c, rest) =>
      have := hexCode_length h
      (unicodeBody rest).map (.cons c)
    | .error halt => .error halt
  | '\\' :: cs =>
    match h : hexCode 4 0 cs with
    | .ok (c, rest) =>
      have := hexCode_length h
      (unicodeBody rest).map (.cons c)
    | .error halt => .error halt
  | c :: rest => (unicodeBody rest).map (.cons c)
termination_by cs => cs.length
decreasing_by all_goals simp only [List.length_cons]; omega

private theorem Body.length_of_map_cons_ok {c : Char} {inner : Except Halt Body} {body : Body}
    {n : Nat}
    (h : inner.map (.cons c) = .ok body) (hn : ∀ {b}, inner = .ok b → b.2.length ≤ n) :
    body.2.length ≤ n := by
  cases inner with
  | error halt => cases h
  | ok b =>
    cases h
    exact @hn b rfl

theorem unicodeBody_length {cs : List Char} {body : Body} (h : unicodeBody cs = .ok body) :
    body.2.length ≤ cs.length := by
  fun_induction unicodeBody cs generalizing body with
  | case1 => cases h
  | case2 rest ih =>
    exact Nat.le_succ_of_le (Nat.le_succ_of_le (Body.length_of_map_cons_ok h ih))
  | case3 rest =>
    cases h
    exact Nat.le_succ _
  | case4 rest ih =>
    exact Nat.le_succ_of_le (Nat.le_succ_of_le (Body.length_of_map_cons_ok h ih))
  | case5 cs c rest _ hrest ih =>
    exact Nat.le_trans (Body.length_of_map_cons_ok h ih)
      (Nat.le_succ_of_le (Nat.le_succ_of_le hrest))
  | case6 => cases h
  | case7 cs _ _ c rest _ hrest ih =>
    exact Nat.le_trans (Body.length_of_map_cons_ok h ih) (Nat.le_succ_of_le hrest)
  | case8 => cases h
  | case9 c rest _ _ _ _ _ ih => exact Nat.le_succ_of_le (Body.length_of_map_cons_ok h ih)

end SqlFootprint.Lexer
