/-!
# Why a text has no tokens

The ways in which a lexer fails and the place where each is reported. A scanner reports a fault
with the characters not yet read at that place (`Halt`); `Position.before` turns them into a line
and a column of the whole text.
-/

namespace SqlFootprint.Lexer

/-- The ways in which a lexer fails. -/
inductive Fault where
  | unterminatedString
  | unterminatedEscapedString
  | unterminatedUnicodeString
  | unterminatedDollarString
  | unterminatedTaggedString
  | unterminatedComment
  | unclosedWord (closing : Char)
  | badHexDigit (digit : Char)
  | missingHexDigit
  | badCodePoint (code : Nat)
  deriving DecidableEq, Repr

/-- The wording of a fault. -/
def Fault.message : Fault → String
  | unterminatedString => "Unterminated string literal"
  | unterminatedEscapedString => "Unterminated encoded string literal"
  | unterminatedUnicodeString => "Unterminated unicode encoded string literal"
  | unterminatedDollarString => "Unterminated dollar-quoted string"
  | unterminatedTaggedString => "Unterminated dollar-quoted, expected $"
  | unterminatedComment => "Unexpected EOF while in a multi-line comment"
  | unclosedWord closing =>
    "Expected close delimiter '" ++ String.singleton closing ++ "' before EOF."
  | badHexDigit digit =>
    "Invalid hex digit in escaped unicode string: " ++ String.singleton digit
  | missingHexDigit => "Unexpected EOF while parsing hex digit in escaped unicode string."
  | badCodePoint code =>
    "Invalid unicode character: " ++ String.ofList (Nat.toDigits 16 code)

/-- A fault together with the characters not yet read where it is reported. -/
structure Halt where
  fault : Fault
  rest : List Char

/-- A line and a column, both counted from one. -/
structure Position where
  line : Nat := 1
  column : Nat := 1
  deriving DecidableEq, Repr

/-- The position after one more character: only a line feed starts a line. -/
def Position.step (position : Position) (c : Char) : Position :=
  if c = '\n' then ⟨position.line + 1, 1⟩ else ⟨position.line, position.column + 1⟩

/-- The position in a text at which only `rest` is left to read. -/
def Position.before (text rest : List Char) : Position :=
  (text.take (text.length - rest.length)).foldl Position.step {}

/-- A fault and its position in the text. -/
structure Error where
  fault : Fault
  position : Position
  deriving DecidableEq, Repr

/-- The wording of a fault with its position. -/
def Error.message (error : Error) : String :=
  error.fault.message ++ " at Line: " ++ toString error.position.line ++ ", Column: " ++
    toString error.position.column

/-- The fault of a halted scanner, placed in the whole text. -/
def Halt.locate (text : List Char) (halt : Halt) : Error :=
  ⟨halt.fault, Position.before text halt.rest⟩

end SqlFootprint.Lexer
