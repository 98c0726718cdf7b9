import SqlFootprint.Lexer.Scan

/-!
# Lexing a text

The tokens of a text in a dialect, or the first fault with its line and column.
-/

namespace SqlFootprint.Lexer

/-- The tokens of the characters, up to the first fault. -/
def tokensOf (lexicon : Lexicon) : List Char → Except Halt (List Token)
  | [] => .ok []
  | c :: cs =>
    match h : scan lexicon c cs with
    | .error halt => .error halt
    | .ok (token, rest) =>
      have := scan_length h
      (tokensOf lexicon rest).map (token :: ·)
termination_by cs => cs.length
decreasing_by simp only [List.length_cons]; omega

/-- The tokens of a text in a dialect. -/
def tokens (dialect : Dialect) (text : String) : Except Error (List Token) :=
  (tokensOf dialect.lexicon text.toList).mapError (Halt.locate text.toList)

end SqlFootprint.Lexer
