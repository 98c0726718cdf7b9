import SqlFootprint.Token

/-!
# Statements of a script

A script is cut after every semicolon outside parentheses. `flatten_segments` says that the pieces
in a row are the script again; pieces with nothing but blanks and semicolons are no statements.
-/

namespace SqlFootprint

/-- How deep in parentheses the next token stands; a parenthesis too many closes nothing. -/
def Token.depthAfter (depth : Nat) : Token → Nat
  | openParen => depth + 1
  | closeParen => depth - 1
  | _ => depth

/-- The token says something: it is no blank, no semicolon and not the end of the input. -/
def Token.isContent : Token → Bool
  | blank _ | semicolon | endOfInput => false
  | _ => true

namespace Script

/-- Put a token before the first piece. -/
def pushFront (token : Token) : List (List Token) → List (List Token)
  | [] => [[token]]
  | piece :: rest => (token :: piece) :: rest

/-- The pieces of a script, each but the last up to its semicolon outside parentheses. -/
def segments (depth : Nat) : List Token → List (List Token)
  | [] => [[]]
  | token :: rest =>
    if depth = 0 ∧ token = .semicolon then [token] :: segments 0 rest
    else pushFront token (segments (token.depthAfter depth) rest)

/-- The statements of a script: the pieces that say something. -/
def split (tokens : List Token) : List (List Token) :=
  (segments 0 tokens).filter fun piece ↦ piece.any Token.isContent

@[simp] theorem flatten_pushFront (token : Token) (pieces : List (List Token)) :
    (pushFront token pieces).flatten = token :: pieces.flatten := by
  cases pieces <;> rfl

/-- The pieces in a row are the script. -/
theorem flatten_segments (depth : Nat) (tokens : List Token) :
    (segments depth tokens).flatten = tokens := by
  induction tokens generalizing depth with
  | nil => rfl
  | cons token rest ih =>
    unfold segments
    split
    · simp [ih]
    · simp [ih]

end Script

end SqlFootprint
