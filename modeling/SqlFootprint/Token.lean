/-!
# Lexical tokens of SQL

What a lexer hands to the grouping of a statement: words, values, blanks, the six marks that
shape a statement, and every other symbol as its text. `Token.render` is the text by which a
token is shown; for a string it is the text after its escapes were read.
-/

namespace SqlFootprint

/-- The delimiters that may enclose a word. -/
inductive Quote where
  | double
  | backtick
  | bracket
  deriving DecidableEq, Repr

namespace Quote

/-- The character that opens a quoted word. -/
def opening : Quote → Char
  | double => '"'
  | backtick => '\x60'
  | bracket => '['

/-- The character that closes a quoted word. -/
def closing : Quote → Char
  | double => '"'
  | backtick => '\x60'
  | bracket => ']'

end Quote

/-- A name or a keyword; `value` is the text between the delimiters, if there are any. -/
structure Word where
  value : String
  quote : Option Quote := none
  deriving DecidableEq, Repr

/-- The word as it is shown, between its delimiters. -/
def Word.render (word : Word) : String :=
  match word.quote with
  | none => word.value
  | some quote => String.singleton quote.opening ++ word.value ++ String.singleton quote.closing

/-- Blanks that separate tokens, comments among them. -/
inductive Blank where
  | space
  | tab
  | newline
  | lineComment (opener text : String)
  | blockComment (text : String)
  deriving DecidableEq, Repr

/-- The blank as it is shown. -/
def Blank.render : Blank → String
  | space => " "
  | tab => "\t"
  | newline => "\n"
  | lineComment opener text => opener ++ text
  | blockComment text => "/*" ++ text ++ "*/"

/-- The forms of a quoted string. -/
inductive StringForm where
  | single
  | double
  | national
  | escaped
  | hexadecimal
  | unicode
  | bytesSingle
  | bytesDouble
  | rawSingle
  | rawDouble
  | rawTripleSingle
  | rawTripleDouble
  deriving DecidableEq, Repr

namespace StringForm

/-- What is shown before the body of a string. -/
def opening : StringForm → String
  | single => "'"
  | double => "\""
  | national => "N'"
  | escaped => "E'"
  | hexadecimal => "X'"
  | unicode => "U&'"
  | bytesSingle => "B'"
  | bytesDouble => "B\""
  | rawSingle => "R'"
  | rawDouble => "R\""
  | rawTripleSingle => "R'''"
  | rawTripleDouble => "R\"\"\""

/-- What is shown after the body of a string. -/
def closing : StringForm → String
  | single | national | escaped | hexadecimal | unicode | bytesSingle | rawSingle => "'"
  | double | bytesDouble | rawDouble => "\""
  | rawTripleSingle => "'''"
  | rawTripleDouble => "\"\"\""

/-- The forms that stand for a value; the others are taken as symbols. -/
def isValue : StringForm → Bool
  | single | double | national | escaped | hexadecimal => true
  | _ => false

end StringForm

/-- A symbol other than the six that have tokens of their own. -/
structure Symbol where
  text : String
  ordinary : text ∉ ["(", ")", ",", ";", ".", "*"] := by decide
  deriving DecidableEq, Repr

/-- A lexical token. -/
inductive Token where
  | word (word : Word)
  | number (digits : String) (long : Bool)
  | string (form : StringForm) (body : String)
  | dollarString (tag : Option String) (body : String)
  | placeholder (text : String)
  | blank (blank : Blank)
  | openParen
  | closeParen
  | comma
  | semicolon
  | period
  | star
  | symbol (symbol : Symbol)
  /-- The end of the input, for token sources that report it. -/
  | endOfInput
  deriving DecidableEq, Repr

namespace Token

/-- The token of a symbol given by its text. -/
def ofSymbolText (text : String) : Token :=
  if h : text ∈ ["(", ")", ",", ";", ".", "*"] then
    if text = "(" then openParen
    else if text = ")" then closeParen
    else if text = "," then comma
    else if text = ";" then semicolon
    else if text = "." then period
    else star
  else symbol ⟨text, h⟩

/-- The text by which a token is shown. -/
def render : Token → String
  | word w => w.render
  | number digits long => if long then digits ++ "L" else digits
  | string form body => form.opening ++ body ++ form.closing
  | dollarString tag body =>
    let fence := "$" ++ tag.getD "" ++ "$"
    fence ++ body ++ fence
  | placeholder text => text
  | blank b => b.render
  | openParen => "("
  | closeParen => ")"
  | comma => ","
  | semicolon => ";"
  | period => "."
  | star => "*"
  | symbol s => s.text
  | endOfInput => "EOF"

/-- The tokens that stand for a value. -/
def isLiteral : Token → Bool
  | number _ _ | dollarString _ _ | placeholder _ => true
  | string form _ => form.isValue
  | _ => false

/-- The tokens that are blanks. -/
def isBlank : Token → Bool
  | blank _ => true
  | _ => false

/-- How deep in parentheses the next token stands; `none` after one that closes nothing. -/
def nestAfter? (depth : Nat) : Token → Option Nat
  | openParen => some (depth + 1)
  | closeParen => if depth = 0 then none else some (depth - 1)
  | _ => some depth

/-- A symbol's token is shown as its text. -/
@[simp] theorem render_ofSymbolText (text : String) : (ofSymbolText text).render = text := by
  unfold ofSymbolText
  split
  · next h =>
    simp only [List.mem_cons, List.not_mem_nil, or_false] at h
    rcases h with h | h | h | h | h | h <;> subst h <;> rfl
  · rfl

end Token

end SqlFootprint
