import SqlFootprint.Dialect

/-!
# Operators

The fixed symbols of SQL, longer ones before their beginnings, so that the first that matches is
the longest. An extensible symbol goes on over all operator characters that follow it in the
dialects that allow operators of their own.
-/

namespace SqlFootprint.Lexer

/-- A fixed symbol. -/
structure Operator where
  text : String
  /-- The text by which the symbol is shown. -/
  shown : String := text
  /-- It may be the beginning of a longer operator. -/
  extensible : Bool := false

/-- The symbols of every dialect, longer ones before their beginnings. -/
def operators : List Operator := [
  ⟨"(", "(", false⟩, ⟨")", ")", false⟩, ⟨",", ",", false⟩, ⟨";", ";", false⟩,
  ⟨"*", "*", false⟩, ⟨"+", "+", false⟩, ⟨"/", "/", false⟩, ⟨"\\", "\\", false⟩,
  ⟨"[", "[", false⟩, ⟨"]", "]", false⟩, ⟨"\x7b", "\x7b", false⟩, ⟨"\x7d", "\x7d", false⟩,
  ⟨"->>", "->>", true⟩, ⟨"->", "->", true⟩, ⟨"-", "-", true⟩,
  ⟨"%", "%", true⟩,
  ⟨"||/", "||/", true⟩, ⟨"||", "||", true⟩, ⟨"|/", "|/", true⟩, ⟨"|", "|", true⟩,
  ⟨"=>", "=>", false⟩, ⟨"==", "==", false⟩, ⟨"=", "=", false⟩,
  ⟨"!=", "<>", false⟩, ⟨"!!", "!!", false⟩, ⟨"!~~*", "!~~*", false⟩, ⟨"!~~", "!~~", false⟩,
  ⟨"!~*", "!~*", false⟩, ⟨"!~", "!~", false⟩, ⟨"!", "!", false⟩,
  ⟨"<=>", "<=>", true⟩, ⟨"<=", "<=", true⟩, ⟨"<>", "<>", true⟩, ⟨"<<", "<<", true⟩,
  ⟨"<@", "<@", true⟩, ⟨"<", "<", true⟩,
  ⟨">=", ">=", true⟩, ⟨">>", ">>", true⟩, ⟨">", ">", true⟩,
  ⟨"::", "::", false⟩, ⟨":=", ":=", false⟩, ⟨":", ":", false⟩,
  ⟨"&&", "&&", true⟩, ⟨"&", "&", true⟩,
  ⟨"^@", "^@", false⟩, ⟨"^", "^", false⟩,
  ⟨"~~*", "~~*", true⟩, ⟨"~~", "~~", true⟩, ⟨"~*", "~*", true⟩, ⟨"~", "~", true⟩,
  ⟨"#-", "#-", true⟩, ⟨"#>>", "#>>", true⟩, ⟨"#>", "#>", true⟩,
  ⟨"@>", "@>", false⟩, ⟨"@?", "@?", false⟩]

/-- The characters that operators are made of. -/
def isOperatorPart (c : Char) : Bool := "+-*/<>=~!@#%^&|\x60?".toList.contains c

/-- The symbols of a dialect. -/
def symbols (lexicon : Lexicon) : List Operator :=
  if lexicon.doubleSlash then ⟨"//", "//", false⟩ :: operators else operators

/-- A symbol and the characters after it, extended where the dialect allows. -/
def extend (lexicon : Lexicon) (operator : Operator) (rest : List Char) :
    Token × List Char :=
  let tail := if operator.extensible && lexicon.customOperators
    then rest.takeWhile isOperatorPart else []
  let text := if tail = [] then operator.shown else operator.text ++ String.ofList tail
  (.ofSymbolText text, rest.drop tail.length)

/-- The longest symbol at the front of the characters. -/
def operatorAt? (lexicon : Lexicon) (cs : List Char) : Option (Token × List Char) :=
  ((symbols lexicon).find? fun operator ↦ operator.text.toList.isPrefixOf cs).map
    fun operator ↦ extend lexicon operator (cs.drop operator.text.length)

theorem extend_length (lexicon : Lexicon) (operator : Operator) (rest : List Char) :
    (extend lexicon operator rest).2.length ≤ rest.length := by
  simp [extend]

/-- Every symbol has at least one character. -/
theorem operator_text_pos (lexicon : Lexicon) :
    ∀ operator ∈ symbols lexicon, 0 < operator.text.length := by
  unfold symbols
  split <;> decide +kernel

theorem operatorAt?_length {lexicon : Lexicon} {cs : List Char} {out : Token × List Char}
    (h : operatorAt? lexicon cs = some out) : out.2.length < cs.length := by
  obtain ⟨operator, hfind, rfl⟩ := Option.map_eq_some_iff.1 h
  have hpos := operator_text_pos lexicon operator (List.mem_of_find?_eq_some hfind)
  have hpre := List.find?_some hfind
  have hle : operator.text.toList.length ≤ cs.length :=
    (List.isPrefixOf_iff_prefix.1 hpre).length_le
  have := extend_length lexicon operator (cs.drop operator.text.length)
  simp only [String.length_toList, List.length_drop] at *
  omega

end SqlFootprint.Lexer
