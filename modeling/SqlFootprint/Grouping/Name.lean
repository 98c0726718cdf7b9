import SqlFootprint.Keyword
import SqlFootprint.Token
import SqlFootprint.Tree.Node

/-!
# Words and dotted names

Whether a word is a value, a keyword or the start of a name, and the dotted name that starts with
a word. A name goes on over a period and a word or a star with nothing between; a part that is a
star ends it. `DottedName.identifier_fullName` says that the identifier of a dotted name has the
values of all parts as its full name.
-/

namespace SqlFootprint.Grouping

/-- What a word is in a statement. -/
inductive WordRole where
  | value
  | keyword
  | name
  deriving DecidableEq, Repr

/-- The role of a word; a parenthesis right after it makes a name of a callable keyword. -/
def wordRole (word : Word) (rest : List Token) : WordRole :=
  if word.quote.isSome then .name
  else if Keyword.isLiteral word.value then .value
  else if Keyword.isStructural word.value &&
      !(rest.head? == some .openParen && Keyword.isCallable word.value) then .keyword
  else .name

/-- A part of a dotted name. -/
structure NamePart where
  value : String
  /-- The part as it is shown, between its delimiters. -/
  text : String
  quoted : Bool
  deriving DecidableEq, Repr

/-- The part that a word makes. -/
def NamePart.ofWord (word : Word) : NamePart := ⟨word.value, word.render, word.quote.isSome⟩

/-- The parts that follow the first one; each is a period and one more token. -/
def furtherParts : List Token → List NamePart
  | .period :: .word word :: rest =>
    if word.value = "*" then [.ofWord word] else .ofWord word :: furtherParts rest
  | .period :: .star :: _ => [⟨"*", "*", false⟩]
  | _ => []

/-- A name of one part or more. -/
structure DottedName where
  first : NamePart
  further : List NamePart
  deriving DecidableEq, Repr

namespace DottedName

/-- The name that starts with a word. -/
def read (word : Word) (rest : List Token) : DottedName := ⟨.ofWord word, furtherParts rest⟩

/-- All parts in their order. -/
def parts (name : DottedName) : List NamePart := name.first :: name.further

/-- How many tokens follow the first word in the name. -/
def furtherTokens (name : DottedName) : Nat := 2 * name.further.length

/-- The parts with periods between them, each by the given text. -/
def joined (text : NamePart → String) (name : DottedName) : String :=
  ".".intercalate (name.parts.map text)

/-- The last part. -/
def last (name : DottedName) : NamePart := name.further.getLastD name.first

/-- The parts before the last. -/
def initial (name : DottedName) : List NamePart := name.parts.dropLast

/-- The name without delimiters. -/
def identifier (name : DottedName) : Identifier where
  name := name.last.value
  qualifier :=
    if name.initial = [] then none
    else some (".".intercalate (name.initial.map NamePart.value))

/-- The node of the name. -/
def node (name : DottedName) : Node :=
  .leaf (.identifier name.identifier) (name.joined NamePart.text)

/-- The parts are those before the last, and the last. -/
theorem parts_eq (name : DottedName) : name.parts = name.initial ++ [name.last] := by
  obtain ⟨first, further⟩ := name
  have hlast : (first :: further).getLast (by simp) = further.getLastD first := by
    cases further with
    | nil => rfl
    | cons part rest => simp [List.getLastD_eq_getLast?, List.getLast?_eq_some_getLast]
  simp only [parts, initial, last]
  rw [← hlast, List.dropLast_concat_getLast]

/-- The full name of the identifier is the values of all parts with periods between them. -/
theorem identifier_fullName (name : DottedName) :
    name.identifier.fullName = name.joined NamePart.value := by
  simp only [Identifier.fullName, identifier, joined, parts_eq, List.map_append, List.map_cons,
    List.map_nil]
  split
  · next qualifier h =>
    split at h
    · cases h
    · next hne =>
      cases h
      rw [String.intercalate_append_of_ne_nil (by simpa using hne) (by simp)]
      simp
  · next h =>
    split at h
    · next hnil => simp [hnil]
    · cases h

end DottedName

end SqlFootprint.Grouping
