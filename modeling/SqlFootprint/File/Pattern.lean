/-!
# Patterns of names

A pattern matches one name: `?` any character, `*` any characters, `[..]` and `[!..]` the
characters listed or the others. `**` stands alone between slashes and means any directories. A
pattern that breaks these rules has a fault with the place of the character that breaks them.
-/

namespace SqlFootprint.Pattern

/-- What can be wrong with a pattern. -/
inductive Fault where
  | tooManyStars
  | starsBesideName
  | badRange
  deriving DecidableEq, Repr

/-- The wording of a fault of a pattern. -/
def Fault.message : Fault → String
  | tooManyStars => "wildcards are either regular \x60*\x60 or recursive \x60**\x60"
  | starsBesideName => "recursive wildcards must form a single path component"
  | badRange => "invalid range pattern"

/-- A fault and the place of the character that it is about. -/
structure Error where
  fault : Fault
  position : Nat
  deriving DecidableEq, Repr

/-- The wording of a fault of a pattern with its place. -/
def Error.message (error : Error) : String :=
  "Pattern syntax error near position " ++ toString error.position ++ ": " ++
    error.fault.message

/-- The characters listed between brackets. -/
inductive CharRange where
  | single (c : Char)
  | span (first last : Char)
  deriving DecidableEq, Repr

/-- A character is one of those listed. -/
def CharRange.holds (c : Char) : CharRange → Bool
  | single d => c == d
  | span first last => first ≤ c && c ≤ last

/-- An element of a pattern. -/
inductive Element where
  | char (c : Char)
  | anyChar
  | anyChars
  | anyDirectories
  | oneOf (ranges : List CharRange)
  | noneOf (ranges : List CharRange)
  deriving DecidableEq, Repr

/-- The characters and spans listed between brackets. -/
def rangesOf : List Char → List CharRange
  | first :: '-' :: last :: rest => .span first last :: rangesOf rest
  | c :: rest => .single c :: rangesOf rest
  | [] => []

/-- The characters up to a closing bracket, which the first of them never is, and how many
characters there are up to the bracket and with it. -/
def bracketed? : List Char → Option (List Char × Nat)
  | [] => none
  | first :: rest =>
    let inside := rest.takeWhile (· != ']')
    if inside.length < rest.length then some (first :: inside, inside.length + 2) else none

/-- An opening bracket was read: the element, and how many more characters it takes. -/
def bracketElement? : List Char → Option (Element × Nat)
  | '!' :: rest =>
    (bracketed? rest).map fun (inside, count) ↦ (.noneOf (rangesOf inside), count + 1)
  | cs => (bracketed? cs).map fun (inside, count) ↦ (.oneOf (rangesOf inside), count)

/-- Two stars in a row stand at `position` after the character `before`; `rest` follows them. How
many characters they take: a following slash goes with them. -/
def doubleStar (position : Nat) (before : Option Char) (rest : List Char) : Except Error Nat :=
  if before = none ∨ before = some '/' then
    match rest.head? with
    | none => .ok 2
    | some '/' => .ok 3
    | some _ => .error ⟨.starsBesideName, position + 2⟩
  else .error ⟨.starsBesideName, position - 1⟩

/-- The elements of a pattern from a position on; `before` is the character before it. -/
def elementsFrom (position : Nat) (before : Option Char) :
    List Char → Except Error (List Element)
  | [] => .ok []
  | '?' :: rest => (elementsFrom (position + 1) (some '?') rest).map (.anyChar :: ·)
  | '*' :: rest =>
    let stars := 1 + (rest.takeWhile (· == '*')).length
    if stars > 2 then .error ⟨.tooManyStars, position + 2⟩
    else if stars = 2 then
      match doubleStar position before (rest.drop 1) with
      | .error error => .error error
      | .ok count =>
        (elementsFrom (position + count) (('*' :: rest)[count - 1]?)
          (rest.drop (count - 1))).map (.anyDirectories :: ·)
    else (elementsFrom (position + 1) (some '*') rest).map (.anyChars :: ·)
  | '[' :: rest =>
    match bracketElement? rest with
    | none => .error ⟨.badRange, position⟩
    | some (element, count) =>
      (elementsFrom (position + 1 + count) (some ']') (rest.drop count)).map (element :: ·)
  | c :: rest => (elementsFrom (position + 1) (some c) rest).map (.char c :: ·)
termination_by cs => cs.length
decreasing_by all_goals simp only [List.length_cons, List.length_drop]; omega

/-- The elements of a pattern. -/
def elements (pattern : String) : Except Error (List Element) :=
  elementsFrom 0 none pattern.toList

/-- An element matches one character. -/
def Element.holds (c : Char) : Element → Bool
  | char d => c == d
  | anyChar => true
  | anyChars | anyDirectories => false
  | oneOf ranges => ranges.any (·.holds c)
  | noneOf ranges => !ranges.any (·.holds c)

/-- Elements match a name as a whole. -/
def holds : List Element → List Char → Bool
  | [], [] => true
  | [], _ :: _ => false
  | .anyChars :: rest, [] => holds rest []
  | .anyChars :: rest, c :: cs => holds rest (c :: cs) || holds (.anyChars :: rest) cs
  | .anyDirectories :: rest, [] => holds rest []
  | .anyDirectories :: rest, c :: cs => holds rest (c :: cs) || holds (.anyDirectories :: rest) cs
  | _ :: _, [] => false
  | element :: rest, c :: cs => element.holds c && holds rest cs

end SqlFootprint.Pattern
