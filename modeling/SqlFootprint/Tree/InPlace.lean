import SqlFootprint.Tree.Outline
import SqlFootprint.Tree.TokenTree

/-!
# Reading a stored tree in place

A stored tree is read by position, each entry where it stands in the table. Where a position has no
entry, or a sequence of positions no such place or part, the reading is stopped by a fault. It never
ends where positions lead round in a ring: there, it nests deeper than there are entries. `Access`
tells these apart from a value.
-/

namespace SqlFootprint

/-- The entry as a node by itself: its kind without operands, its text and no children. -/
def Entry.alone (entry : Entry) : Node :=
  .leaf (entry.kind.resolve fun _ ↦ (none : Option Node)) entry.text

namespace InPlace

/-- What stops a reading. -/
inductive Fault where
  /-- There is no entry at a position. -/
  | noEntry
  /-- A sequence has no such place. -/
  | noPlace
  /-- A part of a sequence stops before its start or behind the sequence. -/
  | noPart
  /-- A `CASE` ends that is not open. -/
  | noCase
  deriving DecidableEq, Repr

/-- A reading that gives a value, is stopped by a fault, or never ends. -/
abbrev Access (α : Type) := ExceptT Fault Option α

/-- A reading that never ends. -/
def unending {α : Type} : Access α := ExceptT.mk none

/-! ### Sequences -/

/-- The position at a place of a sequence. -/
def placeAt (sequence : List Nat) (place : Nat) : Access Nat :=
  match sequence[place]? with
  | some position => pure position
  | none => throw .noPlace

/-- The part of a sequence from a place up to another one. -/
def part (sequence : List Nat) (start stop : Nat) : Access (List Nat) :=
  if start ≤ stop ∧ stop ≤ sequence.length then pure ((sequence.take stop).drop start)
  else throw .noPart

/-- The first of the places at which a position passes a test. -/
def findPlace (test : Nat → Access Bool) (sequence places : List Nat) : Access (Option Nat) :=
  places.findM? fun place ↦ do test (← placeAt sequence place)

variable (tree : TokenTree)

/-! ### Entries -/

/-- The entry at a position. -/
def entryAt (position : Nat) : Access Entry :=
  match tree.entries[position]? with
  | some entry => pure entry
  | none => throw .noEntry

/-- The entry at a position passes a test. -/
def testAt (test : Node → Bool) (position : Nat) : Access Bool :=
  return test (← entryAt tree position).alone

/-- There is an entry at a position, and it passes a test. -/
def isThere (test : Node → Bool) (position : Nat) : Bool :=
  tree.entries[position]?.any fun entry ↦ test entry.alone

/-- The first place of a sequence at which a test is passed. -/
def firstPlace (test : Node → Bool) (sequence : List Nat) : Access (Option Nat) :=
  findPlace (testAt tree test) sequence (List.range' 0 sequence.length)

/-- The closest place before a place at which an entry stands that is no blank. -/
def prevSignificant (sequence : List Nat) (place : Nat) : Access (Option Nat) :=
  findPlace (fun position ↦ pure (isThere tree (!·.isBlank) position)) sequence
    (List.range' 0 (min place sequence.length)).reverse

/-- The closest place after a place at which an entry stands that is no blank. -/
def nextSignificant (sequence : List Nat) (place : Nat) : Access (Option Nat) :=
  findPlace (fun position ↦ pure (isThere tree (!·.isBlank) position)) sequence
    (List.range' (place + 1) (sequence.length - (place + 1)))

/-- A place is there, and the entry at it passes a test. -/
def testPlace? (test : Node → Bool) (sequence : List Nat) : Option Nat → Access Bool
  | some place => do testAt tree test (← placeAt sequence place)
  | none => return false

/-- The closest entry before a place that is no blank passes a test. -/
def testBefore (test : Node → Bool) (sequence : List Nat) (place : Nat) : Access Bool := do
  testPlace? tree test sequence (← prevSignificant tree sequence place)

/-- The closest entry after a place that is no blank passes a test. -/
def testAfter (test : Node → Bool) (sequence : List Nat) (place : Nat) : Access Bool := do
  testPlace? tree test sequence (← nextSignificant tree sequence place)

/-! ### Lists -/

/-- The items of a list, without marks and blanks; any other entry is its own item. -/
def items (position : Nat) : List Nat :=
  match tree.entries[position]? with
  | some entry =>
    if entry.alone.isList then
      entry.children.filter (isThere tree fun child ↦ !child.isBlank && !child.isAnyPunctuation)
    else [position]
  | none => []

/-- The last parts of the names among the items at a position. -/
def realNames (position : Nat) : Access (List String) := do
  let entries ← (items tree position).mapM (entryAt tree)
  return entries.filterMap fun entry ↦ entry.alone.identifier?.map Identifier.name

/-! ### The statement as a whole -/

/-- The text of the statement. -/
def text : String :=
  String.join (tree.roots.filterMap fun root ↦ tree.entries[root]?.map Entry.text)

/-- The outline of the entries at positions and of what they show, down to so many levels. -/
def outlineOfAll (levels depth : Nat) : List Nat → Access String
  | [] => return ""
  | position :: rest => do
    let lines ← match tree.entries[position]? with
      | none => pure ""
      | some entry =>
        if entry.alone.isBlank then pure ""
        else do
          let inner ← if Node.opensOutline entry.kind then
              -- A chain of entries longer than the table meets one of them again, and goes round.
              match levels with
              | 0 => unending
              | levels + 1 => outlineOfAll levels (depth + 1) entry.children
            else pure ""
          pure (Node.outlineLine depth entry.kind.label entry.text ++ inner)
    return lines ++ (← outlineOfAll levels depth rest)
termination_by positions => (levels, positions)

/-- The outline of the statement. -/
def outline : Access String := outlineOfAll tree tree.entries.size 0 tree.roots

end InPlace

end SqlFootprint
