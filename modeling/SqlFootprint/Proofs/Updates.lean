import SqlFootprint.Proofs.SetLists
import SqlFootprint.Proofs.TableReferences

/-!
# Updates

An update is a table, assignments after `SET`, and what may follow them: a semicolon, or a condition
with whatever tokens there are after `WHERE`. Its columns are those that are found in its
assignments (`SetUpdate.columnCandidates_eq`), given what becomes of each value.
-/

namespace SqlFootprint

open Grouping
open Columns (untilWhere)

/-! ### Up to the assignments -/

/-- An update of a table up to its assignments. -/
structure UpdateHead where
  /-- The blanks before the update. -/
  before : List Blank
  updateWord : Spelled ["UPDATE"]
  table : Padded TableReference
  setWord : Spelled ["SET"]

namespace UpdateHead

variable (head : UpdateHead)

/-- The tokens of the table and before it. -/
def leadTokens : List Token :=
  Blank.tokens head.before ++ head.updateWord.token :: head.table.tokens (·.phrase.tokens)

/-- The nodes of the table and before it. -/
def lead : List Node :=
  Blank.nodes head.before ++ head.updateWord.node ::
    (Blank.nodes head.table.before ++ head.table.item.phrase.node :: Blank.nodes head.table.after)

/-- The tokens of the update, given those after `SET`. -/
def tokens (assignments : List Token) : List Token :=
  head.leadTokens ++ head.setWord.token :: assignments

/-- The tokens up to `SET` are grouped on their own. -/
theorem makes_lead : Makes none head.leadTokens head.lead := by
  have hstarts := startsItem_keyword head.updateWord (by decide)
  have htable := ItemPhrase.makes TableReference.phrase hstarts head.table
  exact (Makes.blanks head.before).append_clause _ (by decide) htable

/-- The columns of an update are what its nodes after `SET` assign up to `WHERE`. -/
theorem columnCandidates_eq {tokens : List Token} {nodes : List Node}
    (h : statementNodes tokens = head.lead ++ head.setWord.node :: nodes) :
    (groupStatement tokens).columnCandidates = Columns.targetsOfAll none (untilWhere nodes) := by
  have hkind : ∀ entry ∈ ["UPDATE"], StatementKind.ofKeyword? entry = some .update := by decide
  have hset : head.updateWord.node.isKeyword "SET" = false :=
    head.updateWord.isKeyword_eq (by decide)
  have htable : head.table.item.phrase.node.isKeyword "SET" = false := by
    rw [Node.isKeyword, isAnyKeyword_of_isListItem head.table.item.phrase.isItem, Bool.false_and]
  rw [columnCandidates_groupStatement h, lead, List.append_assoc, List.cons_append,
    StatementKind.ofNodes_keyword _ hkind, Columns.candidates, Columns.assigned,
    Node.afterKeyword?_blanks, Node.afterKeyword?_cons hset, List.append_assoc, List.cons_append,
    Node.afterKeyword?_blanks, Node.afterKeyword?_cons htable, Node.afterKeyword?_blanks,
    Node.afterKeyword?_keyword _ (by decide)]
  rfl

end UpdateHead

/-! ### Whole updates -/

/-- A name and the value that is assigned to it. -/
structure SetItem (α : Type) where
  target : SetTarget
  value : α

/-- The tokens of an assignment, given those of its value. -/
def SetItem.tokens {α : Type} (inner : α → List Token) (item : SetItem α) : List Token :=
  item.target.tokens (inner item.value)

/-- What may follow the assignments of an update. -/
inductive SetEnding where
  | nothing
  | semicolon (blanks : List Blank)
  | condition (whereWord : Spelled ["WHERE"]) (rest : List Token)

/-- The tokens after the assignments. -/
def SetEnding.tokens : SetEnding → List Token
  | nothing => []
  | semicolon blanks => .semicolon :: Blank.tokens blanks
  | condition whereWord rest => whereWord.token :: rest

/-- An update of a table, with values of one kind. -/
structure SetUpdate (α : Type) where
  head : UpdateHead
  items : CommaList (SetItem α)
  ending : SetEnding

namespace SetUpdate

variable {α : Type}

/-- The tokens of an update, given those of the values. -/
def tokens (inner : α → List Token) (update : SetUpdate α) : List Token :=
  update.head.tokens (update.items.joined .comma (·.tokens inner) ++ update.ending.tokens)

/-- The names that values are assigned to, by their last parts. -/
def names (update : SetUpdate α) : List String :=
  update.items.things.map (·.target.name.lastPart)

/-- The columns of an update are those that are found in its assignments. -/
theorem columnCandidates_eq {tokens : α → List Token} {raw : α → List Node}
    {outcome : α → SetOutcome}
    (hfront : ∀ value rest, Apart rest →
      Front (some Assignment.equals.node) (tokens value) rest (raw value))
    (hyields : ∀ value, Yields (groupAliases (raw value)) (outcome value))
    (update : SetUpdate α) :
    (groupStatement (update.tokens tokens)).columnCandidates =
      SetOutcome.found SetItem.target (fun item ↦ outcome item.value) false
        update.items.things := by
  rcases update with ⟨head, items, ending⟩
  let nodes := regroup
    (items.joined (.punctuation ",") fun item ↦ item.target.nodes (raw item.value))
  have hitems : Makes (some head.setWord.node) (items.joined .comma (·.tokens tokens)) nodes := by
    refine fun rest hrest ↦ ⟨_, front_joined (fun _ ↦ True) trivial
      (fun more ↦ apart_cons more rfl Token.noConfusion Token.noConfusion) ?_ trivial hrest items,
      rfl⟩
    exact fun last rest _ hrest item ↦ item.target.front last (hfront item.value rest hrest)
  have hmakes := head.makes_lead.append_clause head.setWord (by decide) hitems
  have htargets : Columns.targetsOfAll none (untilWhere nodes) =
      SetOutcome.found SetItem.target (fun item ↦ outcome item.value) false items.things :=
    SetOutcome.targetsOfAll_regroup (fun item : SetItem α ↦ hyields item.value) items
  have htokens : SetUpdate.tokens tokens ⟨head, items, ending⟩ =
      head.leadTokens ++ head.setWord.token :: items.joined .comma (·.tokens tokens) ++
        ending.tokens := by
    simp [SetUpdate.tokens, UpdateHead.tokens]
  rw [htokens, ← htargets]
  cases ending with
  | nothing =>
    rw [SetEnding.tokens, List.append_nil]
    exact head.columnCandidates_eq hmakes.statementNodes_eq
  | semicolon blanks =>
    have hnodes := (hmakes.append_semicolon (some blanks)).statementNodes_eq
    rw [Option.elim_some, Option.elim_some, List.append_assoc head.lead, List.cons_append] at hnodes
    rw [SetEnding.tokens, head.columnCandidates_eq hnodes, Columns.targetsOfAll_semicolon]
  | condition whereWord rest =>
    obtain ⟨after, hnodes⟩ := hmakes.exists_statementNodes_eq whereWord (by decide) rest
    rw [List.append_assoc head.lead, List.cons_append] at hnodes
    rw [SetEnding.tokens, head.columnCandidates_eq hnodes, Columns.untilWhere_append_where]

end SetUpdate

/-- `UPDATE t SET`. -/
def UpdateHead.updateT : UpdateHead where
  before := []
  updateWord := ⟨"UPDATE", .refl true⟩
  table := ⟨[.space], ⟨(NameWord.bare "t" (.refl false)).plain, none⟩, [.space]⟩
  setWord := ⟨"SET", .refl true⟩

/-- A name with a blank before it and one after it. -/
def SetTarget.spaced (name : NameWord) : SetTarget := ⟨[.space], name.plain, [.space]⟩

end SqlFootprint
