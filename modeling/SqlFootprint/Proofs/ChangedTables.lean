import SqlFootprint.Proofs.Updates

/-!
# Tables that are changed

A deletion names its table after `FROM`, and an update names its table at once. Each of them has
that table and no other, whatever tokens follow `WHERE` or `SET`, with parentheses too many or too
few among them (`candidates_deletion_update`).
-/

namespace SqlFootprint

open Grouping

/-! ### The table -/

namespace TableReference

variable (reference : TableReference)

/-- A reference to a table is a name, by its last part. -/
theorem isName_node :
    reference.phrase.node.isName = true ∧
      reference.phrase.node.realNames = [reference.name.lastPart] :=
  Grouping.isName_node Piece.identifier?_reference ⟨⟨[], reference, []⟩, []⟩

private theorem find?_isName (blanks : List Blank) (rest : List Node) :
    (Blank.nodes blanks ++ reference.phrase.node :: rest).find? Node.isName =
      some reference.phrase.node := by
  have hblanks : (Blank.nodes blanks).find? Node.isName = none :=
    List.find?_eq_none.2 (Blank.forall_mem_nodes (fun _ ↦ nofun) blanks)
  rw [List.find?_append, hblanks, Option.none_or, List.find?_cons_of_pos reference.isName_node.1]

end TableReference

/-- What stands before the end of a statement is grouped on its own. -/
theorem SetEnding.exists_statementNodes_eq {tokens : List Token} {nodes : List Node}
    (h : Makes none tokens nodes) (ending : SetEnding) :
    ∃ after, statementNodes (tokens ++ ending.tokens) = nodes ++ after := by
  cases ending with
  | nothing =>
    refine ⟨[], ?_⟩
    rw [SetEnding.tokens, List.append_nil, List.append_nil, h.statementNodes_eq]
  | semicolon blanks => exact ⟨_, (h.append_semicolon (some blanks)).statementNodes_eq⟩
  | condition whereWord rest =>
    obtain ⟨after, hafter⟩ := h.exists_statementNodes_eq whereWord (by decide) rest
    exact ⟨_, hafter⟩

/-! ### Deletions -/

/-- A deletion from a table. -/
structure Deletion where
  /-- The blanks before the deletion. -/
  before : List Blank
  deleteWord : Spelled ["DELETE"]
  /-- The blanks between the keywords. -/
  between : List Blank
  fromWord : Spelled ["FROM"]
  table : Padded TableReference
  /-- What follows the table, as it may follow the assignments of an update. -/
  ending : SetEnding

namespace Deletion

variable (deletion : Deletion)

/-- The tokens of the table and before it. -/
def leadTokens : List Token :=
  Blank.tokens deletion.before ++ deletion.deleteWord.token ::
    Blank.tokens deletion.between ++ deletion.fromWord.token ::
      deletion.table.tokens (·.phrase.tokens)

/-- The tokens of the deletion. -/
def tokens : List Token := deletion.leadTokens ++ deletion.ending.tokens

/-- The nodes of the table and before it. -/
def lead : List Node :=
  Blank.nodes deletion.before ++ deletion.deleteWord.node ::
    Blank.nodes deletion.between ++ deletion.fromWord.node ::
      (Blank.nodes deletion.table.before ++ deletion.table.item.phrase.node ::
        Blank.nodes deletion.table.after)

/-- The tokens up to the table are grouped on their own. -/
theorem makes_lead : Makes none deletion.leadTokens deletion.lead := by
  have hstarts := startsItem_keyword deletion.fromWord (by decide)
  have htable := ItemPhrase.makes TableReference.phrase hstarts deletion.table
  have hdelete : Makes none _ _ := (Makes.blanks deletion.before).append_clause deletion.deleteWord
    (by decide) (.blanks deletion.between)
  exact hdelete.append_clause _ (by decide) htable

/-- The name after `FROM` is the table that is found. -/
theorem deleteTarget_lead (after : List Node) :
    Tables.deleteTarget (deletion.lead ++ after) = [deletion.table.item.name.lastPart] := by
  have hdelete : deletion.deleteWord.node.isKeyword "FROM" = false :=
    deletion.deleteWord.isKeyword_eq (by decide)
  rw [Tables.deleteTarget, lead]
  simp only [List.append_assoc, List.cons_append]
  rw [Node.afterKeyword?_blanks, Node.afterKeyword?_cons hdelete, Node.afterKeyword?_blanks,
    Node.afterKeyword?_keyword _ (by decide), Option.bind_some,
    TableReference.find?_isName deletion.table.item]
  exact deletion.table.item.isName_node.2

end Deletion

/-! ### Updates -/

/-- The first name of an update is its table. -/
theorem UpdateHead.updateTarget_lead (head : UpdateHead) (after : List Node) :
    Tables.updateTarget (head.lead ++ after) = [head.table.item.name.lastPart] := by
  obtain ⟨identifier, hidentifier, hname⟩ := Option.map_eq_some_iff.1
    (Piece.identifier?_reference head.table.item)
  rw [Tables.updateTarget, lead, List.append_assoc, List.cons_append,
    Node.findSome?_identifier?_blanks, List.findSome?_cons_of_isNone rfl, List.append_assoc,
    Node.findSome?_identifier?_blanks, List.cons_append, List.findSome?_cons, hidentifier]
  exact congrArg List.singleton hname

/-- A deletion has its table and no columns, and an update has its table, whatever follows them. -/
theorem candidates_deletion_update :
    (∀ deletion : Deletion,
      (groupStatement deletion.tokens).tableCandidates = [deletion.table.item.name.lastPart] ∧
        (groupStatement deletion.tokens).columnCandidates = []) ∧
      ∀ (head : UpdateHead) (rest : List Token),
        (groupStatement (head.tokens rest)).tableCandidates = [head.table.item.name.lastPart] := by
  have hdelete : ∀ entry ∈ ["DELETE"], StatementKind.ofKeyword? entry = some .delete := by decide
  have hupdate : ∀ entry ∈ ["UPDATE"], StatementKind.ofKeyword? entry = some .update := by decide
  constructor
  · intro deletion
    obtain ⟨after, hnodes⟩ : ∃ after, statementNodes deletion.tokens = deletion.lead ++ after :=
      deletion.ending.exists_statementNodes_eq deletion.makes_lead
    have hkind : StatementKind.ofNodes (deletion.lead ++ after) = .delete := by
      rw [Deletion.lead]
      simp only [List.append_assoc, List.cons_append]
      exact StatementKind.ofNodes_keyword deletion.deleteWord hdelete _ _
    constructor
    · rw [tableCandidates_groupStatement hnodes, hkind]
      exact deletion.deleteTarget_lead after
    · rw [columnCandidates_groupStatement hnodes, hkind]
      rfl
  · intro head rest
    obtain ⟨after, hnodes⟩ := head.makes_lead.exists_statementNodes_eq head.setWord (by decide) rest
    have hkind (more : List Node) : StatementKind.ofNodes (head.lead ++ more) = .update := by
      rw [UpdateHead.lead, List.append_assoc, List.cons_append]
      exact StatementKind.ofNodes_keyword head.updateWord hupdate _ _
    rw [UpdateHead.tokens, tableCandidates_groupStatement hnodes, hkind]
    exact head.updateTarget_lead _

end SqlFootprint
