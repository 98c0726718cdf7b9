import SqlFootprint.Proofs.Cases
import SqlFootprint.Proofs.SetLists

/-!
# Predicates are never read

The columns of a query come from what stands before its `FROM`, and those of an update from what
stands before its `WHERE`. `columnCandidates_append` says so for every such front of a statement
that ends outside all parentheses: whatever follows, names in it are no columns.
-/

namespace SqlFootprint

open Grouping

/-- The first token that is no blank is one of the words, without delimiters. -/
def Token.StartWith (words : List String) (tokens : List Token) : Prop :=
  ∃ (blanks : List Blank) (word : Spelled words) (rest : List Token),
    tokens = Blank.tokens blanks ++ word.token :: rest

/-- Tokens that start with a keyword of a clause have its node first, blanks aside. -/
theorem Token.StartWith.exists_statementNodes_eq {words : List String} {tokens : List Token}
    (h : StartWith words tokens)
    (hwords : ∀ entry ∈ words, Keyword.startsClause entry = true) :
    ∃ (blanks : List Blank) (word : Spelled words) (after : List Node),
      statementNodes tokens = Blank.nodes blanks ++ word.node :: after := by
  obtain ⟨blanks, word, rest, rfl⟩ := h
  obtain ⟨after, hafter⟩ := (Cuts.clause word hwords).exists_statementNodes_eq rest
  exact ⟨blanks, word, after, by rw [statementNodes_blanks_append, hafter]⟩

namespace Columns

private theorem openCases_blanks_append (outer : Nat) (blanks : List Blank) (rest : List Node) :
    Node.openCases outer (Blank.nodes blanks ++ rest) = Node.openCases outer rest := by
  induction blanks with
  | nil => rfl
  | cons blank blanks ih =>
    rw [Blank.nodes, List.map_cons, List.cons_append, Node.openCases_cons rfl]
    exact ih

/-- After nodes that close all their blocks, nothing from `FROM` on is read. -/
theorem scanItems_append_from {nodes : List Node} (hclosed : Node.openCases 0 nodes = 0)
    {node : Node} (hfrom : node.isKeyword "FROM" = true) (last : Option Node) (rest : List Node) :
    scanItems .items last (nodes ++ node :: rest) = scanItems .items last nodes := by
  conv => rhs; rw [← List.append_nil nodes]
  apply scanItems_append_congr
  intro next hopen
  have hnone : next.openCases = 0 := hopen.trans hclosed
  cases next with
  | items => rw [scanItems, scanItems, if_pos hfrom]
  | case block around => cases hnone

private theorem projection_append_from (blanks : List Blank)
    (select : Spelled ["SELECT"]) {after : List Node}
    (hclosed : Node.openCases 0 (Blank.nodes blanks ++ select.node :: after) = 0)
    (word : Spelled ["FROM"]) (rest : List Node) :
    projection (Blank.nodes blanks ++ select.node :: after ++ word.node :: rest) =
      projection (Blank.nodes blanks ++ select.node :: after) := by
  have hmark : select.node.isCaseMark = false :=
    Bool.or_eq_false_iff.2 ⟨select.isKeyword_eq (by decide), select.isKeyword_eq (by decide)⟩
  rw [openCases_blanks_append, Node.openCases_cons hmark] at hclosed
  rw [projection, projection, List.append_assoc, List.cons_append, Node.afterKeyword?_blanks,
    Node.afterKeyword?_blanks, Node.afterKeyword?_keyword select (by decide),
    Node.afterKeyword?_keyword select (by decide)]
  exact scanItems_append_from hclosed (word.isKeyword_eq (by decide)) none rest

private theorem assigned_append_where {nodes : List Node}
    (hset : ∃ node ∈ nodes, node.isKeyword "SET" = true) (word : Spelled ["WHERE"])
    (rest : List Node) : assigned (nodes ++ word.node :: rest) = assigned nodes := by
  obtain ⟨after, hafter⟩ := Option.isSome_iff_exists.1 (Node.isSome_afterKeyword?_iff.2 hset)
  rw [assigned, assigned, Node.afterKeyword?_append_of_some hafter, hafter]
  exact congrArg (targetsOfAll none) (untilWhere_append_where after word rest)

end Columns

section

variable {head : List Token}

/-- Before a clause, a front that ends outside all parentheses has its own nodes. -/
theorem exists_nodes_append (hdepth : Token.depth 0 head = 0)
    (hlast : head.getLast? ≠ some .period) {words : List String} (word : Spelled words)
    (hwords : ∀ entry ∈ words, Keyword.startsClause entry = true) (tail : List Token) :
    ∃ after, statementNodes (head ++ word.token :: tail) =
      statementNodes head ++ word.node :: after := by
  have hcuts := Cuts.clause word hwords
  obtain ⟨after, hafter⟩ := hcuts.exists_statementNodes_eq tail
  refine ⟨after, ?_⟩
  rw [hcuts.statementNodes_append tail hdepth (fun hperiod ↦ absurd hperiod hlast), hafter]

/-- The columns of a query are those of its front before `FROM`. -/
theorem columnCandidates_append_from (hdepth : Token.depth 0 head = 0)
    (hlast : head.getLast? ≠ some .period) (hstart : Token.StartWith ["SELECT"] head)
    (hclosed : Node.openCases 0 (Node.partsOfAll (groupStatement head).nodes) = 0)
    (word : Spelled ["FROM"]) (tail : List Token) :
    (groupStatement (head ++ word.token :: tail)).columnCandidates =
      (groupStatement head).columnCandidates := by
  obtain ⟨more, hmore⟩ := exists_nodes_append hdepth hlast word (by decide) tail
  obtain ⟨blanks, select, after, hnodes⟩ := hstart.exists_statementNodes_eq (by decide)
  have hkind (rest : List Node) :
      StatementKind.ofNodes (Blank.nodes blanks ++ select.node :: rest) = .select :=
    StatementKind.ofNodes_keyword select (by decide) blanks rest
  rw [nodes_groupStatement, Node.openCases_partsOfAll, hnodes] at hclosed
  rw [columnCandidates_groupStatement hmore, columnCandidates_groupStatement hnodes, hnodes,
    hkind, List.append_assoc, List.cons_append, hkind]
  have hprojection := Columns.projection_append_from blanks select hclosed word more
  rwa [List.append_assoc, List.cons_append] at hprojection

/-- The columns of an update are those of its front before `WHERE`. -/
theorem columnCandidates_append_where (hdepth : Token.depth 0 head = 0)
    (hlast : head.getLast? ≠ some .period) (hstart : Token.StartWith ["UPDATE"] head)
    (hset : ∃ part ∈ Node.partsOfAll (groupStatement head).nodes, part.isKeyword "SET" = true)
    (word : Spelled ["WHERE"]) (tail : List Token) :
    (groupStatement (head ++ word.token :: tail)).columnCandidates =
      (groupStatement head).columnCandidates := by
  obtain ⟨more, hmore⟩ := exists_nodes_append hdepth hlast word (by decide) tail
  obtain ⟨blanks, update, after, hnodes⟩ := hstart.exists_statementNodes_eq (by decide)
  have hkind (rest : List Node) :
      StatementKind.ofNodes (Blank.nodes blanks ++ update.node :: rest) = .update :=
    StatementKind.ofNodes_keyword update (by decide) blanks rest
  rw [nodes_groupStatement] at hset
  have hset := exists_isKeyword_of_parts (by decide) hset
  have hassigned := Columns.assigned_append_where hset word more
  rw [columnCandidates_groupStatement hmore, columnCandidates_groupStatement rfl]
  rw [hnodes] at hassigned ⊢
  rw [hkind, List.append_assoc, List.cons_append, hkind]
  rwa [List.append_assoc, List.cons_append] at hassigned

end

/-- Whatever follows the `FROM` of a query, or the `WHERE` of an update, its columns are those of
what stands before: the front has to end outside all parentheses, and a query has to close all its
`CASE` and an update to have its `SET` there, outside all calls. -/
theorem columnCandidates_append (head : List Token) (hdepth : Token.depth 0 head = 0)
    (hlast : head.getLast? ≠ some .period) (first second : List Token) :
    (Token.StartWith ["SELECT"] head →
      Node.openCases 0 (Node.partsOfAll (groupStatement head).nodes) = 0 →
      ∀ word : Spelled ["FROM"],
        (groupStatement (head ++ word.token :: first)).columnCandidates =
            (groupStatement (head ++ word.token :: second)).columnCandidates ∧
          (groupStatement (head ++ word.token :: first)).columnCandidates =
            (groupStatement head).columnCandidates) ∧
    (Token.StartWith ["UPDATE"] head →
      (∃ part ∈ Node.partsOfAll (groupStatement head).nodes, part.isKeyword "SET" = true) →
      ∀ word : Spelled ["WHERE"],
        (groupStatement (head ++ word.token :: first)).columnCandidates =
            (groupStatement (head ++ word.token :: second)).columnCandidates ∧
          (groupStatement (head ++ word.token :: first)).columnCandidates =
            (groupStatement head).columnCandidates) := by
  constructor
  · intro hstart hclosed word
    have hfront := columnCandidates_append_from hdepth hlast hstart hclosed word
    exact ⟨(hfront first).trans (hfront second).symm, hfront first⟩
  · intro hstart hset word
    have hfront := columnCandidates_append_where hdepth hlast hstart hset word
    exact ⟨(hfront first).trans (hfront second).symm, hfront first⟩

/-- The front `SELECT CASE a END, b` of a query. -/
def Token.queryFront : List Token :=
  [.word ⟨"SELECT", none⟩, .blank .space, .word ⟨"CASE", none⟩, .blank .space, .word ⟨"a", none⟩,
    .blank .space, .word ⟨"END", none⟩, .comma, .word ⟨"b", none⟩, .blank .space]

/-- The front `UPDATE t SET a = 1` of an update. -/
def Token.updateFront : List Token :=
  [.word ⟨"UPDATE", none⟩, .blank .space, .word ⟨"t", none⟩, .blank .space, .word ⟨"SET", none⟩,
    .blank .space, .word ⟨"a", none⟩, .symbol .equals, .number "1" false]

/-- The rest of a statement with a name, a `CASE` and a parenthesis that nothing closes. -/
def Token.openTail : List Token :=
  [.blank .space, .word ⟨"c", none⟩, .openParen, .word ⟨"CASE", none⟩, .blank .space,
    .word ⟨"d", none⟩]

/-- Neither a table with a list nor a condition that is not closed adds a column. -/
theorem columnCandidates_append_openTail :
    (groupStatement (Token.queryFront ++ .word ⟨"FROM", none⟩ :: Token.openTail)).columnCandidates =
        ["CASE a END", "b"] ∧
      (groupStatement (Token.updateFront ++ .word ⟨"where", none⟩ ::
        Token.openTail)).columnCandidates = ["a"] := by
  have hquery : Token.StartWith ["SELECT"] Token.queryFront :=
    ⟨[], ⟨"SELECT", by decide⟩, Token.queryFront.tail, rfl⟩
  have hupdate : Token.StartWith ["UPDATE"] Token.updateFront :=
    ⟨[], ⟨"UPDATE", by decide⟩, Token.updateFront.tail, rfl⟩
  have hclosed :
      Node.openCases 0 (Node.partsOfAll (groupStatement Token.queryFront).nodes) = 0 := by
    decide +kernel
  have hset : ∃ part ∈ Node.partsOfAll (groupStatement Token.updateFront).nodes,
      part.isKeyword "SET" = true := by
    decide +kernel
  have hcolumns := (columnCandidates_append Token.queryFront (by decide) (by decide)
    Token.openTail []).1 hquery hclosed ⟨"FROM", by decide⟩
  have hassigned := (columnCandidates_append Token.updateFront (by decide) (by decide)
    Token.openTail []).2 hupdate hset ⟨"where", by decide⟩
  refine ⟨hcolumns.2.trans ?_, hassigned.2.trans ?_⟩
  · decide +kernel
  · decide +kernel

end SqlFootprint
