import SqlFootprint.Proofs.Nesting
import SqlFootprint.Proofs.TableReferences

/-!
# Common tables before a statement

A `WITH` clause names tables by queries of their own, and a statement follows it. The kind of the
statement is looked for behind the clause, but its tables and columns are looked for from the clause
on: `findings_with` says what of the statement alone is then still found, and
`tableCandidates_with_delete` is a statement whose table is hidden by the clause.
-/

namespace SqlFootprint

open Grouping

/-! ### The clause -/

/-- A table that is named by a query in parentheses. -/
structure CommonTable where
  name : SingleWord
  afterName : List Blank
  asWord : Spelled ["AS"]
  afterAs : List Blank
  body : List Token
  balanced : Token.nesting? 0 body = some 0

/-- The tables that are named before a statement. -/
structure WithClause where
  before : List Blank
  withWord : Spelled ["WITH"]
  tables : CommaList (Padded CommonTable)

/-- A statement that starts with the keyword of its kind, whatever follows it. -/
structure MainStatement where
  before : List Blank
  word : Spelled (StatementKind.named.map StatementKind.word)
  rest : List Token

/-- The tokens of the statement. -/
def MainStatement.tokens (main : MainStatement) : List Token :=
  Blank.tokens main.before ++ main.word.token :: main.rest

namespace CommonTable

/-- The tokens up to the query. -/
def headTokens (table : CommonTable) : List Token :=
  .word table.name.word :: (Blank.tokens table.afterName ++
    table.asWord.token :: Blank.tokens table.afterAs)

/-- The tokens of the table with its query. -/
def tokens (table : CommonTable) : List Token :=
  table.headTokens ++ .openParen :: (table.body ++ [.closeParen])

/-- The nodes up to the query. -/
def head (table : CommonTable) : List Node :=
  table.name.node :: (Blank.nodes table.afterName ++
    table.asWord.node :: Blank.nodes table.afterAs)

/-- The nodes of the table, given those of the query. -/
def around (table : CommonTable) (body : List Node) : List Node :=
  table.head ++ .punctuation "(" :: (body ++ [.punctuation ")"])

/-- The nodes of the table, its query grouped as it is alone. -/
def nodes (table : CommonTable) : List Node := table.around (statementNodes table.body)

/-- The nodes of the table, its query not yet grouped. -/
def raw (table : CommonTable) : List Node := table.around (level none 0 table.body).1

private theorem regroup_body (table : CommonTable) :
    regroup (level none 0 table.body).1 = statementNodes table.body :=
  (statementNodes_of_nesting table.balanced).symm

private theorem front_head (table : CommonTable) (last : Option Node) (rest : List Token) :
    Front last table.headTokens rest table.head := by
  have has (last : Option Node) (rest : List Token) :
      Front last [table.asWord.token] rest [table.asWord.node] :=
    .keyword table.asWord (by decide) fun _ ↦ table.asWord.listed_eq (by decide)
  refine (table.name.front ?_).append ((Front.blanks table.afterName).append
    ((has _ _).append (.blanks table.afterAs)))
  show Apart ((Blank.tokens table.afterName ++ table.asWord.token :: _) ++ rest)
  rw [List.append_assoc]
  exact (apart_keyword table.asWord _).append_blanks table.afterName

/-- A table with its query is read whatever follows it. -/
theorem front (table : CommonTable) (last : Option Node) (rest : List Token) :
    Front last table.tokens rest table.raw :=
  (table.front_head last _).append (.parens (.within table.balanced rest))

private theorem aliasStep_name (table : CommonTable) :
    aliasStep table.name.node
      (Blank.nodes table.afterName ++ table.asWord.node :: Blank.nodes table.afterAs) = none := by
  have hafter : aliasAfter?
      (Blank.nodes table.afterName ++ table.asWord.node :: Blank.nodes table.afterAs) = none := by
    have has : table.asWord.node.isKeyword "AS" = true := table.asWord.isKeyword_eq (by decide)
    rw [aliasAfter?, Node.significant?_blanks_append _ _ _ rfl]
    simp only [has, ↓reduceIte]
    rw [Blank.drop_nodes_append, Node.significant?_eq_none_iff.2 (Blank.isBlank_nodes _)]
    rfl
  rw [aliasStep, hafter]
  simp

private theorem listStep_name (table : CommonTable) :
    listStep table.name.node
      (Blank.nodes table.afterName ++ table.asWord.node :: Blank.nodes table.afterAs) = none := by
  have hcomma (blanks : List Blank) :
      ∀ node ∈ Blank.nodes blanks, node.isPunctuation "," = false :=
    Blank.forall_mem_nodes (fun _ ↦ rfl) blanks
  rw [listStep, listSpan_eq_zero, if_neg (by simp)]
  rw [List.forall_mem_append, List.forall_mem_cons]
  exact ⟨hcomma _, rfl, hcomma _⟩

/-- The nodes between two tables: blanks and commas. -/
def IsLead (lead : List Node) : Prop :=
  ∀ node ∈ lead, (∃ blank : Blank, node = .leaf .blank blank.render) ∨ node = .punctuation ","

private theorem folds_head {step : Step} {pass : List Node → List Node} (h : Folds step pass)
    (table : CommonTable) {lead : List Node} (hlead : IsLead lead)
    (hblank : ∀ (blank : Blank) (rest : List Node), step (.leaf .blank blank.render) rest = none)
    (hcomma : ∀ rest, step (.punctuation ",") rest = none)
    (has : ∀ rest, step table.asWord.node rest = none)
    (hname : step table.name.node
      (Blank.nodes table.afterName ++ table.asWord.node :: Blank.nodes table.afterAs) = none) :
    pass (lead ++ table.head) = lead ++ table.head := by
  have hbefore : ∀ node ∈ lead, ∀ rest, step node rest = none := by
    intro node hmem rest
    obtain ⟨blank, rfl⟩ | rfl := hlead node hmem
    · exact hblank blank rest
    · exact hcomma rest
  have hafter : ∀ node ∈ Blank.nodes table.afterName ++ table.asWord.node ::
      Blank.nodes table.afterAs, ∀ rest, step node rest = none := by
    rw [List.forall_mem_append, List.forall_mem_cons]
    exact ⟨Blank.forall_mem_nodes hblank _, has, Blank.forall_mem_nodes hblank _⟩
  rw [h.append_of_keeps hbefore, head, h.keep hname, h.eq_self_of_keeps hafter]

private theorem regroup_head (table : CommonTable) {lead : List Node} (hlead : IsLead lead) :
    regroup (lead ++ table.head) = lead ++ table.head := by
  have hcomparisons : groupComparisons (lead ++ table.head) = lead ++ table.head := by
    apply groupComparisons_eq_self
    have hblanks (blanks : List Blank) :
        ∀ node ∈ Blank.nodes blanks, isComparisonOperator node = false :=
      Blank.forall_mem_nodes (fun _ ↦ rfl) blanks
    rw [head, List.forall_mem_append, List.forall_mem_cons, List.forall_mem_append,
      List.forall_mem_cons]
    refine ⟨fun node hmem ↦ ?_, rfl, hblanks _, rfl, hblanks _⟩
    obtain ⟨blank, rfl⟩ | rfl := hlead node hmem
    · rfl
    · decide
  rw [regroup, folds_head folds_groupAliases table hlead (fun _ _ ↦ rfl) (fun _ ↦ rfl) (fun _ ↦ rfl)
      table.aliasStep_name, hcomparisons,
    folds_head folds_groupLists table hlead (fun _ _ ↦ rfl) (fun _ ↦ rfl) (fun _ ↦ rfl)
      table.listStep_name]

end CommonTable

/-! ### The statement after the clause -/

namespace WithClause

/-- The tokens of the clause. -/
def tokens (clause : WithClause) : List Token :=
  Blank.tokens clause.before ++ clause.withWord.token :: clause.tables.tokens CommonTable.tokens

/-- The nodes of the clause. -/
def nodes (clause : WithClause) : List Node :=
  Blank.nodes clause.before ++ clause.withWord.node :: clause.tables.spread CommonTable.nodes

private theorem regroup_table_append (table : Padded CommonTable) {lead : List Node}
    (hlead : CommonTable.IsLead lead) (rest : List Node) :
    regroup (lead ++ (table.nodes CommonTable.raw ++ rest)) =
      lead ++ (Blank.nodes table.before ++ table.item.nodes) ++
        regroup (Blank.nodes table.after ++ rest) := by
  have hopen : IsBarrier (.punctuation "(") := isBarrier_punctuation (by decide) (by decide)
  have hclose : IsBarrier (.punctuation ")") := isBarrier_punctuation (by decide) (by decide)
  have hbefore : CommonTable.IsLead (lead ++ Blank.nodes table.before) :=
    List.forall_mem_append.2
      ⟨hlead, Blank.forall_mem_nodes (fun blank ↦ .inl ⟨blank, rfl⟩) table.before⟩
  have hsplit : lead ++ (table.nodes CommonTable.raw ++ rest) =
      (lead ++ Blank.nodes table.before ++ table.item.head) ++ .punctuation "(" ::
        ((level none 0 table.item.body).1 ++ .punctuation ")" ::
          (Blank.nodes table.after ++ rest)) := by
    simp [Padded.nodes, CommonTable.raw, CommonTable.around]
  rw [hsplit, regroup_append_cons hopen, regroup_append_cons hclose,
    table.item.regroup_head hbefore, table.item.regroup_body]
  simp [CommonTable.nodes, CommonTable.around]

private theorem regroup_tables (first : Padded CommonTable) (more : List (Padded CommonTable))
    {lead : List Node} (hlead : CommonTable.IsLead lead) (blanks : List Blank) :
    regroup (lead ++ ((CommaList.mk first more).spread CommonTable.raw ++ Blank.nodes blanks)) =
      lead ++ ((CommaList.mk first more).spread CommonTable.nodes ++ Blank.nodes blanks) := by
  induction more generalizing first lead with
  | nil =>
    have hfirst := regroup_table_append first hlead (Blank.nodes blanks)
    rw [regroup_blanks_append, regroup_blanks] at hfirst
    simpa [CommaList.spread, CommaList.joined, Padded.nodes] using hfirst
  | cons next more ih =>
    have hcomma : CommonTable.IsLead (Blank.nodes first.after ++ [.punctuation ","]) :=
      List.forall_mem_append.2 ⟨Blank.forall_mem_nodes (fun blank ↦ .inl ⟨blank, rfl⟩) first.after,
        List.forall_mem_singleton.2 (.inr rfl)⟩
    have hnext := ih next hcomma
    have hfirst := regroup_table_append first hlead
      (.punctuation "," :: ((CommaList.mk next more).spread CommonTable.raw ++ Blank.nodes blanks))
    rw [List.append_assoc, List.singleton_append] at hnext
    rw [hnext] at hfirst
    simpa [CommaList.spread, CommaList.joined, Padded.nodes] using hfirst

private theorem front_tables (clause : WithClause) (rest : List Token) :
    Front (some clause.withWord.node) (clause.tables.tokens CommonTable.tokens) rest
      (clause.tables.spread CommonTable.raw) := by
  let ends : List Token → Prop := fun _ ↦ True
  have hends (tokens : List Token) : ends tokens := trivial
  refine front_joined (fun _ ↦ True) trivial (fun more ↦ hends (.comma :: more)) ?_ trivial
    (hends rest) clause.tables
  intro last rest _ _ table
  exact (Front.blanks table.before).append
    ((table.item.front _ _).append (.blanks table.after))

/-- The statement after a clause is grouped as it is alone. -/
theorem statementNodes_append (clause : WithClause) (main : MainStatement) :
    statementNodes (clause.tokens ++ main.tokens) = clause.nodes ++ statementNodes main.tokens := by
  have hwith : ∀ entry ∈ ["WITH"], Keyword.startsClause entry = true := by decide
  have hmain : ∀ entry ∈ StatementKind.named.map StatementKind.word,
      Keyword.startsClause entry = true := by decide
  have hraw : Front none (clause.tokens ++ Blank.tokens main.before)
      (main.word.token :: main.rest)
      (Blank.nodes clause.before ++ clause.withWord.node ::
        (clause.tables.spread CommonTable.raw ++ Blank.nodes main.before)) := by
    rw [tokens, List.append_assoc, List.cons_append]
    exact (Front.blanks clause.before).append ((Front.clause clause.withWord hwith _ _).append
      ((clause.front_tables _).append (.blanks main.before)))
  have hlead : CommonTable.IsLead [] := nofun
  have htables := regroup_tables clause.tables.first clause.tables.more hlead main.before
  have hregroup : regroup (Blank.nodes clause.before ++ clause.withWord.node ::
      (clause.tables.spread CommonTable.raw ++ Blank.nodes main.before)) =
        clause.nodes ++ Blank.nodes main.before := by
    rw [regroup_append_cons (isBarrier_clause clause.withWord hwith), regroup_blanks]
    rw [List.nil_append, List.nil_append] at htables
    rw [nodes, List.append_assoc, List.cons_append, ← htables]
  rw [MainStatement.tokens, ← List.append_assoc,
    (Cuts.clause main.word hmain).statementNodes_of_front hraw, hregroup,
    statementNodes_blanks_append, List.append_assoc]

/-- No query of the clause has the keyword outside calls. -/
def Lacks (clause : WithClause) (word : String) : Prop :=
  ∀ table ∈ clause.tables.items, ∀ node ∈ statementNodes table.body, node.isKeyword word = false

/-- Behind a clause without the keyword, it is searched further. -/
theorem afterKeyword?_append {clause : WithClause} {word : String} (h : clause.Lacks word)
    (hwith : Text.sameWord "WITH" word = false) (has : Text.sameWord "AS" word = false)
    (rest : List Node) :
    Node.afterKeyword? word (clause.nodes ++ rest) = Node.afterKeyword? word rest := by
  have hblanks (blanks : List Blank) : ∀ node ∈ Blank.nodes blanks, node.isKeyword word = false :=
    Blank.forall_mem_nodes (fun _ ↦ rfl) blanks
  have hwithWord : clause.withWord.node.isKeyword word = false :=
    clause.withWord.isKeyword_eq (by simpa using hwith)
  apply Node.afterKeyword?_append
  rw [nodes, List.forall_mem_append, List.forall_mem_cons]
  refine ⟨hblanks _, hwithWord, ?_⟩
  refine CommaList.forall_mem_spread (P := (·.isKeyword word = false)) (fun _ ↦ rfl) rfl
    fun table hmem ↦ ?_
  have hasWord : table.asWord.node.isKeyword word = false :=
    table.asWord.isKeyword_eq (by simpa using has)
  simp only [CommonTable.nodes, CommonTable.around, CommonTable.head, List.forall_mem_append,
    List.forall_mem_cons]
  exact ⟨⟨rfl, hblanks _, hasWord, hblanks _⟩, rfl, h table hmem, rfl, nofun⟩

end WithClause

/-! ### The kind of the statement -/

namespace StatementKind

/-- Nodes that are no parentheses and name no kind are passed over. -/
theorem firstOutside_append {before : List Node}
    (h : ∀ node ∈ before, node.isParen = false ∧ ofNode? node = none) (depth : Nat)
    (rest : List Node) : firstOutside depth (before ++ rest) = firstOutside depth rest := by
  induction before with
  | nil => rfl
  | cons node before ih =>
    rw [List.forall_mem_cons] at h
    obtain ⟨⟨hparen, hkind⟩, hbefore⟩ := h
    obtain ⟨hopen, hclose⟩ := Bool.or_eq_false_iff.1 hparen
    rw [List.cons_append, firstOutside, hopen, hclose, hkind, ite_self]
    exact ih hbefore

private theorem firstOutside_table (table : Padded CommonTable) (rest : List Node) :
    firstOutside 0 (table.nodes CommonTable.nodes ++ rest) = firstOutside 0 rest := by
  have hblanks (blanks : List Blank) :
      ∀ node ∈ Blank.nodes blanks, node.isParen = false ∧ ofNode? node = none :=
    Blank.forall_mem_nodes (fun _ ↦ ⟨rfl, rfl⟩) blanks
  have has : ofNode? table.item.asWord.node = none := by
    refine table.item.asWord.eq_of_forall (f := ofKeyword?) (fun first second heq ↦ ?_) (by decide)
    simp only [ofKeyword?, Text.sameWord, heq]
  have hhead : ∀ node ∈ Blank.nodes table.before ++ table.item.head,
      node.isParen = false ∧ ofNode? node = none := by
    simp only [CommonTable.head, List.forall_mem_append, List.forall_mem_cons]
    exact ⟨hblanks _, ⟨rfl, rfl⟩, hblanks _, ⟨rfl, has⟩, hblanks _⟩
  have hsplit : table.nodes CommonTable.nodes ++ rest =
      (Blank.nodes table.before ++ table.item.head) ++ .punctuation "(" ::
        (statementNodes table.item.body ++ .punctuation ")" ::
          (Blank.nodes table.after ++ rest)) := by
    simp [Padded.nodes, CommonTable.nodes, CommonTable.around]
  have hopen (more : List Node) :
      firstOutside 0 (.punctuation "(" :: more) = firstOutside 1 more := rfl
  have hclose (more : List Node) :
      firstOutside 1 (.punctuation ")" :: more) = firstOutside 0 more := rfl
  rw [hsplit, firstOutside_append hhead, hopen,
    firstOutside_nested (nesting?_statementNodes table.item.balanced), hclose,
    firstOutside_append (hblanks _)]

private theorem ofNodes_with (clause : WithClause) (rest : List Node) :
    ofNodes (clause.nodes ++ rest) = firstOutside 0 rest := by
  have htables (tables : List (Padded CommonTable)) :
      firstOutside 0 (tables.flatMap (fun table ↦
        .punctuation "," :: table.nodes CommonTable.nodes) ++ rest) = firstOutside 0 rest := by
    have hcomma (more : List Node) :
        firstOutside 0 (.punctuation "," :: more) = firstOutside 0 more := rfl
    induction tables with
    | nil => rfl
    | cons table tables ih =>
      rw [List.flatMap_cons, List.append_assoc, List.cons_append, hcomma, firstOutside_table, ih]
  have hkind : ofNode? clause.withWord.node = none := by
    refine clause.withWord.eq_of_forall (f := ofKeyword?) (fun first second heq ↦ ?_) (by decide)
    simp only [ofKeyword?, Text.sameWord, heq]
  have hwith : clause.withWord.node.isKeyword "WITH" = true :=
    clause.withWord.isKeyword_eq (by decide)
  rw [ofNodes, WithClause.nodes, List.append_assoc, List.cons_append,
    List.dropWhile_append_of_pos (Blank.isBlank_nodes clause.before),
    List.dropWhile_cons_of_neg (by simp [Node.isBlank, Spelled.node])]
  simp only [hkind, hwith, ↓reduceIte]
  rw [CommaList.spread, CommaList.joined, List.append_assoc, firstOutside_table, htables]

/-- A node of a kind is the keyword of the kind. -/
theorem isKeyword_of_ofNode? {node : Node} {kind : StatementKind} (h : ofNode? node = some kind) :
    node.isKeyword kind.word = true := by
  unfold ofNode? at h
  split at h
  · next hkeyword =>
    have hsame := List.find?_some h
    rw [Node.isKeyword, hkeyword, Text.sameWord_comm, hsame]
    rfl
  · cases h

/-- Behind a clause of common tables, the first node of a kind names the kind. -/
theorem ofNodes_with_of_ofNode? (clause : WithClause) {node : Node} {kind : StatementKind}
    (h : ofNode? node = some kind) (blanks : List Blank) (rest : List Node) :
    ofNodes (clause.nodes ++ (Blank.nodes blanks ++ node :: rest)) = kind := by
  have hblanks : ∀ node ∈ Blank.nodes blanks, node.isParen = false ∧ ofNode? node = none :=
    Blank.forall_mem_nodes (fun _ ↦ ⟨rfl, rfl⟩) blanks
  have hmark (text : String) : node.isPunctuation text = false := by
    cases node with
    | mk own shown children =>
      cases own with
      | punctuation => cases h
      | _ => rfl
  rw [ofNodes_with, firstOutside_append hblanks, firstOutside, hmark, hmark]
  simp [h]

end StatementKind

/-! ### What is found behind a clause -/

/-- A statement starts with the keyword of its kind, after blanks. -/
theorem MainStatement.exists_nodes (main : MainStatement) :
    ∃ after kind, statementNodes main.tokens =
        Blank.nodes main.before ++ main.word.node :: after ∧
      StatementKind.ofNode? main.word.node = some kind := by
  have hstarts : ∀ entry ∈ StatementKind.named.map StatementKind.word,
      Keyword.startsClause entry = true := by decide
  obtain ⟨after, hafter⟩ := (Cuts.clause main.word hstarts).exists_statementNodes_eq main.rest
  have hkind : (StatementKind.ofKeyword? main.word.text).isSome = true := by
    refine main.word.eq_of_forall (f := fun word ↦ (StatementKind.ofKeyword? word).isSome)
      (fun first second heq ↦ ?_) (by decide)
    simp only [StatementKind.ofKeyword?, Text.sameWord, heq]
  obtain ⟨kind, hkind⟩ := Option.isSome_iff_exists.1 hkind
  refine ⟨after, kind, ?_, hkind⟩
  rw [MainStatement.tokens, statementNodes_blanks_append, hafter]

namespace Tables

/-- The tables of a selection are found behind whatever stands before it. -/
theorem candidates_select_append {node : Node} (hquery : node.isKeyword "SELECT" = true)
    (before after : List Node) (blanks : List Blank) :
    candidates .select (Blank.nodes blanks ++ node :: after) <:+
      candidates .select (before ++ (Blank.nodes blanks ++ node :: after)) := by
  rw [candidates, scanLists_blanks,
    scanLists_restart hquery (by decide) (by decide) (by decide), candidates, ← List.append_assoc]
  exact scanLists_append_query hquery .outside none _ after

/-- The tables of an insertion are found behind what has no `INTO`. -/
theorem candidates_insert_append {before nodes : List Node}
    (h : Node.afterKeyword? "INTO" (before ++ nodes) = Node.afterKeyword? "INTO" nodes) :
    candidates .insert nodes ⊆ candidates .insert (before ++ nodes) := by
  have htarget : insertTarget (before ++ nodes) = insertTarget nodes := by
    rw [insertTarget, insertTarget, h]
  rw [candidates, candidates, htarget]
  cases hquery : Node.afterKeyword? "SELECT" nodes with
  | none =>
    rw [List.append_nil]
    exact List.subset_append_left _ _
  | some rest =>
    obtain ⟨more, hmore, hsuffix⟩ := exists_afterKeyword?_append hquery before
    rw [hmore]
    exact List.append_subset.2 ⟨List.subset_append_left _ _,
      List.Subset.trans hsuffix.subset (List.subset_append_right _ _)⟩

/-- The first name behind a clause of common tables is that of the first of them. -/
theorem candidates_update_with (clause : WithClause) (nodes : List Node) :
    candidates .update (clause.nodes ++ nodes) = [clause.tables.first.item.name.word.value] := by
  have hwith (rest : List Node) : (clause.withWord.node :: rest).findSome? Node.identifier? =
      rest.findSome? Node.identifier? := rfl
  rw [candidates, updateTarget, WithClause.nodes, CommaList.spread, CommaList.joined, Padded.nodes,
    List.append_assoc, Node.findSome?_identifier?_blanks, List.cons_append, hwith,
    List.append_assoc, List.append_assoc, Node.findSome?_identifier?_blanks]
  rfl

end Tables

/-- A list of columns is looked for after `INTO`. -/
theorem Columns.insertList_congr {nodes others : List Node}
    (h : Node.afterKeyword? "INTO" nodes = Node.afterKeyword? "INTO" others) :
    insertList nodes = insertList others := by
  rw [insertList, insertList, h]

/-- What of a statement is found behind a clause of common tables. Its kind always is. The tables
of a selection are found after those of the clause; the table of an insertion, a deletion and the
assigned columns are found if no query of the clause has the keyword that they are looked for by,
and columns of a selection if none has a selection. The table of an update is taken to be the first
common table. -/
theorem findings_with (clause : WithClause) (main : MainStatement) :
    let alone := groupStatement main.tokens
    let whole := groupStatement (clause.tokens ++ main.tokens)
    whole.statementKind = alone.statementKind ∧
      (alone.statementKind = .select →
        alone.tableCandidates <:+ whole.tableCandidates ∧
          (clause.Lacks "SELECT" → whole.columnCandidates = alone.columnCandidates)) ∧
      (alone.statementKind = .insert → clause.Lacks "INTO" →
        alone.tableCandidates ⊆ whole.tableCandidates ∧
          ((Columns.insertList alone.nodes).closed = true ∨ clause.Lacks "SELECT" →
            whole.columnCandidates = alone.columnCandidates)) ∧
      (alone.statementKind = .update →
        whole.tableCandidates = [clause.tables.first.item.name.word.value] ∧
          (clause.Lacks "SET" → whole.columnCandidates = alone.columnCandidates)) ∧
      (alone.statementKind = .delete →
        whole.columnCandidates = alone.columnCandidates ∧
          (clause.Lacks "FROM" → whole.tableCandidates = alone.tableCandidates)) := by
  intro alone whole
  obtain ⟨after, kind, hmain, hkind⟩ := main.exists_nodes
  have hnodes := clause.statementNodes_append main
  rw [hmain] at hnodes
  have hkindAlone := StatementKind.ofNodes_of_ofNode? hkind main.before after
  have hkindWhole := StatementKind.ofNodes_with_of_ofNode? clause hkind main.before after
  have hlist :
      Columns.insertList alone.nodes = Columns.insertList (statementNodes main.tokens) := by
    rw [nodes_groupStatement]
  rw [statementKind_groupStatement hmain, statementKind_groupStatement hnodes,
    tableCandidates_groupStatement hmain, tableCandidates_groupStatement hnodes,
    columnCandidates_groupStatement hmain, columnCandidates_groupStatement hnodes,
    hkindAlone, hkindWhole, hlist, hmain]
  have hlacks {word : String} (h : clause.Lacks word) (hwith : Text.sameWord "WITH" word = false)
      (has : Text.sameWord "AS" word = false) :=
    WithClause.afterKeyword?_append h hwith has
      (Blank.nodes main.before ++ main.word.node :: after)
  refine ⟨rfl, ?_, ?_, ?_, ?_⟩
  · rintro rfl
    refine ⟨?_, fun hselect ↦ ?_⟩
    · exact Tables.candidates_select_append (StatementKind.isKeyword_of_ofNode? hkind) _ _ _
    · simp only [Columns.candidates, Columns.projection, hlacks hselect (by decide) (by decide)]
  · rintro rfl hinto
    have hinto := hlacks hinto (by decide) (by decide)
    refine ⟨Tables.candidates_insert_append hinto, ?_⟩
    have hlist := Columns.insertList_congr hinto
    rintro (hclosed | hselect)
    · simp only [Columns.candidates, hlist, hclosed, ↓reduceIte]
    · simp only [Columns.candidates, hlist, Columns.projection,
        hlacks hselect (by decide) (by decide)]
  · rintro rfl
    refine ⟨Tables.candidates_update_with clause _, fun hset ↦ ?_⟩
    simp only [Columns.candidates, Columns.assigned, hlacks hset (by decide) (by decide)]
  · rintro rfl
    refine ⟨rfl, fun hfrom ↦ ?_⟩
    simp only [Tables.candidates, Tables.deleteTarget, hlacks hfrom (by decide) (by decide)]

/-! ### A deletion behind a clause -/

/-- The query `SELECT x FROM a`. -/
def Selection.xFromA : Selection where
  before := []
  selectWord := ⟨"SELECT", by decide⟩
  columns := ⟨⟨[.space], plainWord "x" (by decide) (by decide), [.space]⟩, []⟩
  fromWord := ⟨"FROM", by decide⟩
  tables := ⟨⟨[.space], ⟨plainWord "a" (by decide) (by decide), none⟩, []⟩, []⟩
  joins := []
  condition := none
  semicolon := none

/-- The clause `WITH c AS (q)` of a query `q`. -/
def WithClause.ofQuery (query : List Token) (balanced : Token.nesting? 0 query = some 0) :
    WithClause where
  before := []
  withWord := ⟨"WITH", by decide⟩
  tables := ⟨⟨[.space], ⟨⟨⟨"c", none⟩, by decide⟩, [.space], ⟨"AS", by decide⟩, [.space], query,
    balanced⟩, []⟩, []⟩

/-- The deletion `DELETE FROM t`, with a blank before it. -/
def MainStatement.deleteFromT : MainStatement where
  before := [.space]
  word := ⟨"DELETE", by decide⟩
  rest := [.blank .space, .word ⟨"FROM", none⟩, .blank .space, .word ⟨"t", none⟩]

/-- The nodes of `DELETE FROM t`, with a blank before it. -/
theorem MainStatement.statementNodes_deleteFromT :
    statementNodes deleteFromT.tokens =
      [.leaf .blank " ", .leaf .keyword "DELETE", .leaf .blank " ", .leaf .keyword "FROM",
        .leaf .blank " ", .leaf (.identifier ⟨"t", none, none⟩) "t"] := by
  let deleteWord : Spelled ["DELETE"] := ⟨"DELETE", by decide⟩
  let fromWord : Spelled ["FROM"] := ⟨"FROM", by decide⟩
  have hbefore : Makes none (Blank.tokens [.space]) (Blank.nodes [.space]) := .blanks _
  have hdelete := hbefore.append_clause deleteWord (by decide) (.blanks [.space])
  have hfrom := hdelete.append_clause fromWord (by decide)
    (ItemPhrase.makes_list PlainName.column (startsItem_keyword fromWord (by decide))
      ⟨⟨[.space], plainWord "t" (by decide) (by decide), []⟩, []⟩)
  exact hfrom.statementNodes_eq

/-- The tables of `DELETE FROM t` are found behind a clause whose query has no `FROM`. -/
theorem findings_with_name :
    (WithClause.ofQuery [.word ⟨"a", none⟩] rfl).Lacks "FROM" ∧
      (groupStatement ((WithClause.ofQuery [.word ⟨"a", none⟩] rfl).tokens ++
        MainStatement.deleteFromT.tokens)).tableCandidates = ["t"] := by
  have hlacks : (WithClause.ofQuery [.word ⟨"a", none⟩] rfl).Lacks "FROM" := by
    have hbody : Makes none [.word ⟨"a", none⟩] [(plainWord "a" (by decide) (by decide)).node] :=
      ItemPhrase.makes_list PlainName.column rfl
        ⟨⟨[], plainWord "a" (by decide) (by decide), []⟩, []⟩
    intro table hmem
    obtain rfl := List.mem_singleton.1 hmem
    show ∀ node ∈ statementNodes [.word ⟨"a", none⟩], node.isKeyword "FROM" = false
    rw [hbody.statementNodes_eq, List.forall_mem_singleton]
    rfl
  have hkind : (groupStatement MainStatement.deleteFromT.tokens).statementKind = .delete := by
    rw [statementKind_groupStatement MainStatement.statementNodes_deleteFromT]
    rfl
  have hfound := (findings_with (.ofQuery [.word ⟨"a", none⟩] rfl)
    .deleteFromT).2.2.2.2 hkind
  refine ⟨hlacks, (hfound.2 hlacks).trans ?_⟩
  rw [tableCandidates_groupStatement MainStatement.statementNodes_deleteFromT]
  rfl

/-- The table of `DELETE FROM t` is hidden by a clause whose query has a `FROM`. -/
theorem tableCandidates_with_delete :
    (groupStatement MainStatement.deleteFromT.tokens).tableCandidates = ["t"] ∧
      (groupStatement ((WithClause.ofQuery Selection.xFromA.tokens rfl).tokens ++
        MainStatement.deleteFromT.tokens)).tableCandidates = ["a"] := by
  have hwhole := (WithClause.ofQuery Selection.xFromA.tokens rfl).statementNodes_append .deleteFromT
  have hbody : statementNodes Selection.xFromA.tokens = Selection.xFromA.nodes :=
    Selection.xFromA.makes.statementNodes_eq
  rw [MainStatement.statementNodes_deleteFromT] at hwhole
  rw [tableCandidates_groupStatement MainStatement.statementNodes_deleteFromT,
    tableCandidates_groupStatement hwhole]
  constructor
  · rfl
  · simp only [WithClause.nodes, WithClause.ofQuery, CommaList.spread, CommaList.joined,
      Padded.nodes, CommonTable.nodes, hbody]
    rfl

end SqlFootprint
