import SqlFootprint.Proofs.TableReferences

/-!
# Insertions of a selection

An insertion names its table and, if it likes, its columns, and a query says what is inserted. The
query is any tokens that start with `SELECT`. `candidates_insertion` says that it is analysed as it
would be alone: the insertion adds its table to the tables of the query, and its columns, where it
lists them, stand for those of the query.
-/

namespace SqlFootprint

/-! ### The clauses of an insertion -/

/-- An insertion up to its table. -/
structure InsertLead where
  /-- The blanks before the insertion. -/
  before : List Blank
  insertWord : Spelled ["INSERT"]
  /-- The blanks between the keywords. -/
  between : List Blank
  intoWord : Spelled ["INTO"]
  table : Padded PlainName

/-- The tokens up to the table. -/
def InsertLead.tokens (lead : InsertLead) : List Token :=
  Blank.tokens lead.before ++ lead.insertWord.token ::
    (Blank.tokens lead.between ++ lead.intoWord.token :: lead.table.tokens PlainName.tokens)

/-- A list of columns in parentheses, with the blanks after it. -/
structure InsertColumns where
  list : CommaList (Padded SingleWord)
  after : List Blank

/-- An insertion of what a query selects, and whatever tokens the query goes on with. -/
structure Insertion where
  before : List Blank
  insertWord : Spelled ["INSERT"]
  between : List Blank
  intoWord : Spelled ["INTO"]
  table : Padded PlainName
  columns : Option InsertColumns
  selectWord : Spelled ["SELECT"]
  rest : List Token

/-- The tokens of the list. -/
def InsertColumns.tokens (columns : InsertColumns) : List Token :=
  .openParen :: (columns.list.tokens (fun column ↦ [.word column.word]) ++ [.closeParen]) ++
    Blank.tokens columns.after

/-- The names in the list. -/
def InsertColumns.names (columns : InsertColumns) : List String :=
  columns.list.items.map fun column ↦ column.word.value

namespace Insertion

/-- The insertion up to its table. -/
def lead (insertion : Insertion) : InsertLead where
  before := insertion.before
  insertWord := insertion.insertWord
  between := insertion.between
  intoWord := insertion.intoWord
  table := insertion.table

/-- The query as a statement of its own. -/
def query (insertion : Insertion) : List Token := insertion.selectWord.token :: insertion.rest

/-- The tokens between `INTO` and the query. -/
def targetTokens (insertion : Insertion) : List Token :=
  insertion.table.tokens PlainName.tokens ++ insertion.columns.elim [] InsertColumns.tokens

/-- The tokens of the insertion. -/
def tokens (insertion : Insertion) : List Token :=
  Blank.tokens insertion.before ++ insertion.insertWord.token ::
    (Blank.tokens insertion.between ++ insertion.intoWord.token ::
      (insertion.targetTokens ++ insertion.query))

end Insertion

/-! ### Nodes -/

/-- A single word as an item of a list. -/
def SingleWord.phrase (column : SingleWord) : Grouping.ItemPhrase where
  tokens := [.word column.word]
  raw := [column.node]
  node := column.node
  isItem := rfl
  front _ _ _ hrest := column.front hrest
  folds := Grouping.groupAliases_cons_blanks column.node

/-- The nodes of the list. -/
def InsertColumns.nodes (columns : InsertColumns) : List Node :=
  .punctuation "(" :: (columns.list.nodes (·.phrase.node) ++
    .punctuation ")" :: Blank.nodes columns.after)

namespace InsertLead

open Grouping

variable (lead : InsertLead)

/-- The nodes up to the table. -/
def nodes : List Node :=
  Blank.nodes lead.before ++ lead.insertWord.node ::
    (Blank.nodes lead.between ++ lead.intoWord.node ::
      lead.table.nodes fun name ↦ [name.node])

/-- A table without aliases stays as it is. -/
theorem regroup_table (table : Padded PlainName) :
    regroup (table.nodes fun name ↦ [name.node]) = table.nodes fun name ↦ [name.node] := by
  have hspread : regroup ((CommaList.mk table []).spread fun name ↦ [name.node]) =
      (CommaList.mk table []).nodes PlainName.node :=
    ItemPhrase.regroup_list PlainName.column ⟨table, []⟩
  simpa [CommaList.spread, CommaList.joined, CommaList.nodes, CommaList.node, CommaList.lastBlanks,
    Padded.nodes] using hspread

/-- The table is read after `INTO`, also before a parenthesis. -/
theorem front_table {rest : List Token} (hrest : rest.head? ≠ some .period) :
    Front (some lead.intoWord.node) (lead.table.tokens PlainName.tokens) rest
      (lead.table.nodes fun name ↦ [name.node]) := by
  have hinto : follows (some lead.intoWord.node) "INTO" = true :=
    lead.intoWord.isKeyword_eq (by decide)
  refine (Front.blanks lead.table.before).append ?_
  rw [lastOf_blanks]
  refine (Front.target lead.table.item hinto ?_).append (.blanks lead.table.after)
  cases lead.table.after with
  | nil => exact hrest
  | cons blank blanks => exact nofun

/-- The tokens up to the table are read as their nodes, also before a parenthesis. -/
theorem front {rest : List Token} (hrest : rest.head? ≠ some .period) :
    Front none lead.tokens rest lead.nodes := by
  have hinsert := Front.clause lead.insertWord (by decide)
  have hinto := Front.clause lead.intoWord (by decide)
  refine (Front.blanks lead.before).append ((hinsert _ _).append ?_)
  exact (Front.blanks lead.between).append ((hinto _ _).append (lead.front_table hrest))

/-- The nodes up to the table stay as they are. -/
theorem regroup_nodes : regroup lead.nodes = lead.nodes := by
  have hinsert := isBarrier_clause lead.insertWord (by decide)
  have hinto := isBarrier_clause lead.intoWord (by decide)
  rw [nodes, regroup_append_cons hinsert, regroup_append_cons hinto, regroup_blanks,
    regroup_blanks, regroup_table]

end InsertLead

namespace Insertion

open Grouping
open InsertLead (regroup_table)

/-- The nodes between `INTO` and the query. -/
def targetNodes (insertion : Insertion) : List Node :=
  insertion.table.nodes (fun name ↦ [name.node]) ++ insertion.columns.elim [] InsertColumns.nodes

/-- The nodes before the query. -/
def head (insertion : Insertion) : List Node :=
  Blank.nodes insertion.before ++ insertion.insertWord.node ::
    (Blank.nodes insertion.between ++ insertion.intoWord.node :: insertion.targetNodes)

/-- Before the query stand the nodes up to the table and the columns. -/
theorem head_eq (insertion : Insertion) :
    insertion.head = insertion.lead.nodes ++ insertion.columns.elim [] InsertColumns.nodes := by
  rw [head, targetNodes, InsertLead.nodes, List.append_assoc, List.cons_append, List.append_assoc,
    List.cons_append]
  rfl

private theorem makes_target (insertion : Insertion) :
    Makes (some insertion.intoWord.node) insertion.targetTokens insertion.targetNodes := by
  intro rest hrest
  rw [targetTokens, targetNodes]
  cases insertion.columns with
  | none =>
    rw [Option.elim_none, Option.elim_none, List.append_nil, List.append_nil]
    exact ⟨_, insertion.lead.front_table hrest.1, regroup_table insertion.table⟩
  | some columns =>
    let raw := columns.list.spread fun column ↦ [column.node]
    have hclose (more : List Token) : Apart (.closeParen :: more) :=
      apart_cons more rfl Token.noConfusion Token.noConfusion
    have hlist (last : Option Node) (more : List Token) :
        Front last (.openParen :: (columns.list.tokens (·.phrase.tokens) ++ [.closeParen])) more
          (.punctuation "(" :: (raw ++ [.punctuation ")"])) :=
      .parens (ItemPhrase.front_list SingleWord.phrase rfl (hclose more) columns.list)
    have hopen : IsBarrier (.punctuation "(") := isBarrier_punctuation (by decide) (by decide)
    have hclosed : IsBarrier (.punctuation ")") := isBarrier_punctuation (by decide) (by decide)
    have htable (more : List Token) : Front _ _ (.openParen :: more) _ :=
      insertion.lead.front_table nofun
    have hraw : regroup raw = _ := ItemPhrase.regroup_list SingleWord.phrase columns.list
    refine ⟨_, (htable _).append ((hlist _ _).append (.blanks columns.after)), ?_⟩
    rw [List.cons_append, List.append_assoc, List.singleton_append, regroup_append_cons hopen,
      regroup_append_cons hclosed, regroup_table, regroup_blanks, hraw]
    rfl

/-- The query is grouped as it is alone. -/
theorem statementNodes_eq (insertion : Insertion) :
    statementNodes insertion.tokens = insertion.head ++ statementNodes insertion.query := by
  have hbefore : Makes none (Blank.tokens insertion.before) (Blank.nodes insertion.before) :=
    .blanks insertion.before
  have hinsert := hbefore.append_clause insertion.insertWord (by decide)
    (.blanks insertion.between)
  have hinto := hinsert.append_clause insertion.intoWord (by decide) insertion.makes_target
  have hnodes := hinto.statementNodes_append insertion.selectWord (by decide) insertion.rest
  simpa only [tokens, head, query, List.append_assoc, List.cons_append] using hnodes

end Insertion

/-! ### Tables and columns -/

/-- Among nodes that are no blanks, a node stands alone where it has blanks around it. -/
theorem Blank.filter_padded (before after : List Blank) {node : Node}
    (h : node.isBlank = false) (rest : List Node) :
    (nodes before ++ node :: (nodes after ++ rest)).filter (fun node ↦ !node.isBlank) =
      node :: rest.filter fun node ↦ !node.isBlank := by
  have hblanks (blanks : List Blank) : (nodes blanks).filter (fun node ↦ !node.isBlank) = [] := by
    rw [List.filter_eq_nil_iff]
    intro node hmem
    rw [isBlank_nodes blanks node hmem]
    nofun
  rw [List.filter_append, hblanks, List.nil_append, List.filter_cons_of_pos (by simp [h]),
    List.filter_append, hblanks, List.nil_append]

private theorem SingleWord.identifier?_phrase (column : SingleWord) :
    column.phrase.node.identifier?.map Identifier.name = some column.word.value := rfl

/-- Blanks are no keywords. -/
theorem Blank.isKeyword_nodes (word : String) (blanks : List Blank) :
    ∀ node ∈ nodes blanks, node.isKeyword word = false :=
  forall_mem_nodes (fun _ ↦ rfl) blanks

/-- A list of columns has no keywords. -/
theorem SingleWord.isKeyword_nodes (word : String) (columns : CommaList (Padded SingleWord)) :
    ∀ node ∈ columns.nodes (·.phrase.node), node.isKeyword word = false := by
  have hlist : (columns.node (·.phrase.node)).isKeyword word = false := by
    rw [Node.isKeyword, Grouping.isAnyKeyword_node fun column ↦ column.phrase.isItem,
      Bool.false_and]
  rw [CommaList.nodes, List.forall_mem_append, List.forall_mem_cons]
  exact ⟨Blank.isKeyword_nodes word _, hlist, Blank.isKeyword_nodes word _⟩

namespace InsertLead

variable (lead : InsertLead)

/-- What follows `INTO` is found. -/
theorem afterKeyword?_into (rest : List Node) :
    Node.afterKeyword? "INTO" (lead.nodes ++ rest) =
      some (lead.table.nodes (fun name ↦ [name.node]) ++ rest) := by
  have hinsert : lead.insertWord.node.isKeyword "INTO" = false :=
    lead.insertWord.isKeyword_eq (by decide)
  rw [nodes, List.append_assoc, List.cons_append, List.append_assoc, List.cons_append,
    Node.afterKeyword?_blanks, Node.afterKeyword?_cons hinsert, Node.afterKeyword?_blanks,
    Node.afterKeyword?_keyword _ (by decide)]

/-- No query starts up to the table. -/
theorem isKeyword_nodes : ∀ node ∈ lead.nodes, node.isKeyword "SELECT" = false := by
  have hblanks := Blank.isKeyword_nodes "SELECT"
  simp only [nodes, Padded.nodes, List.singleton_append, List.forall_mem_append,
    List.forall_mem_cons]
  exact ⟨hblanks _, lead.insertWord.isKeyword_eq (by decide), hblanks _,
    lead.intoWord.isKeyword_eq (by decide), hblanks _, rfl, hblanks _⟩

/-- The table of an insertion is the name after `INTO`. -/
theorem insertTarget_nodes (rest : List Node) :
    Tables.insertTarget (lead.nodes ++ rest) = [lead.table.item.lastPart] := by
  have hname : lead.table.item.node.realNames = [lead.table.item.lastPart] := by
    rw [← lead.table.item.identifier_name]
    rfl
  have hfront := Node.significant?_blanks_append lead.table.before lead.table.item.node
    (Blank.nodes lead.table.after ++ rest) rfl
  rw [Tables.insertTarget, afterKeyword?_into, Option.bind_some, Padded.nodes]
  simp only [List.append_assoc, List.cons_append, List.nil_append, hfront]
  exact hname

/-- A statement that starts so is an insertion. -/
theorem ofNodes_nodes (rest : List Node) :
    StatementKind.ofNodes (lead.nodes ++ rest) = .insert := by
  have hinsert : ∀ entry ∈ ["INSERT"], StatementKind.ofKeyword? entry = some .insert := by decide
  rw [nodes, List.append_assoc, List.cons_append, StatementKind.ofNodes_keyword _ hinsert]

/-- A list of columns is found with its names and what follows them. -/
theorem insertList_columns (columns : CommaList (Padded SingleWord)) (rest : List Node) :
    Columns.insertList
        (lead.nodes ++ .punctuation "(" :: (columns.nodes (·.phrase.node) ++ rest)) =
      let more := Columns.listAfterParen (rest.filter fun node ↦ !node.isBlank)
      { more with
        columns := columns.items.map (fun column ↦ column.word.value) ++ more.columns } := by
  obtain ⟨hname, hnames⟩ := Grouping.isName_node SingleWord.identifier?_phrase columns
  have htable := Blank.filter_padded lead.table.before lead.table.after
    (rfl : lead.table.item.node.isBlank = false)
  have hlist := Blank.filter_padded columns.first.before columns.lastBlanks
    (Node.isBlank_of_isName hname) rest
  rw [Columns.insertList, afterKeyword?_into, Padded.nodes]
  simp only [List.append_assoc, List.cons_append, List.nil_append, htable]
  rw [List.filter_cons_of_pos rfl, CommaList.nodes, List.append_assoc, List.cons_append, hlist]
  show Columns.listAfterParen _ = _
  rw [Columns.listAfterParen, if_pos hname, hnames]

end InsertLead

namespace Insertion

/-- No query starts before the one that is inserted. -/
theorem isKeyword_head (insertion : Insertion) :
    ∀ node ∈ insertion.head, node.isKeyword "SELECT" = false := by
  have hcolumns : ∀ node ∈ insertion.columns.elim [] InsertColumns.nodes,
      node.isKeyword "SELECT" = false := by
    cases insertion.columns with
    | none => exact nofun
    | some columns =>
      simp only [Option.elim_some, InsertColumns.nodes, List.forall_mem_cons,
        List.forall_mem_append]
      exact ⟨rfl, SingleWord.isKeyword_nodes "SELECT" columns.list, rfl,
        Blank.isKeyword_nodes "SELECT" columns.after⟩
  rw [head_eq, List.forall_mem_append]
  exact ⟨insertion.lead.isKeyword_nodes, hcolumns⟩

/-- A list of columns is found with all its names; without one, no column is. -/
theorem insertList_head (insertion : Insertion) (rest : List Node) :
    Columns.insertList (insertion.head ++ insertion.selectWord.node :: rest) =
      insertion.columns.elim {} fun columns ↦ ⟨columns.names, true⟩ := by
  rw [head_eq, List.append_assoc]
  cases insertion.columns with
  | none =>
    have htable := Blank.filter_padded insertion.lead.table.before insertion.lead.table.after
      (rfl : insertion.lead.table.item.node.isBlank = false)
    rw [Columns.insertList, InsertLead.afterKeyword?_into, Padded.nodes]
    simp only [List.append_assoc, List.cons_append, List.nil_append, htable]
    rfl
  | some columns =>
    have hclosed (more : List Node) :
        Columns.listAfterParen ((.punctuation ")" :: more).filter fun node ↦ !node.isBlank) =
          ⟨[], true⟩ := rfl
    rw [Option.elim_some, InsertColumns.nodes, List.cons_append, List.append_assoc,
      List.cons_append, InsertLead.insertList_columns, hclosed]
    exact congrArg (Columns.ColumnList.mk · true) (List.append_nil columns.names)

end Insertion

/-- A query that is inserted is analysed as it is alone: an insertion has its table and the tables
of the query, and the columns it lists or, without a list, those of the query. -/
theorem candidates_insertion (insertion : Insertion) :
    (groupStatement insertion.tokens).tableCandidates =
        insertion.table.item.lastPart :: (groupStatement insertion.query).tableCandidates ∧
      (groupStatement insertion.tokens).columnCandidates = insertion.columns.elim
        (groupStatement insertion.query).columnCandidates InsertColumns.names := by
  have hselect : ∀ entry ∈ ["SELECT"], StatementKind.ofKeyword? entry = some .select := by decide
  obtain ⟨after, hquery⟩ : ∃ after, Grouping.statementNodes insertion.query =
      insertion.selectWord.node :: after :=
    (Grouping.Cuts.clause insertion.selectWord (by decide)).exists_statementNodes_eq insertion.rest
  have hnodes := insertion.statementNodes_eq
  have hafter := Node.afterKeyword?_append insertion.isKeyword_head
    (insertion.selectWord.node :: after)
  rw [hquery] at hnodes
  have hkind : StatementKind.ofNodes (insertion.head ++ insertion.selectWord.node :: after) =
      .insert := by
    rw [Insertion.head_eq, List.append_assoc, InsertLead.ofNodes_nodes]
  have hkindQuery : StatementKind.ofNodes (insertion.selectWord.node :: after) = .select :=
    StatementKind.ofNodes_keyword insertion.selectWord hselect [] after
  have hfound : Node.afterKeyword? "SELECT" (insertion.selectWord.node :: after) = some after :=
    Node.afterKeyword?_keyword _ (by decide) after
  constructor
  · have htarget : Tables.insertTarget (insertion.head ++ insertion.selectWord.node :: after) =
        [insertion.table.item.lastPart] := by
      rw [Insertion.head_eq, List.append_assoc]
      exact insertion.lead.insertTarget_nodes _
    have hscan := Tables.scanLists_restart (insertion.selectWord.isKeyword_eq (by decide))
      (by decide : Tables.Scan.inList.onKeyword "SELECT" = .outside) (by decide) (by decide)
      .outside none after
    rw [tableCandidates_groupStatement hnodes, tableCandidates_groupStatement hquery, hkind,
      hkindQuery, Tables.candidates, Tables.candidates, htarget, hafter, hfound,
      hscan]
    rfl
  · have hprojection : Columns.projection (insertion.head ++ insertion.selectWord.node :: after) =
        Columns.projection (insertion.selectWord.node :: after) := by
      rw [Columns.projection, Columns.projection, hafter]
    rw [columnCandidates_groupStatement hnodes, columnCandidates_groupStatement hquery, hkind,
      hkindQuery, Columns.candidates, Columns.candidates, Insertion.insertList_head]
    cases insertion.columns with
    | none => exact hprojection
    | some columns => rfl

end SqlFootprint
