import SqlFootprint.Proofs.Insertions
import SqlFootprint.Proofs.Kinds
import SqlFootprint.Proofs.Prefixes

/-!
# Column lists of insertions

An insertion may list its columns in parentheses after the table. `candidates_columnList` says that
the names in the list are its columns: where the parenthesis is closed, whatever follows, and where
it is not, at the end and before `VALUES` and tokens without `SELECT`; before a query that closes
all its own parentheses, the columns of the query follow the names.
-/

namespace SqlFootprint

open Grouping

/-! ### Tokens behind marked nodes -/

namespace Grouping.Marks

variable {α : Type} {f : Node → Option α} {g : Token → Option α}

private theorem exists_mem_reads (h : Marks f g) {last : Option Node} {depth : Nat}
    {tokens left : List Token} {nodes : List Node} (hreads : Reads last depth tokens nodes left) :
    ∀ node ∈ nodes, (f node).isSome = true → ∃ token ∈ tokens, g token = f node := by
  have hfirst {node : Node} (hkeyword : node.isAnyKeyword = false)
      (hmark : node.isAnyPunctuation = false) {tokens : List Token}
      (hsome : (f node).isSome = true) : ∃ token ∈ tokens, g token = f node := by
    rw [h.eq_none hkeyword hmark] at hsome
    cases hsome
  have hrest {nodes : List Node} {rest tokens : List Token} (hsuffix : rest <:+ tokens)
      (hnodes : ∀ node ∈ nodes, (f node).isSome = true → ∃ token ∈ rest, g token = f node) :
      ∀ node ∈ nodes, (f node).isSome = true → ∃ token ∈ tokens, g token = f node := by
    intro node hmem hsome
    obtain ⟨token, htoken, hmark⟩ := hnodes node hmem hsome
    exact ⟨token, hsuffix.mem htoken, hmark⟩
  induction hreads with
  | done => exact nofun
  | stop => exact nofun
  | skip _ ih => exact hrest (List.suffix_cons _ _) ih
  | leaf hnode _ _ ih =>
    rw [List.forall_mem_cons]
    exact ⟨fun _ ↦ ⟨_, List.mem_cons_self, (h.leaf hnode).symm⟩, hrest (List.suffix_cons _ _) ih⟩
  | name _ _ _ ih =>
    rw [List.forall_mem_cons]
    exact ⟨hfirst rfl rfl, hrest ((afterName_suffix _ _).trans (List.suffix_cons _ _)) ih⟩
  | call _ hafter _ hinside hnode _ _ ih =>
    subst hnode
    rw [List.forall_mem_cons]
    exact ⟨hfirst rfl rfl, hrest (hinside.suffix_call hafter) ih⟩
  | openCall _ _ _ _ hnode =>
    subst hnode
    rw [List.forall_mem_singleton]
    exact hfirst rfl rfl

private theorem mem_of_mem_regroup (h : Marks f g) {nodes : List Node} {node : Node}
    (hmem : node ∈ regroup nodes) (hsome : (f node).isSome = true) : node ∈ nodes := by
  have hfilter := filter_regroup (p := fun node ↦ (f node).isSome)
    (fun node hmark ↦ (h.barrier node hmark).1) (fun node hmark ↦ (h.barrier node hmark).2) nodes
  have hkept : node ∈ (regroup nodes).filter fun node ↦ (f node).isSome :=
    List.mem_filter.2 ⟨hmem, hsome⟩
  rw [hfilter] at hkept
  exact List.mem_of_mem_filter hkept

private theorem closeParen (h : Marks f g) : f (.punctuation ")") = none := by
  have hleaf : tokenNode? none [] .closeParen = some (.punctuation ")") := rfl
  rw [h.leaf hleaf]
  exact h.silent _ (by simp)

private theorem exists_mem_level (h : Marks f g) {last : Option Node} {depth : Nat}
    {tokens left : List Token} {nodes : List Node} (hreads : Reads last depth tokens nodes left) :
    ∀ node ∈ regroup nodes ++ unreadNodes left, (f node).isSome = true →
      ∃ token ∈ tokens, g token = f node := by
  rw [List.forall_mem_append]
  refine ⟨fun node hmem hsome ↦ ?_, ?_⟩
  · exact h.exists_mem_reads hreads node (h.mem_of_mem_regroup hmem hsome) hsome
  · rcases hreads.left_eq with rfl | ⟨more, rfl⟩
    · exact nofun
    · obtain ⟨others, unread, hmore⟩ := exists_reads none 0 more
      have hsuffix : more <:+ tokens := (List.suffix_cons _ _).trans hreads.suffix
      have hlength : more.length < tokens.length := hreads.suffix.length_le
      rw [unreadNodes, List.forall_mem_cons, hmore.statementNodes_eq_unread]
      refine ⟨fun hsome ↦ ?_, fun node hmem hsome ↦ ?_⟩
      · rw [h.closeParen] at hsome
        cases hsome
      · obtain ⟨token, htoken, hmark⟩ := h.exists_mem_level hmore node hmem hsome
        exact ⟨token, hsuffix.mem htoken, hmark⟩
termination_by tokens.length

end Grouping.Marks

/-! ### Lists of columns -/

/-- An insertion up to the last of the columns that it lists. -/
structure ColumnListHead where
  lead : InsertLead
  columns : CommaList (Padded SingleWord)

namespace ColumnListHead

variable (head : ColumnListHead)

/-- The tokens of the insertion, given those behind the last column. -/
def tokens (rest : List Token) : List Token :=
  head.lead.tokens ++ .openParen :: (head.columns.tokens (·.phrase.tokens) ++ rest)

/-- The names in the list. -/
def names : List String := head.columns.items.map fun column ↦ column.word.value

/-- The nodes up to the last column, lists not yet grouped. -/
def raw : List Node :=
  head.lead.nodes ++ .punctuation "(" :: head.columns.spread (·.phrase.raw)

/-- The nodes up to the last column. -/
def nodes : List Node :=
  head.lead.nodes ++ .punctuation "(" :: head.columns.nodes (·.phrase.node)

/-- The columns are read on their own, and what follows them within the parenthesis. -/
theorem reads {rest left : List Token} {more : List Node} (hrest : Apart rest)
    (hmore : Reads (lastOf none head.raw) 1 rest more left) :
    Reads none 0 (head.tokens rest) (head.raw ++ more) left := by
  have hcolumns : Front (some (.punctuation "(")) (head.columns.tokens (·.phrase.tokens)) rest
      (head.columns.spread (·.phrase.raw)) :=
    ItemPhrase.front_list SingleWord.phrase rfl hrest head.columns
  have hlead : Front none head.lead.tokens
      (.openParen :: (head.columns.tokens (·.phrase.tokens) ++ rest)) head.lead.nodes :=
    head.lead.front nofun
  rw [raw, lastOf_append] at hmore
  rw [tokens, raw, List.append_assoc, List.cons_append]
  exact hlead _ _ _ (.leaf rfl rfl (hcolumns _ _ _ hmore))

/-- The nodes up to the last column are grouped on their own. -/
theorem regroup_raw : regroup head.raw = head.nodes := by
  have hopen : IsBarrier (.punctuation "(") := isBarrier_punctuation (by decide) (by decide)
  rw [raw, regroup_append_cons hopen, head.lead.regroup_nodes, ItemPhrase.regroup_list, nodes]

/-- Before a barrier, the columns are grouped on their own. -/
theorem statementNodes_eq {rest left : List Token} {node : Node} {more : List Node}
    (hrest : Apart rest) (hbarrier : IsBarrier node)
    (hmore : Reads (lastOf none head.raw) 1 rest (node :: more) left) :
    statementNodes (head.tokens rest) =
      head.nodes ++ node :: (regroup more ++ unreadNodes left) := by
  rw [(head.reads hrest hmore).statementNodes_eq_unread, regroup_append_cons hbarrier,
    head.regroup_raw, List.append_assoc, List.cons_append]

private theorem insertList_nodes (rest : List Node) :
    Columns.insertList (head.nodes ++ rest) =
      let more := Columns.listAfterParen (rest.filter fun node ↦ !node.isBlank)
      { more with columns := head.names ++ more.columns } := by
  rw [nodes, List.append_assoc, List.cons_append]
  exact head.lead.insertList_columns head.columns rest

private theorem isKeyword_nodes : ∀ node ∈ head.nodes, node.isKeyword "SELECT" = false := by
  rw [nodes, List.forall_mem_append, List.forall_mem_cons]
  exact ⟨head.lead.isKeyword_nodes, rfl, SingleWord.isKeyword_nodes "SELECT" head.columns⟩

/-- A statement that starts so is an insertion, into its table first of all. -/
theorem tableCandidates_head {tokens : List Token} {rest : List Node}
    (h : statementNodes tokens = head.nodes ++ rest) :
    (groupStatement tokens).tableCandidates.head? = some head.lead.table.item.lastPart := by
  have hnodes : head.nodes ++ rest = head.lead.nodes ++
      (.punctuation "(" :: (head.columns.nodes (·.phrase.node) ++ rest)) := by
    rw [nodes, List.append_assoc, List.cons_append]
  rw [tableCandidates_groupStatement h, hnodes, InsertLead.ofNodes_nodes, Tables.candidates,
    InsertLead.insertTarget_nodes]
  rfl

/-- The columns of an insertion are the names in its list, and the columns of a query where the list
is not closed. -/
theorem columnCandidates_eq {tokens : List Token} {rest : List Node} {closed : Bool}
    (h : statementNodes tokens = head.nodes ++ rest)
    (hlist : Columns.listAfterParen (rest.filter fun node ↦ !node.isBlank) = ⟨[], closed⟩) :
    (groupStatement tokens).columnCandidates =
      head.names ++ if closed then [] else Columns.projection rest := by
  have hkind : StatementKind.ofNodes (head.nodes ++ rest) = .insert := by
    rw [nodes, List.append_assoc, InsertLead.ofNodes_nodes]
  have hprojection : Columns.projection (head.nodes ++ rest) = Columns.projection rest := by
    rw [Columns.projection, Columns.projection, Node.afterKeyword?_append head.isKeyword_nodes]
  rw [columnCandidates_groupStatement h, hkind, Columns.candidates, insertList_nodes, hlist,
    hprojection]
  cases closed with
  | true => rfl
  | false => simp only [Bool.false_eq_true, ↓reduceIte, List.append_nil]

/-- Behind the closed list, whatever follows is a part of its own. -/
theorem exists_statementNodes_closed (rest : List Token) :
    ∃ after, statementNodes (head.tokens (.closeParen :: rest)) =
      head.nodes ++ .punctuation ")" :: after := by
  obtain ⟨more, left, hmore⟩ := exists_reads (some (.punctuation ")")) 0 rest
  have hclose : IsBarrier (.punctuation ")") := isBarrier_punctuation (by decide) (by decide)
  have hapart : Apart (.closeParen :: rest) :=
    apart_cons rest rfl Token.noConfusion Token.noConfusion
  exact ⟨_, head.statementNodes_eq hapart hclose (.leaf rfl rfl hmore)⟩

/-- At the end of the tokens, an insertion ends with its last column. -/
theorem statementNodes_nil : statementNodes (head.tokens []) = head.nodes ++ [] := by
  rw [(head.reads apart_nil .done).statementNodes_eq, List.append_nil, List.append_nil,
    head.regroup_raw]

/-- A keyword that starts a clause ends a list that is not closed, and what follows it has only the
marks of its own tokens. -/
theorem exists_statementNodes_clause {words : List String} (word : Spelled words)
    (hwords : ∀ entry ∈ words, Keyword.startsClause entry = true) {α : Type}
    {f : Node → Option α} {g : Token → Option α} (h : Marks f g) (rest : List Token) :
    ∃ after, statementNodes (head.tokens (word.token :: rest)) =
        head.nodes ++ word.node :: after ∧
      ∀ node ∈ after, (f node).isSome = true → ∃ token ∈ rest, g token = f node := by
  obtain ⟨more, left, hmore⟩ := exists_reads (some word.node) 1 rest
  have hclause : Reads (lastOf none head.raw) 1 (word.token :: rest) (word.node :: more) left :=
    Front.clause word hwords _ rest 1 more left hmore
  exact ⟨_, head.statementNodes_eq (apart_keyword word rest) (isBarrier_clause word hwords) hclause,
    h.exists_mem_level hmore⟩

/-- A query that closes all its parentheses is grouped within the list as it is alone. -/
theorem statementNodes_query (selectWord : Spelled ["SELECT"]) {rest : List Token}
    (hbalanced : Token.nesting? 0 rest = some 0) :
    statementNodes (head.tokens (selectWord.token :: rest)) =
      head.nodes ++ statementNodes (selectWord.token :: rest) := by
  have hbarrier : IsBarrier selectWord.node := isBarrier_clause selectWord (by decide)
  have hclause := Front.clause selectWord (by decide)
  obtain ⟨more, hmore⟩ := exists_reads_of_nesting (some selectWord.node) hbalanced
  have hparted : Parted rest [] := ⟨apart_nil, fun _ ↦ rfl⟩
  have hwithin : Reads (some selectWord.node) 1 (rest ++ []) (more ++ []) [] :=
    Front.of_reads hmore hbalanced hparted 1 [] [] .done
  rw [List.append_nil, List.append_nil] at hwithin
  have hquery : Reads none 0 (selectWord.token :: rest) (selectWord.node :: more) [] :=
    hclause none rest 0 more [] hmore
  have hinside : Reads (lastOf none head.raw) 1 (selectWord.token :: rest)
      (selectWord.node :: more) [] := hclause _ rest 1 more [] hwithin
  have halone : regroup (selectWord.node :: more) = selectWord.node :: regroup more := by
    have hcut := regroup_append_cons hbarrier [] more
    rwa [regroup_nil] at hcut
  rw [hquery.statementNodes_eq, halone,
    head.statementNodes_eq (apart_keyword selectWord rest) hbarrier hinside, unreadNodes,
    List.append_nil]

end ColumnListHead

/-! ### What an insertion lists -/

namespace StatementKind

/-- The keyword `SELECT` names a kind. -/
theorem ofNode?_select {node : Node} (h : node.isKeyword "SELECT" = true) :
    ofNode? node = some .select := by
  obtain ⟨hkeyword, hsame⟩ := Bool.and_eq_true_iff.1 h
  have hkind : named.find? (fun kind ↦ Text.folded kind.word == Text.folded "SELECT") =
      some .select := by decide
  rw [ofNode?, if_pos hkeyword, ofKeyword?, ← hkind, ← Text.sameWord_iff.1 hsame]
  rfl

/-- A token that names a kind is the word of the kind. -/
theorem isWord_of_ofToken? {token : Token} {kind : StatementKind}
    (h : ofToken? token = some kind) : token.isWord kind.word = true := by
  unfold ofToken? at h
  split at h
  · next value =>
    have hsame := List.find?_some h
    rw [Token.isWord, Text.sameWord_comm]
    exact hsame
  · cases h

end StatementKind

/-- The columns of an insertion are the names in its list: where the list is closed, at the end, and
before `VALUES` without a query. Before a query that closes all its parentheses, the columns of the
query follow them. -/
theorem candidates_columnList (head : ColumnListHead) :
    (∀ rest, (groupStatement (head.tokens (.closeParen :: rest))).columnCandidates = head.names ∧
        (groupStatement (head.tokens (.closeParen :: rest))).tableCandidates.head? =
          some head.lead.table.item.lastPart) ∧
      (groupStatement (head.tokens [])).columnCandidates = head.names ∧
      (∀ (valuesWord : Spelled ["VALUES"]) (rest : List Token),
        (∀ token ∈ rest, token.isWord "SELECT" = false) →
          (groupStatement (head.tokens (valuesWord.token :: rest))).columnCandidates =
            head.names) ∧
      ∀ (selectWord : Spelled ["SELECT"]) (rest : List Token),
        Token.nesting? 0 (selectWord.token :: rest) = some 0 →
          (groupStatement (head.tokens (selectWord.token :: rest))).columnCandidates =
            head.names ++ (groupStatement (selectWord.token :: rest)).columnCandidates := by
  refine ⟨fun rest ↦ ?_, ?_, fun valuesWord rest hlacks ↦ ?_, fun selectWord rest hbalanced ↦ ?_⟩
  · obtain ⟨after, hnodes⟩ := head.exists_statementNodes_closed rest
    refine ⟨?_, head.tableCandidates_head hnodes⟩
    have hclosed : Columns.listAfterParen
        ((.punctuation ")" :: after).filter fun node ↦ !node.isBlank) = ⟨[], true⟩ := rfl
    rw [head.columnCandidates_eq hnodes hclosed, if_pos rfl, List.append_nil]
  · rw [head.columnCandidates_eq head.statementNodes_nil rfl, if_neg Bool.false_ne_true]
    exact List.append_nil _
  · obtain ⟨after, hnodes, hmarks⟩ :=
      head.exists_statementNodes_clause valuesWord (by decide) StatementKind.marks_ofNode? rest
    have hlist : Columns.listAfterParen
        ((valuesWord.node :: after).filter fun node ↦ !node.isBlank) = ⟨[], false⟩ := rfl
    have hnone : Node.afterKeyword? "SELECT" after = none := by
      rw [← Option.not_isSome_iff_eq_none, Node.isSome_afterKeyword?_iff]
      rintro ⟨node, hmem, hselect⟩
      have hkind := StatementKind.ofNode?_select hselect
      obtain ⟨token, htoken, hmark⟩ := hmarks node hmem (by rw [hkind]; rfl)
      have hword := StatementKind.isWord_of_ofToken? (hmark.trans hkind)
      exact Bool.false_ne_true ((hlacks token htoken).symm.trans hword)
    have hvalues : valuesWord.node.isKeyword "SELECT" = false :=
      valuesWord.isKeyword_eq (by decide)
    have hprojection : Columns.projection (valuesWord.node :: after) = [] := by
      rw [Columns.projection, Node.afterKeyword?_cons hvalues, hnone]
    rw [head.columnCandidates_eq hnodes hlist, if_neg Bool.false_ne_true, hprojection,
      List.append_nil]
  · have hselect : ∀ entry ∈ ["SELECT"], StatementKind.ofKeyword? entry = some .select := by decide
    obtain ⟨after, hquery⟩ :=
      (Cuts.clause selectWord (by decide)).exists_statementNodes_eq rest
    have hrest : Token.nesting? 0 rest = some 0 := hbalanced
    have hnodes := head.statementNodes_query selectWord hrest
    have hlist : Columns.listAfterParen
        ((selectWord.node :: after).filter fun node ↦ !node.isBlank) = ⟨[], false⟩ := rfl
    have hkind : StatementKind.ofNodes (selectWord.node :: after) = .select :=
      StatementKind.ofNodes_keyword selectWord hselect [] after
    rw [hquery] at hnodes
    rw [head.columnCandidates_eq hnodes hlist, if_neg Bool.false_ne_true,
      columnCandidates_groupStatement hquery, hkind]
    rfl

/-- Behind `INSERT INTO t(a, b`, `VALUES ((` adds no columns, and `SELECT c` adds its own. -/
theorem candidates_columnList_of_two :
    let lead : InsertLead :=
      ⟨[], ⟨"INSERT", by decide⟩, [.space], ⟨"INTO", by decide⟩,
        ⟨[.space], plainWord "t" (by decide) (by decide), []⟩⟩
    let head : ColumnListHead :=
      ⟨lead, ⟨⟨[], ⟨⟨"a", none⟩, by decide⟩, []⟩, [⟨[.space], ⟨⟨"b", none⟩, by decide⟩, [.space]⟩]⟩⟩
    let query : List Token := [.word ⟨"SELECT", none⟩, .blank .space, .word ⟨"c", none⟩]
    let values : List Token := [.word ⟨"VALUES", none⟩, .openParen, .openParen]
    (groupStatement (head.tokens values)).columnCandidates = ["a", "b"] ∧
      (groupStatement (head.tokens query)).columnCandidates =
        ["a", "b"] ++ (groupStatement query).columnCandidates := by
  intro lead head query values
  obtain ⟨-, -, hvalues, hquery⟩ := candidates_columnList head
  exact ⟨hvalues ⟨"VALUES", by decide⟩ [.openParen, .openParen] (by decide),
    hquery ⟨"SELECT", by decide⟩ [.blank .space, .word ⟨"c", none⟩] (by decide)⟩

end SqlFootprint
