import SqlFootprint.Proofs.ProjectionItems
import SqlFootprint.Proofs.SingleReferences
import SqlFootprint.Proofs.TableReferences

/-!
# Quantifiers of a query

`ALL` and `DISTINCT` leave the columns of a query as they are. A row limit does not: its number
takes a first column of one word for its alias, and a name behind its parentheses is one.
`columnCandidates_quantified` gives the columns of a query for each quantifier, and says when they
are those of the query without it.
-/

namespace SqlFootprint

open Grouping

/-! ### Queries -/

/-- A column with or without an alias. -/
structure NamedColumn where
  name : PlainName
  aliasPhrase : Option Alias

/-- The column as an item of a list. -/
def NamedColumn.phrase (column : NamedColumn) : ItemPhrase :=
  column.name.phrase.item column.aliasPhrase

/-- What stands between `SELECT` and the columns. -/
inductive Quantifier where
  | duplicates (keyword : Spelled ["ALL", "DISTINCT"])
  | top (keyword : Spelled ["TOP"]) (blanks : List Blank) (count : LiteralToken)
  | topInParens (keyword : Spelled ["TOP"]) (blanks : List Blank) (count : Padded LiteralToken)

/-- The tokens of the quantifier. -/
def Quantifier.tokens : Quantifier → List Token
  | duplicates keyword => [keyword.token]
  | top keyword blanks count => keyword.token :: (Blank.tokens blanks ++ [count.token])
  | topInParens keyword blanks count => keyword.token ::
      (Blank.tokens blanks ++ .openParen :: (count.tokens (fun count ↦ [count.token]) ++
        [.closeParen]))

/-- A selection of columns up to `FROM`, and whatever tokens follow it. -/
structure ColumnQuery where
  /-- The blanks before the selection. -/
  before : List Blank
  selectWord : Spelled ["SELECT"]
  columns : CommaList (Padded NamedColumn)
  fromWord : Spelled ["FROM"]
  rest : List Token

namespace ColumnQuery

/-- The tokens of the query around what stands between `SELECT` and `FROM`. -/
def around (query : ColumnQuery) (clause : List Token) : List Token :=
  Blank.tokens query.before ++
    query.selectWord.token :: (clause ++ query.fromWord.token :: query.rest)

/-- The tokens of the query. -/
def tokens (query : ColumnQuery) : List Token :=
  query.around (query.columns.tokens (·.phrase.tokens))

/-- The tokens of the query with a quantifier, and blanks before it. -/
def quantified (query : ColumnQuery) (blanks : List Blank) (quantifier : Quantifier) :
    List Token :=
  query.around (Blank.tokens blanks ++
    (quantifier.tokens ++ query.columns.tokens (·.phrase.tokens)))

end ColumnQuery

/-- The columns that names in a list stand for. -/
def NamedColumn.fullNames (columns : List NamedColumn) : List String :=
  columns.map (·.name.fullName)

/-! ### Clauses that give columns -/

/-- The tokens, after `last` and before `FROM`, give the columns. -/
def GivesColumns (last : Option Node) (tokens : List Token) (columns : List String) : Prop :=
  ∃ nodes, Makes last tokens nodes ∧ ∀ (fromWord : Spelled ["FROM"]) (after : List Node),
    Columns.scanItems .items last (nodes ++ fromWord.node :: after) = columns

/-- The column is read wherever it stands. -/
theorem NamedColumn.front (column : NamedColumn) {last : Option Node} {rest : List Token}
    (hrest : Apart rest) : Front last column.phrase.tokens rest column.phrase.raw := by
  rcases column with ⟨name, aliasPhrase⟩
  cases aliasPhrase with
  | none =>
    have hname := @Front.plainName last rest name hrest
    rwa [← List.append_nil name.tokens] at hname
  | some aliasPhrase =>
    exact (Front.plainName name (aliasPhrase.apart rest)).append (aliasPhrase.front hrest)

/-- A list of columns is read wherever it stands. -/
theorem NamedColumn.front_list (columns : CommaList (Padded NamedColumn)) {last : Option Node}
    {rest : List Token} (hrest : Apart rest) :
    Front last (columns.tokens (·.phrase.tokens)) rest (columns.spread (·.phrase.raw)) := by
  refine front_joined (fun _ ↦ True) trivial
    (fun more ↦ apart_cons more rfl Token.noConfusion Token.noConfusion)
    (fun last rest _ hrest cell ↦ ?_) trivial hrest columns
  refine (Front.blanks cell.before).append ?_
  rw [lastOf_blanks]
  exact (cell.item.front (hrest.append_blanks cell.after)).append (.blanks cell.after)

/-- A column stands for its full name. -/
theorem NamedColumn.columnsOf_node (column : NamedColumn) :
    Columns.columnsOf column.phrase.node = [column.name.fullName] := by
  rcases column with ⟨name, aliasPhrase⟩
  rw [← name.identifier_fullName]
  cases aliasPhrase with
  | none => rfl
  | some aliasPhrase => rfl

/-- A list of columns gives their names up to `FROM`, but for a first one that is an alias. -/
theorem NamedColumn.scanItems_list (columns : CommaList (Padded NamedColumn))
    (fromWord : Spelled ["FROM"]) (last : Option Node) (after : List Node) :
    Columns.scanItems .items last (columns.nodes (·.phrase.node) ++ fromWord.node :: after) =
      fullNames (if Node.introducesAlias last then columns.items.drop 1 else columns.items) := by
  rw [Columns.scanItems_listed fun column ↦ column.phrase.isItem]
  simp only [columnsOf_node]
  exact List.map_eq_flatMap.symm

namespace GivesColumns

/-- A query gives the columns of what stands between `SELECT` and `FROM`. -/
theorem columnCandidates_around {query : ColumnQuery} {clause : List Token}
    {columns : List String} (h : GivesColumns (some query.selectWord.node) clause columns) :
    (groupStatement (query.around clause)).columnCandidates = columns := by
  have hkind : ∀ entry ∈ ["SELECT"], StatementKind.ofKeyword? entry = some .select := by decide
  obtain ⟨nodes, hmakes, hscan⟩ := h
  have hbefore : Makes none (Blank.tokens query.before) (Blank.nodes query.before) :=
    .blanks query.before
  obtain ⟨after, hnodes⟩ := (hbefore.append_clause query.selectWord (by decide)
    hmakes).exists_statementNodes_eq query.fromWord (by decide) query.rest
  rw [List.append_assoc, List.cons_append, List.append_assoc, List.cons_append] at hnodes
  have hselect : query.selectWord.node.isKeyword "SELECT" = true :=
    query.selectWord.isKeyword_eq (by decide)
  have hstart : Node.introducesAlias none = Node.introducesAlias (some query.selectWord.node) :=
    (Node.introducesAlias_keyword hselect (by decide) (by decide)).symm
  rw [ColumnQuery.around, columnCandidates_groupStatement hnodes,
    StatementKind.ofNodes_keyword _ hkind, Columns.candidates, Columns.projection,
    Node.afterKeyword?_blanks, Node.afterKeyword?_keyword _ (by decide),
    ← hscan query.fromWord after]
  exact Columns.scanItems_congr hstart _ _

/-- A list of columns gives their names, but for a first one that is an alias. -/
theorem list (last : Option Node) (columns : CommaList (Padded NamedColumn)) :
    GivesColumns last (columns.tokens (·.phrase.tokens)) (NamedColumn.fullNames
      (if Node.introducesAlias last then columns.items.drop 1 else columns.items)) :=
  ⟨_, fun _ hrest ↦ ⟨_, NamedColumn.front_list columns hrest, ItemPhrase.regroup_list _ columns⟩,
    fun fromWord after ↦ NamedColumn.scanItems_list columns fromWord last after⟩

private theorem clause {words : List String} {more : List Token} {columns : List String}
    (keyword : Spelled words) (h : GivesColumns (some keyword.node) more columns)
    (hwords : ∀ entry ∈ words, Keyword.startsClause entry = true)
    (hfrom : ∀ entry ∈ words, Text.sameWord entry "FROM" = false)
    (hcase : ∀ entry ∈ words, Text.sameWord entry "CASE" = false)
    (last : Option Node) (blanks : List Blank) :
    GivesColumns last (Blank.tokens blanks ++ keyword.token :: more) columns := by
  obtain ⟨nodes, hmakes, hscan⟩ := h
  refine ⟨_, (Makes.blanks blanks).append_clause keyword hwords hmakes, fun fromWord after ↦ ?_⟩
  rw [List.append_assoc, Columns.scanItems_blanks, List.cons_append,
    Columns.scanItems_keyword keyword hfrom hcase, hscan]

private theorem blanks_append {last : Option Node} {tokens : List Token} {columns : List String}
    (h : GivesColumns last tokens columns) (blanks : List Blank) :
    GivesColumns last (Blank.tokens blanks ++ tokens) columns := by
  obtain ⟨nodes, hmakes, hscan⟩ := h
  refine ⟨Blank.nodes blanks ++ nodes, fun rest hrest ↦ ?_, fun fromWord after ↦ ?_⟩
  · obtain ⟨raw, hraw, hnodes⟩ := hmakes rest hrest
    rw [← lastOf_blanks last blanks] at hraw
    exact ⟨_, (Front.blanks blanks).append hraw, by rw [regroup_blanks_append, hnodes]⟩
  · rw [List.append_assoc, Columns.scanItems_blanks, hscan]

private theorem inParens {more : List Token} {columns : List String}
    (h : GivesColumns (some (.punctuation ")")) more columns) (last : Option Node)
    (blanks : List Blank) (count : Padded LiteralToken) :
    GivesColumns last (Blank.tokens blanks ++ .openParen ::
      (count.tokens (fun count ↦ [count.token]) ++ .closeParen :: more)) columns := by
  obtain ⟨nodes, hmakes, hscan⟩ := h
  have hcount : Makes (some (.punctuation "(")) (count.tokens fun count ↦ [count.token])
      (count.nodes fun count ↦ [count.phrase.node]) :=
    ItemPhrase.makes (fun count : LiteralToken ↦ count.phrase.item none) rfl count
  refine ⟨_, hcount.within.parens blanks hmakes, fun fromWord after ↦ ?_⟩
  simp only [Padded.nodes, List.append_assoc, List.cons_append, List.nil_append]
  rw [Columns.scanItems_blanks, Columns.scanItems_skip rfl rfl rfl rfl, Columns.scanItems_blanks,
    Columns.scanItems_skip rfl rfl rfl rfl, Columns.scanItems_blanks,
    Columns.scanItems_skip rfl rfl rfl rfl]
  exact hscan fromWord after

end GivesColumns

/-! ### Row limits -/

private theorem listSpan_append_eq_zero {nodes rest : List Node}
    (hnodes : ∀ node ∈ nodes, node.isPunctuation "," = false) (hrest : listSpan false rest = 0) :
    listSpan false (nodes ++ rest) = 0 := by
  induction nodes with
  | nil => exact hrest
  | cons node nodes ih =>
    rw [List.forall_mem_cons] at hnodes
    rw [List.cons_append, listSpan, ih hnodes.2, hnodes.1]
    split <;> rfl

namespace NamedColumn

variable (columns : CommaList (Padded NamedColumn))

/-- What a row limit leaves of the first column: the count takes a single word for its alias, and
then a name without `AS` behind it is a column. -/
def afterCount (column : NamedColumn) : List String :=
  match column.name.further, column.aliasPhrase with
  | [], some ⟨_, none, name⟩ => [name.word.value]
  | [], _ => []
  | _ :: _, _ => [column.name.fullName]

/-- A value stays before the columns that follow it. -/
theorem regroup_value {raw between : List Node} {value : Node}
    (hraw : groupAliases raw =
      value :: (between ++ columns.spread fun column ↦ [column.phrase.node]))
    (hvalue : value.isAnyPunctuation = false)
    (hbetween : ∀ node ∈ between, node.isAnyPunctuation = false ∧ isListItem node = false) :
    regroup raw = value :: (between ++ columns.nodes (·.phrase.node)) := by
  have hoperator : ∀ node ∈ value :: (between ++ columns.spread fun column ↦ [column.phrase.node]),
      isComparisonOperator node = false := by
    rw [List.forall_mem_cons, List.forall_mem_append]
    refine ⟨?_, fun node hmem ↦ ?_, ItemPhrase.isComparisonOperator_list phrase columns⟩
    · rw [isComparisonOperator, hvalue, Bool.false_and]
    · rw [isComparisonOperator, (hbetween node hmem).1, Bool.false_and]
  have hspan :
      listSpan false (between ++ columns.spread fun column ↦ [column.phrase.node]) = 0 := by
    apply listSpan_append_eq_zero
    · intro node hmem
      rw [Node.isPunctuation, (hbetween node hmem).1, Bool.false_and]
    · obtain ⟨hblank, hmark, -⟩ := of_isListItem columns.first.item.phrase.isItem
      rw [spread_eq fun column : NamedColumn ↦ column.phrase.node]
      apply listSpan_blanks_eq_zero
      rw [listSpan, hblank, Node.isPunctuation, hmark]
      rfl
  have hkeep : ∀ node ∈ between, ∀ rest, listStep node rest = none := by
    intro node hmem rest
    rw [listStep, (hbetween node hmem).2]
    simp
  have hvalue : listStep value
      (between ++ columns.spread fun column ↦ [column.phrase.node]) = none := by
    rw [listStep, hspan]
    simp
  rw [regroup, hraw, groupComparisons_eq_self hoperator, folds_groupLists.keep hvalue,
    folds_groupLists.append_of_keeps hkeep,
    groupLists_spread fun column : NamedColumn ↦ column.phrase.isItem]

private theorem groupAliases_value (count : LiteralToken) (taken : Alias) (rest : List Node) :
    groupAliases (count.phrase.node :: (taken.nodes ++ rest)) =
      (count.phrase.item (some taken)).node :: groupAliases rest := by
  have hfold : aliasStep count.phrase.node (taken.nodes ++ rest) =
      some (.literal, taken.nodes.length) := by
    rw [aliasStep, taken.aliasAfter?_nodes]
    rfl
  rw [folds_groupAliases.fold hfold, List.take_left, List.drop_left]
  rfl

end NamedColumn

namespace GivesColumns

open NamedColumn

/-- What a count and the columns behind it give follows from how they are grouped. -/
theorem of_regroup {count : LiteralToken} {columns : CommaList (Padded NamedColumn)}
    {last : Option Node} {nodes : List Node} {names : List String}
    (hgroup : regroup (count.phrase.node :: columns.spread (·.phrase.raw)) = nodes)
    (hscan : ∀ (fromWord : Spelled ["FROM"]) (after : List Node),
      Columns.scanItems .items last (nodes ++ fromWord.node :: after) = names) :
    GivesColumns last (count.token :: columns.tokens (·.phrase.tokens)) names :=
  ⟨nodes, fun _ hrest ↦ ⟨_, count.front.append (front_list columns hrest), hgroup⟩, hscan⟩

private theorem countDotted (count : LiteralToken) (columns : CommaList (Padded NamedColumn))
    (hdotted : columns.first.item.name.further ≠ []) (last : Option Node) :
    GivesColumns last (count.token :: columns.tokens (·.phrase.tokens))
      (fullNames columns.items) := by
  have hbare : bareName? columns.first.item.name.node = none := by
    obtain ⟨⟨before, ⟨⟨first, further, notStar⟩, aliasPhrase⟩, after⟩, more⟩ := columns
    cases further with
    | nil => exact absurd rfl hdotted
    | cons word further => rfl
  have hkeep : aliasStep count.phrase.node (columns.spread (·.phrase.raw)) = none := by
    have hname := Node.significant?_blanks_append columns.first.before columns.first.item.name.node
    have has : columns.first.item.name.node.isKeyword "AS" = false := rfl
    have hafter (rest : List Node) : aliasAfter? (Blank.nodes columns.first.before ++
        columns.first.item.name.node :: rest) = none := by
      rw [aliasAfter?, hname rest rfl]
      simp only [has, hbare, Bool.false_eq_true, ↓reduceIte, Option.map_none]
    have hnone : aliasAfter? (columns.spread (·.phrase.raw)) = none := by
      simp only [CommaList.spread, CommaList.joined, Padded.nodes, List.append_assoc]
      exact hafter _
    rw [aliasStep, hnone]
    rfl
  have hraw : groupAliases (count.phrase.node :: columns.spread (·.phrase.raw)) =
      count.phrase.node :: ([] ++ columns.spread fun column ↦ [column.phrase.node]) := by
    rw [folds_groupAliases.keep hkeep, ItemPhrase.groupAliases_list]
    rfl
  refine of_regroup (regroup_value columns hraw rfl (List.forall_mem_nil _)) fun fromWord after ↦ ?_
  · rw [List.nil_append, List.cons_append, Columns.scanItems_skip rfl rfl rfl rfl, scanItems_list]
    rfl

private theorem countTaken (count : LiteralToken) (blanks : List Blank) (first : NameWord)
    (after : List Blank) (more : List (Padded NamedColumn)) (last : Option Node) :
    GivesColumns last
      (count.token ::
        CommaList.tokens (·.phrase.tokens) ⟨⟨blanks, ⟨first.plain, none⟩, after⟩, more⟩)
      (fullNames (more.map Padded.item)) := by
  let items : CommaList (Padded ItemPhrase) :=
    ⟨⟨[], count.phrase.item (some ⟨blanks, none, first⟩), after⟩,
      more.map fun cell ↦ ⟨cell.before, cell.item.phrase, cell.after⟩⟩
  have hraw : count.phrase.node ::
      CommaList.spread (·.phrase.raw) ⟨⟨blanks, ⟨first.plain, none⟩, after⟩, more⟩ =
        items.spread ItemPhrase.raw := by
    simp only [items, CommaList.spread, CommaList.joined, Padded.nodes, List.flatMap_map]
    simp [AliasedPhrase.item, NamedColumn.phrase, Alias.nodes, Blank.nodes, PlainName.phrase]
  have hgroup : regroup (items.spread ItemPhrase.raw) = items.nodes ItemPhrase.node :=
    ItemPhrase.regroup_list id items
  refine of_regroup ((congrArg regroup hraw).trans hgroup) fun fromWord after ↦ ?_
  rw [Columns.scanItems_listed ItemPhrase.isItem]
  have hnames : (more.map fun cell ↦ cell.item.phrase).flatMap
      (fun item ↦ Columns.columnsOf item.node) = fullNames (more.map Padded.item) := by
    rw [List.flatMap_map, fullNames, List.map_map, List.map_eq_flatMap]
    simp only [columnsOf_node]
    rfl
  have hitems : items.items = count.phrase.item (some ⟨blanks, none, first⟩) ::
      more.map fun cell ↦ cell.item.phrase := by
    simp [items, CommaList.items, CommaList.things]
  rw [hitems, ← hnames]
  split
  · rfl
  · rw [List.flatMap_cons]
    rfl

private theorem countAliased (count : LiteralToken) (blanks : List Blank) (first : NameWord)
    (aliasPhrase : Alias) (after : List Blank) (more : List (Padded NamedColumn))
    (last : Option Node) :
    GivesColumns last
      (count.token :: CommaList.tokens (·.phrase.tokens)
        ⟨⟨blanks, ⟨first.plain, some aliasPhrase⟩, after⟩, more⟩)
      (fullNames (if aliasPhrase.asWord.isSome then more.map Padded.item
        else ⟨aliasPhrase.name.plain, none⟩ :: more.map Padded.item)) := by
  -- The number takes the first name as its alias, so the name of that column's own alias stands in
  -- its place in the list. An `AS` before it hides it from the scan.
  let columns : CommaList (Padded NamedColumn) :=
    ⟨⟨[], ⟨aliasPhrase.name.plain, none⟩, after⟩, more⟩
  let taken : Alias := ⟨blanks, none, first⟩
  have hfirst : (NamedColumn.mk first.plain (some aliasPhrase)).phrase.raw =
      first.plain.node :: (aliasPhrase.single.lead ++ [aliasPhrase.name.plain.node]) :=
    congrArg (List.cons _) aliasPhrase.single.nodes_eq
  have hraw : CommaList.spread (·.phrase.raw)
      ⟨⟨blanks, ⟨first.plain, some aliasPhrase⟩, after⟩, more⟩ =
        taken.nodes ++ (aliasPhrase.single.lead ++ columns.spread (·.phrase.raw)) := by
    have hcolumn : (NamedColumn.mk aliasPhrase.name.plain none).phrase.raw =
        [aliasPhrase.name.plain.node] := rfl
    have hnone : Blank.nodes [] = [] := rfl
    simp only [CommaList.spread, CommaList.joined, Padded.nodes, columns, hfirst, hcolumn, hnone]
    simp [taken, Alias.nodes]
  have hgroup : groupAliases (count.phrase.node :: CommaList.spread (·.phrase.raw)
      ⟨⟨blanks, ⟨first.plain, some aliasPhrase⟩, after⟩, more⟩) =
        (count.phrase.item (some taken)).node ::
          (aliasPhrase.single.lead ++ columns.spread fun column ↦ [column.phrase.node]) := by
    rw [hraw, groupAliases_value, folds_groupAliases.append_of_keeps
      (aliasPhrase.single.forall_mem_lead (fun _ _ ↦ rfl) fun _ _ ↦ rfl),
      ItemPhrase.groupAliases_list]
  have hlead : ∀ node ∈ aliasPhrase.single.lead,
      node.isAnyPunctuation = false ∧ isListItem node = false :=
    aliasPhrase.single.forall_mem_lead (fun _ ↦ ⟨rfl, rfl⟩) fun _ ↦ ⟨rfl, rfl⟩
  refine of_regroup (regroup_value columns hgroup rfl hlead) fun fromWord next ↦ ?_
  rw [List.cons_append, List.append_assoc, Columns.scanItems_skip rfl rfl rfl rfl]
  obtain ⟨before, _ | ⟨word, between⟩, name⟩ := aliasPhrase
  · simp only [SingleAlias.lead, Alias.single, List.append_nil]
    rw [Columns.scanItems_blanks, scanItems_list]
    rfl
  · have has : word.node.isKeyword "AS" = true := word.isKeyword_eq (by decide)
    simp only [SingleAlias.lead, Alias.single, List.append_assoc, List.cons_append]
    rw [Columns.scanItems_blanks, Columns.scanItems_keyword word (by decide) (by decide),
      Columns.scanItems_blanks, scanItems_list, Node.introducesAlias, Option.any_some, has]
    rfl

private theorem counted (count : LiteralToken) (columns : CommaList (Padded NamedColumn))
    (last : Option Node) :
    GivesColumns last (count.token :: columns.tokens (·.phrase.tokens))
      (columns.first.item.afterCount ++ fullNames (columns.more.map Padded.item)) := by
  obtain ⟨⟨before, ⟨⟨first, further, notStar⟩, aliasPhrase⟩, after⟩, more⟩ := columns
  cases further with
  | cons word further => exact countDotted count _ (List.cons_ne_nil word further) last
  | nil =>
    cases aliasPhrase with
    | none => exact countTaken count before first after more last
    | some aliasPhrase =>
      have haliased := countAliased count before first aliasPhrase after more last
      obtain ⟨blanks, _ | ⟨word, between⟩, name⟩ := aliasPhrase
      · exact haliased
      · exact haliased

end GivesColumns

/-! ### All quantifiers -/

namespace Quantifier

/-- What the quantifier leaves of the first column behind it. -/
def leaves : Quantifier → NamedColumn → List String
  | duplicates _, column => [column.name.fullName]
  | top .., column => column.afterCount
  | topInParens .., _ => []

/-- The quantifier leaves the first column behind it as it is: a row limit without parentheses does
so if the column has more than one part, or is its own alias and stands there without `AS`. -/
def Keeps : Quantifier → NamedColumn → Prop
  | duplicates _, _ => True
  | top .., column => column.name.further ≠ [] ∨ ∃ blanks name,
      column.aliasPhrase = some ⟨blanks, none, name⟩ ∧
        name.word.value = column.name.first.word.value
  | topInParens .., _ => False

/-- Where a quantifier leaves the first column as it is, the column gives its name. -/
theorem leaves_eq_iff (quantifier : Quantifier) (column : NamedColumn) :
    quantifier.leaves column = [column.name.fullName] ↔ quantifier.Keeps column := by
  cases quantifier with
  | duplicates keyword => exact iff_of_true rfl trivial
  | topInParens keyword blanks count => exact iff_of_false nofun id
  | top keyword blanks count =>
    obtain ⟨⟨first, further, notStar⟩, aliasPhrase⟩ := column
    cases further with
    | cons word further => exact iff_of_true rfl (.inl (List.cons_ne_nil word further))
    | nil =>
      have hname : PlainName.fullName ⟨first, [], notStar⟩ = first.word.value :=
        String.intercalate_singleton
      rcases aliasPhrase with _ | ⟨before, _ | as, name⟩
      · simp [leaves, Keeps, NamedColumn.afterCount]
      · simp [leaves, Keeps, NamedColumn.afterCount, hname, and_assoc]
      · simp [leaves, Keeps, NamedColumn.afterCount]

/-- Behind a quantifier, a query gives what is left of its first column and the other columns. -/
theorem givesColumns (quantifier : Quantifier) (columns : CommaList (Padded NamedColumn))
    (last : Option Node) (blanks : List Blank) :
    GivesColumns last
      (Blank.tokens blanks ++ (quantifier.tokens ++ columns.tokens (·.phrase.tokens)))
      (quantifier.leaves columns.first.item ++
        NamedColumn.fullNames (columns.more.map Padded.item)) := by
  cases quantifier with
  | duplicates keyword =>
    have hlist := GivesColumns.list (some keyword.node) columns
    have halias : Node.introducesAlias (some keyword.node) = false := by
      have has : keyword.node.isKeyword "AS" = false := keyword.isKeyword_eq (by decide)
      have hend : keyword.node.isKeyword "END" = false := keyword.isKeyword_eq (by decide)
      rw [Node.introducesAlias, Option.any_some, has, hend]
      rfl
    rw [halias, if_neg Bool.false_ne_true] at hlist
    exact hlist.clause keyword (by decide) (by decide) (by decide) last blanks
  | top keyword between count =>
    have hcounted := (GivesColumns.counted count columns (some keyword.node)).blanks_append between
    have hclause := hcounted.clause keyword (by decide) (by decide) (by decide) last blanks
    rw [tokens, leaves, List.cons_append, List.append_assoc]
    exact hclause
  | topInParens keyword between count =>
    have hlist := GivesColumns.list (some (.punctuation ")")) columns
    have halias : Node.introducesAlias (some (.punctuation ")")) = true := rfl
    rw [halias, if_pos rfl] at hlist
    have hparens := hlist.inParens (some keyword.node) between count
    have hclause := hparens.clause keyword (by decide) (by decide) (by decide) last blanks
    simp only [tokens, List.cons_append, List.append_assoc, List.nil_append]
    exact hclause

end Quantifier

/-- A query without a quantifier gives its columns, and one with a quantifier what that leaves of
the first column and the others: the same columns exactly if the quantifier leaves the first one as
it is. -/
theorem columnCandidates_quantified (query : ColumnQuery) (blanks : List Blank)
    (quantifier : Quantifier) :
    (groupStatement query.tokens).columnCandidates = NamedColumn.fullNames query.columns.items ∧
      (groupStatement (query.quantified blanks quantifier)).columnCandidates =
        quantifier.leaves query.columns.first.item ++
          NamedColumn.fullNames (query.columns.more.map Padded.item) ∧
      ((groupStatement (query.quantified blanks quantifier)).columnCandidates =
          (groupStatement query.tokens).columnCandidates ↔
        quantifier.Keeps query.columns.first.item) := by
  have hselect : query.selectWord.node.isKeyword "SELECT" = true :=
    query.selectWord.isKeyword_eq (by decide)
  have hlist := GivesColumns.list (some query.selectWord.node) query.columns
  rw [Node.introducesAlias_keyword hselect (by decide) (by decide),
    if_neg Bool.false_ne_true] at hlist
  have hplain : (groupStatement query.tokens).columnCandidates =
      NamedColumn.fullNames query.columns.items := hlist.columnCandidates_around
  have hquantified : (groupStatement (query.quantified blanks quantifier)).columnCandidates =
      quantifier.leaves query.columns.first.item ++
        NamedColumn.fullNames (query.columns.more.map Padded.item) :=
    (quantifier.givesColumns query.columns _ blanks).columnCandidates_around
  have hsplit : NamedColumn.fullNames query.columns.items =
      [query.columns.first.item.name.fullName] ++
        NamedColumn.fullNames (query.columns.more.map Padded.item) := rfl
  refine ⟨hplain, hquantified, ?_⟩
  rw [hplain, hquantified, hsplit, List.append_left_inj]
  exact quantifier.leaves_eq_iff query.columns.first.item

/-- `SELECT a, b FROM t`. -/
def ColumnQuery.twoColumns : ColumnQuery where
  before := []
  selectWord := ⟨"SELECT", .refl true⟩
  columns := ⟨⟨[.space], ⟨(NameWord.bare "a" (.refl false)).plain, none⟩, []⟩,
    [⟨[.space], ⟨(NameWord.bare "b" (.refl false)).plain, none⟩, [.space]⟩]⟩
  fromWord := ⟨"FROM", .refl true⟩
  rest := [.blank .space, .word ⟨"t", none⟩]

/-- The row limits `TOP 10` and `TOP (10)` take the first of two columns away. -/
theorem columnCandidates_twoColumns_top :
    ColumnQuery.twoColumns.quantified [.space]
        (.top ⟨"TOP", .refl true⟩ [.space] ⟨.number "10" false, rfl⟩) =
      [.word ⟨"SELECT", none⟩, .blank .space, .word ⟨"TOP", none⟩, .blank .space,
        .number "10" false, .blank .space, .word ⟨"a", none⟩, .comma, .blank .space,
        .word ⟨"b", none⟩, .blank .space, .word ⟨"FROM", none⟩, .blank .space,
        .word ⟨"t", none⟩] ∧
    (groupStatement ColumnQuery.twoColumns.tokens).columnCandidates = ["a", "b"] ∧
    (groupStatement (ColumnQuery.twoColumns.quantified [.space]
      (.top ⟨"TOP", .refl true⟩ [.space] ⟨.number "10" false, rfl⟩))).columnCandidates = ["b"] ∧
    (groupStatement (ColumnQuery.twoColumns.quantified [.space]
      (.topInParens ⟨"TOP", .refl true⟩ [.space]
        ⟨[], ⟨.number "10" false, rfl⟩, []⟩))).columnCandidates = ["b"] := by
  refine ⟨rfl, ?_, ?_, ?_⟩
  · decide +kernel
  · decide +kernel
  · decide +kernel

end SqlFootprint
