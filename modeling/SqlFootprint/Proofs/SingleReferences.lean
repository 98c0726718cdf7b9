import SqlFootprint.Proofs.Items
import SqlFootprint.Proofs.Scans

/-!
# Tables of one word

A table named by a single word may have a single word as its alias. The alias is folded into the
name unless one of the two is a star; then it stays loose behind the name
(`SingleReference.groupAliases_raw`). The tables of a query with one column are those that a scan
finds after its `FROM` (`QueryHead.tableCandidates_eq`).
-/

namespace SqlFootprint

/-! ### References -/

/-- A word without delimiters that is no keyword and no value. -/
def SingleWord.bare (value : String)
    (isName : (Keyword.isStructural value || Keyword.isLiteral value) = false) : SingleWord :=
  ⟨⟨value, none⟩, .inr (Bool.or_eq_false_iff.1 isName)⟩

namespace SingleAlias

/-- The nodes of the alias before its name. -/
def lead (phrase : SingleAlias) : List Node :=
  Blank.nodes phrase.before ++
    match phrase.asWord with
    | some (word, blanks) => word.node :: Blank.nodes blanks
    | none => []

/-- Before its name, an alias has blanks and `AS` only. -/
theorem forall_mem_lead {P : Node → Prop} (hblank : ∀ blank : Blank, P (.leaf .blank blank.render))
    (has : ∀ word : Spelled ["AS"], P word.node) (phrase : SingleAlias) :
    ∀ node ∈ phrase.lead, P node := by
  rcases phrase with ⟨before, _ | ⟨word, blanks⟩, name⟩
  · rw [lead, List.append_nil]
    exact Blank.forall_mem_nodes hblank before
  · rw [lead, List.forall_mem_append, List.forall_mem_cons]
    exact ⟨Blank.forall_mem_nodes hblank before, has word, Blank.forall_mem_nodes hblank blanks⟩

/-- The nodes of an alias end with its name. -/
theorem nodes_eq (phrase : SingleAlias) : phrase.nodes = phrase.lead ++ [phrase.name.node] := by
  rcases phrase with ⟨before, _ | ⟨word, blanks⟩, name⟩
  · simp [nodes, lead]
  · simp [nodes, lead]

end SingleAlias

/-- A table of one word, with or without an alias. -/
structure SingleReference where
  name : SingleWord
  aliasPhrase : Option SingleAlias

namespace SingleReference

open Grouping

/-- The tokens of the reference. -/
def tokens (reference : SingleReference) : List Token :=
  .word reference.name.word :: reference.aliasPhrase.elim [] SingleAlias.tokens

/-- The nodes that a level reads. -/
def raw (reference : SingleReference) : List Node :=
  reference.name.node :: reference.aliasPhrase.elim [] SingleAlias.nodes

/-- One of the two is a star, so the alias is not folded into the name. -/
def isLoose (name : SingleWord) (phrase : SingleAlias) : Bool :=
  name.word.value == "*" || phrase.name.word.value == "*"

/-- The name, with the alias if it is folded. -/
def node (reference : SingleReference) : Node :=
  match reference.aliasPhrase with
  | none => reference.name.node
  | some phrase =>
    if isLoose reference.name phrase then reference.name.node
    else
      .group (.identifier ⟨reference.name.word.value, none, some phrase.name.word.value⟩)
        (reference.name.node :: phrase.nodes)

/-- The alias, if there is one that is not folded. -/
def loose (reference : SingleReference) : Option SingleAlias :=
  reference.aliasPhrase.filter (isLoose reference.name)

/-- The nodes of the reference once aliases are folded. -/
def grouped (reference : SingleReference) : List Node :=
  reference.node :: reference.loose.elim [] SingleAlias.nodes

/-- A reference has its name, with an alias and without. -/
theorem identifier?_node (reference : SingleReference) :
    reference.node.identifier?.map Identifier.name = some reference.name.word.value := by
  rcases reference with ⟨name, _ | phrase⟩
  · rfl
  · rw [node]
    dsimp only
    split
    · rfl
    · rfl

/-- A reference is an item of a list. -/
theorem isListItem_node (reference : SingleReference) : isListItem reference.node = true :=
  isListItem_of_identifier? reference.identifier?_node

/-- A reference is a name and no keyword. -/
theorem isName_node (reference : SingleReference) :
    reference.node.isAnyKeyword = false ∧ reference.node.isName = true := by
  have hname := congrArg Option.isSome reference.identifier?_node
  rw [Option.isSome_map] at hname
  refine ⟨isAnyKeyword_of_isListItem reference.isListItem_node, ?_⟩
  rw [Node.isName, hname]
  rfl

/-- A reference has its name only. -/
theorem realNames_node (reference : SingleReference) :
    reference.node.realNames = [reference.name.word.value] := by
  rw [Node.realNames, Node.items, (of_isListItem reference.isListItem_node).2.2,
    if_neg Bool.false_ne_true]
  simp [reference.identifier?_node]

/-- A reference is read before what stands apart. -/
theorem front (reference : SingleReference) {last : Option Node} {rest : List Token}
    (hrest : Apart rest) : Front last reference.tokens rest reference.raw := by
  rcases reference with ⟨name, _ | phrase⟩
  · exact name.front hrest
  · have hname : Front last [.word name.word] (phrase.tokens ++ rest) [name.node] :=
      name.front (phrase.apart rest)
    exact hname.append (phrase.front hrest)

private theorem aliasStep_name (name : SingleWord) (phrase : SingleAlias) (rest : List Node) :
    aliasStep name.node (phrase.nodes ++ rest) =
      if isLoose name phrase then none
      else some (.identifier ⟨name.word.value, none, some phrase.name.word.value⟩,
        phrase.nodes.length) := by
  have hkind : aliasedKind? name.node =
      if name.word.value = "*" then none
      else some fun aliasName ↦ .identifier ⟨name.word.value, none, some aliasName⟩ := rfl
  have hbare : bareName? phrase.name.node =
      if phrase.name.word.value = "*" then none else some phrase.name.word.value := rfl
  rw [aliasStep, hkind, phrase.aliasAfter?_nodes, hbare, isLoose]
  by_cases hname : name.word.value = "*"
  · simp [hname]
  · by_cases hphrase : phrase.name.word.value = "*"
    · simp [hname, hphrase]
    · simp [hname, hphrase]

/-- The alias of a reference is folded into its name, or neither is touched. -/
theorem groupAliases_raw (reference : SingleReference) (blanks : List Blank) :
    groupAliases (reference.raw ++ Blank.nodes blanks) =
      reference.grouped ++ Blank.nodes blanks := by
  have hblanks := folds_groupAliases.eq_self_of_keeps (aliasStep_blanks blanks)
  rcases reference with ⟨name, _ | phrase⟩
  · exact groupAliases_cons_blanks name.node blanks
  · have hstep := aliasStep_name name phrase (Blank.nodes blanks)
    rw [raw, grouped, node, loose]
    dsimp only [Option.elim_some, Option.filter_some]
    by_cases hloose : isLoose name phrase = true
    · rw [if_pos hloose] at hstep ⊢
      have hphrase : groupAliases (phrase.nodes ++ Blank.nodes blanks) =
          phrase.nodes ++ Blank.nodes blanks := by
        rw [phrase.nodes_eq, List.append_assoc,
          folds_groupAliases.append_of_keeps
            (phrase.forall_mem_lead (fun _ _ ↦ rfl) fun _ _ ↦ rfl)]
        exact congrArg _ (groupAliases_cons_blanks phrase.name.node blanks)
      have hkeep := folds_groupAliases.keep hstep
      rw [hphrase] at hkeep
      simpa [hloose] using hkeep
    · rw [if_neg hloose] at hstep ⊢
      have hfold := folds_groupAliases.fold hstep
      rw [List.take_left, List.drop_left, hblanks] at hfold
      simpa [hloose] using hfold

private theorem isAnyPunctuation_nodes (phrase : SingleAlias) :
    ∀ node ∈ phrase.nodes, node.isAnyPunctuation = false := by
  rw [phrase.nodes_eq, List.forall_mem_append, List.forall_mem_singleton]
  exact ⟨phrase.forall_mem_lead (fun _ ↦ rfl) fun _ ↦ rfl, rfl⟩

/-- There are no marks in a reference. -/
theorem isAnyPunctuation_grouped (reference : SingleReference) :
    ∀ node ∈ reference.grouped, node.isAnyPunctuation = false := by
  rw [grouped, List.forall_mem_cons]
  refine ⟨(of_isListItem reference.isListItem_node).2.1, ?_⟩
  cases reference.loose with
  | none => exact nofun
  | some phrase => exact isAnyPunctuation_nodes phrase

/-- A reference with blanks around it is grouped on its own. -/
theorem makes (cell : Padded SingleReference) {last : Option Node} :
    Makes last (cell.tokens tokens) (cell.nodes grouped) := by
  intro rest hrest
  refine ⟨cell.nodes raw, ?_, ?_⟩
  · refine (Front.blanks cell.before).append ?_
    exact (cell.item.front (hrest.append_blanks cell.after)).append (.blanks cell.after)
  · have hmarks : ∀ node ∈ cell.nodes grouped, node.isAnyPunctuation = false := by
      rw [Padded.nodes, List.forall_mem_append, List.forall_mem_append]
      exact ⟨Blank.forall_mem_nodes (fun _ ↦ rfl) _, cell.item.isAnyPunctuation_grouped,
        Blank.forall_mem_nodes (fun _ ↦ rfl) _⟩
    have haliases : groupAliases (cell.nodes raw) = cell.nodes grouped := by
      rw [Padded.nodes, folds_groupAliases.append_of_keeps (aliasStep_blanks _),
        cell.item.groupAliases_raw]
      rfl
    rw [regroup, haliases, groupComparisons_eq_self, groupLists_eq_self]
    · intro node hmem
      rw [Node.isPunctuation, hmarks node hmem, Bool.false_and]
    · intro node hmem
      rw [isComparisonOperator, hmarks node hmem, Bool.false_and]

end SingleReference

/-! ### Scanning references -/

namespace Tables

open Grouping

/-- No list of tables starts at one node with blanks around it that is no keyword. -/
theorem opensNoList_padded {α : Type} (inner : α → Node) (cell : Padded α)
    (h : (inner cell.item).isAnyKeyword = false) :
    ∀ node ∈ cell.nodes fun item ↦ [inner item], opensNoList node = true := by
  rw [Padded.nodes, List.forall_mem_append, List.forall_mem_append, List.forall_mem_singleton]
  exact ⟨opensNoList_blanks _, opensNoList_of_isAnyKeyword h, opensNoList_blanks _⟩

/-- No list of tables starts in a list of items. -/
theorem opensNoList_list {α : Type} {inner : α → Node}
    (hitem : ∀ item, isListItem (inner item) = true) (list : CommaList (Padded α)) :
    ∀ node ∈ list.nodes inner, opensNoList node = true := by
  rw [CommaList.nodes, List.forall_mem_append, List.forall_mem_cons]
  exact ⟨opensNoList_blanks _, opensNoList_of_isAnyKeyword (isAnyKeyword_node hitem list),
    opensNoList_blanks _⟩

/-- In a list of tables, a name is one unless it stands where an alias does. -/
theorem scanLists_item {node : Node} {name : String}
    (hname : node.identifier?.map Identifier.name = some name) (last : Option Node)
    (rest : List Node) :
    scanLists .inList last (node :: rest) =
      (if isAliasPlace last then [] else [name]) ++ scanLists .inList (some node) rest := by
  cases node with
  | mk kind text children =>
    cases kind with
    | identifier identifier =>
      obtain rfl : identifier.name = name := Option.some.inj hname
      rw [scanLists_named rfl rfl]
      rfl
    | _ => cases hname

/-- A keyword before an alias keeps a list of tables going. -/
theorem scanLists_lead (phrase : SingleAlias) (last : Option Node) (rest : List Node) :
    scanLists .inList last (phrase.lead ++ rest) =
        scanLists .inList (lastOf last phrase.lead) rest ∧
      isAliasPlace (lastOf last phrase.lead) = (phrase.asWord.isSome || isAliasPlace last) := by
  rcases phrase with ⟨before, _ | ⟨word, blanks⟩, name⟩
  · rw [SingleAlias.lead, List.append_nil, scanLists_blanks, lastOf_blanks]
    exact ⟨rfl, rfl⟩
  · have hscan : Scan.inList.onKeyword word.text = .inList :=
      word.eq_of_forall (f := Scan.inList.onKeyword) (fun _ _ ↦ Scan.onKeyword_congr _) (by decide)
    have hlast : lastOf last (Blank.nodes before ++ word.node :: Blank.nodes blanks) =
        some word.node := by
      rw [lastOf_append, lastOf_blanks]
      exact lastOf_blanks (some word.node) blanks
    have has : word.node.isKeyword "AS" = true := word.isKeyword_eq (by decide)
    rw [SingleAlias.lead]
    dsimp only
    rw [hlast, List.append_assoc, List.cons_append, scanLists_blanks, scanLists_keyword, hscan,
      scanLists_blanks]
    exact ⟨rfl, by simp [isAliasPlace, Node.introducesAlias, has]⟩

/-- A reference after `FROM` or `JOIN` gives its name, and no alias. -/
theorem scanLists_reference (scan : Scan) (last : Option Node) (word : Spelled ["FROM", "JOIN"])
    (cell : Padded SingleReference) {words : List String} (next : Spelled words)
    (rest : List Node) :
    scanLists scan last
        (word.node :: (cell.nodes SingleReference.grouped ++ next.node :: rest)) =
      cell.item.name.word.value :: scanLists .inList none (next.node :: rest) := by
  have hbehind (last : Option Node) :
      scanLists .inList last (Blank.nodes cell.after ++ next.node :: rest) =
        scanLists .inList none (next.node :: rest) := by
    rw [scanLists_blanks, scanLists_keyword, scanLists_keyword]
  have hloose : scanLists .inList (some cell.item.node)
      (cell.item.loose.elim [] SingleAlias.nodes ++
        (Blank.nodes cell.after ++ next.node :: rest)) =
      scanLists .inList none (next.node :: rest) := by
    cases cell.item.loose with
    | none => exact hbehind _
    | some phrase =>
      have hname : isAliasPlace (some cell.item.node) = true := by
        obtain ⟨identifier, hidentifier, -⟩ :=
          Option.map_eq_some_iff.1 cell.item.identifier?_node
        simp [isAliasPlace, hidentifier]
      obtain ⟨hlead, hplace⟩ := scanLists_lead phrase (some cell.item.node)
        (phrase.name.node :: (Blank.nodes cell.after ++ next.node :: rest))
      rw [hname, Bool.or_true] at hplace
      rw [Option.elim_some, phrase.nodes_eq, List.append_assoc, List.singleton_append, hlead,
        scanLists_item rfl, hplace, hbehind]
      rfl
  rw [Padded.nodes, SingleReference.grouped, List.append_assoc, List.append_assoc, List.cons_append,
    scanLists_tables cell.item.isName_node.1 cell.item.isName_node.2,
    cell.item.realNames_node, hloose]
  rfl

end Tables

/-! ### Queries with one column -/

/-- A query with one column, up to its `FROM`. -/
structure QueryHead where
  before : List Blank
  selectWord : Spelled ["SELECT"]
  column : Padded NamePath
  fromWord : Spelled ["FROM"]

/-- The tokens of a query, given those after its `FROM`. -/
def QueryHead.tokens (head : QueryHead) (rest : List Token) : List Token :=
  Blank.tokens head.before ++ head.selectWord.token ::
    (head.column.tokens NamePath.tokens ++ head.fromWord.token :: rest)

/-- The start `SELECT c FROM` of a query. -/
def QueryHead.selectC : QueryHead :=
  ⟨[], ⟨"SELECT", .refl true⟩, ⟨[.space], (SingleWord.bare "c" (.refl false)).path, [.space]⟩,
    ⟨"FROM", .refl true⟩⟩

/-- The tables of a query are those after its `FROM`. -/
theorem QueryHead.tableCandidates_eq (head : QueryHead) {rest : List Token} {nodes : List Node}
    (h : Grouping.Makes (some head.fromWord.node) rest nodes) :
    (groupStatement (head.tokens rest)).tableCandidates =
      Tables.scanLists .outside none (head.fromWord.node :: nodes) := by
  have hselect : Grouping.startsItem (some head.selectWord.node) = true :=
    Grouping.startsItem_keyword head.selectWord (by decide)
  have hcolumn : Grouping.Makes (some head.selectWord.node)
      (head.column.tokens NamePath.tokens) (head.column.nodes fun name ↦ [name.node]) :=
    Grouping.ItemPhrase.makes NamePath.item hselect head.column
  have hbefore : Grouping.Makes none (Blank.tokens head.before) (Blank.nodes head.before) :=
    .blanks head.before
  have hmakes := (hbefore.append_clause head.selectWord (by decide) hcolumn).append_clause
    head.fromWord (by decide) h
  rw [List.append_assoc, List.append_assoc, List.cons_append, List.cons_append] at hmakes
  have hscan : Tables.Scan.outside.onKeyword head.selectWord.text = .outside :=
    Tables.Scan.onKeyword_spelled head.selectWord (by decide)
  have hkind : ∀ entry ∈ ["SELECT"], StatementKind.ofKeyword? entry = some .select := by decide
  have hskip : (NamePath.node head.column.item).isAnyKeyword = false := rfl
  rw [QueryHead.tokens, tableCandidates_groupStatement hmakes.statementNodes_eq,
    StatementKind.ofNodes_keyword head.selectWord hkind, Tables.candidates,
    Tables.scanLists_blanks, Tables.scanLists_keyword, hscan, Padded.nodes, List.append_assoc,
    Tables.scanLists_blanks, List.append_assoc, List.singleton_append,
    Tables.scanLists_skip hskip fun _ ↦ rfl, Tables.scanLists_blanks, Tables.scanLists_keyword,
    Tables.scanLists_keyword]

end SqlFootprint
