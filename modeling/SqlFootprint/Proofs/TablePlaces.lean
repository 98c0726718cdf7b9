import SqlFootprint.Proofs.ProjectionPlaces
import SqlFootprint.Proofs.Shapes

/-!
# What stands at the places of lists of tables

The tables after `FROM` and `JOIN` are said here place by place, without a scan: which keyword
before a place is the last that starts a list of tables or ends one, and which names at the place
are aliases. `tables_by_place` says that the scan gives the same in any finished tree without lists
in lists, whatever sequence of its positions is scanned, and that grouped trees are without them.
-/

namespace SqlFootprint

open Grouping (lastOf lastOf_append)

/-- The node is no list that has a list among its children. -/
def Node.IsFlat (node : Node) : Prop :=
  node.isList = true → ∀ child ∈ node.children, child.isList = false

instance : DecidablePred Node.IsFlat := fun node ↦
  inferInstanceAs (Decidable (node.isList = true → ∀ child ∈ node.children, child.isList = false))

namespace Tables

/-! ### Places -/

/-- The keywords that neither start a list of tables nor end one. -/
def neutralWords : List String :=
  ["AS", "ON", "INNER", "LEFT", "RIGHT", "FULL", "OUTER", "CROSS"]

/-- The node is a keyword that starts a list of tables or ends one. -/
def isDecisive (node : Node) : Bool :=
  node.isAnyKeyword && !Text.listed neutralWords node.text

/-- The last of some nodes that starts a list of tables or ends one, starts one. -/
def endInTables (nodes : List Node) : Bool :=
  (nodes.reverse.find? isDecisive).any fun word ↦ word.isKeyword "FROM" || word.isKeyword "JOIN"

/-- The tables at a place: in a list of tables the names there, of which the first is an alias
behind `AS`, `END`, a closing parenthesis and a name. -/
def tablesAt (nodes : List Node) (place : Nat) : List String :=
  match nodes[place]? with
  | none => []
  | some node =>
    if node.isName && endInTables (nodes.take place) then
      let isAlias := (Columns.nodeBefore nodes place).any fun before ↦
        before.isKeyword "AS" || before.isKeyword "END" || before.isPunctuation ")" ||
          before.identifier?.isSome
      let items := if isAlias then node.items.drop 1 else node.items
      items.filterMap fun item ↦ item.identifier?.map Identifier.name
    else []

/-- The tables after every `FROM` and `JOIN`, place by place. -/
def tablesByPlace (nodes : List Node) : List String :=
  (List.range nodes.length).flatMap (tablesAt nodes)

/-! ### Where a scan stands -/

private theorem Scan.onKeyword_eq (scan : Scan) (keyword : String) :
    scan.onKeyword keyword =
      if Text.listed neutralWords keyword then scan
      else if Text.listed ["FROM", "JOIN"] keyword then .inList else .outside := by
  have hneutral : (Text.listed ["AS", "ON"] keyword || Keyword.isJoinModifier keyword) =
      Text.listed neutralWords keyword := by
    simp [Keyword.isJoinModifier, Keyword.joinModifierWords, neutralWords, Text.listed,
      Bool.or_assoc]
  have hapart (h : Text.listed neutralWords keyword = true) :
      Text.listed ["FROM", "JOIN"] keyword = false :=
    Spelled.listed_eq ⟨keyword, h⟩ (by decide)
  rw [onKeyword, hneutral]
  cases hlisted : Text.listed neutralWords keyword with
  | true =>
    rw [hapart hlisted]
    cases scan <;> rfl
  | false => simp

/-- After nodes, a scan stands in a list of tables exactly if the last keyword among them that
starts one or ends one starts one. -/
theorem Scan.after_eq_inList_iff (nodes : List Node) :
    Scan.outside.after nodes = .inList ↔ endInTables nodes = true := by
  induction nodes using List.reverseRecOn with
  | nil => exact ⟨nofun, nofun⟩
  | append_singleton nodes node ih =>
    have hafter : Scan.outside.after (nodes ++ [node]) =
        if node.isAnyKeyword then (Scan.outside.after nodes).onKeyword node.text
        else Scan.outside.after nodes := by
      rw [after, List.foldl_append]
      rfl
    have hend : endInTables (nodes ++ [node]) =
        if isDecisive node then node.isKeyword "FROM" || node.isKeyword "JOIN"
        else endInTables nodes := by
      rw [endInTables, List.reverse_append, List.reverse_singleton, List.singleton_append,
        List.find?_cons]
      cases isDecisive node <;> rfl
    rw [hafter, hend, isDecisive]
    cases hkeyword : node.isAnyKeyword with
    | false => simpa using ih
    | true =>
      have htables : (node.isKeyword "FROM" || node.isKeyword "JOIN") =
          Text.listed ["FROM", "JOIN"] node.text := by
        simp [Node.isKeyword, hkeyword, Text.listed, Text.sameWord_comm]
      rw [if_pos rfl, onKeyword_eq, htables]
      cases Text.listed neutralWords node.text with
      | true => simpa using ih
      | false => cases Text.listed ["FROM", "JOIN"] node.text <;> simp

/-! ### Place by place -/

private theorem isList_of_mem_items {node : Node} (hflat : node.IsFlat) :
    ∀ item ∈ node.items, item.isList = false := by
  rw [Node.items]
  cases hlist : node.isList with
  | true => exact fun item hmem ↦ hflat hlist item (List.mem_of_mem_filter hmem)
  | false => exact List.forall_mem_singleton.2 hlist

private theorem namesAt_eq {node : Node} (hflat : node.IsFlat) (last : Option Node) :
    namesAt last node = (if isAliasPlace last then node.items.drop 1 else node.items).filterMap
      fun item ↦ item.identifier?.map Identifier.name := by
  have hitem : ∀ item ∈ node.items.drop 1,
      item.realNames = (item.identifier?.map Identifier.name).toList := by
    intro item hmem
    rw [Node.realNames, Node.items, isList_of_mem_items hflat item (List.mem_of_mem_drop hmem)]
    cases hname : item.identifier? <;> simp [hname]
  rw [namesAt]
  split
  · rw [List.filterMap_eq_flatMap_toList]
    exact List.flatMap_congr hitem
  · rfl

private theorem tablesAt_append_cons {node : Node} (hflat : node.IsFlat)
    (before after : List Node) :
    tablesAt (before ++ node :: after) before.length =
      if node.isName && endInTables before then namesAt (lastOf none before) node else [] := by
  have hnode : (before ++ node :: after)[before.length]? = some node := by simp
  have halias : isAliasPlace (lastOf none before) = (lastOf none before).any fun last ↦
      last.isKeyword "AS" || last.isKeyword "END" || last.isPunctuation ")" ||
        last.identifier?.isSome := by
    cases lastOf none before <;> rfl
  rw [tablesAt, hnode, Columns.nodeBefore, List.take_left, ← Node.lastOf_none_eq_find?,
    namesAt_eq hflat, halias]

private theorem scanLists_singleton (scan : Scan) (last : Option Node) (node : Node) :
    scanLists scan last [node] =
      if node.isName = true ∧ scan = .inList then namesAt last node else [] := by
  rw [scanLists]
  by_cases hkeyword : node.isAnyKeyword = true
  · have hname : node.isName = false := by
      cases node with
      | mk kind text children =>
        cases kind with
        | keyword => rfl
        | _ => cases hkeyword
    rw [if_pos hkeyword, hname, if_neg (by simp)]
    rfl
  · rw [if_neg hkeyword]
    split
    · exact List.append_nil _
    · rfl

private theorem scanLists_eq_flatMap (before after : List Node)
    (hflat : ∀ node ∈ after, node.IsFlat) :
    scanLists (Scan.outside.after before) (lastOf none before) after =
      (List.range' before.length after.length).flatMap (tablesAt (before ++ after)) := by
  induction after generalizing before with
  | nil => rfl
  | cons node rest ih =>
    rw [List.forall_mem_cons] at hflat
    have hplace := tablesAt_append_cons hflat.1 before rest
    have hnode : scanLists (Scan.outside.after before) (lastOf none before) [node] =
        tablesAt (before ++ node :: rest) before.length := by
      simp only [scanLists_singleton, hplace, Scan.after_eq_inList_iff, Bool.and_eq_true]
    have hafter : (Scan.outside.after before).after [node] =
        Scan.outside.after (before ++ [node]) := List.foldl_append.symm
    have hrest := ih (before ++ [node]) hflat.2
    rw [List.length_append, List.length_singleton, ← List.append_cons] at hrest
    rw [← List.singleton_append, scanLists_append, hafter, ← lastOf_append, hrest, hnode,
      List.singleton_append, List.length_cons, List.range'_succ, List.flatMap_cons]

/-- A scan of nodes without lists in lists gives what stands at their places. -/
theorem scanLists_eq_tablesByPlace {nodes : List Node} (hflat : ∀ node ∈ nodes, node.IsFlat) :
    scanLists .outside none nodes = tablesByPlace nodes := by
  rw [tablesByPlace, List.range_eq_range']
  exact scanLists_eq_flatMap [] nodes hflat

end Tables

/-! ### Grouped trees -/

namespace Builder.Built

variable {builder : Builder} {places : List (Node × Nat)}

/-- A table that comes about by leaves and groups is made by calls. -/
theorem exists_run (h : Built builder places) : ∃ calls, builder = run calls := by
  have hmake {builder : Builder} (h : ∃ calls, builder = run calls) (call : Call) :
      ∃ calls, builder.make call = run calls := by
    obtain ⟨calls, rfl⟩ := h
    exact ⟨calls ++ [call], (run_concat calls call).symm⟩
  induction h with
  | empty => exact ⟨[], rfl⟩
  | @leaf _ _ kind text _ _ ih => exact hmake ih (.leaf (kind.resolve fun _ ↦ none) text)
  | @group _ _ inside _ kind _ _ _ ih =>
    exact hmake ih (.group (groupKind (inside.map Prod.snd) kind) (inside.map Prod.snd))

/-- What passes from each node to its children, and is so for the nodes that are in no group, is so
for all nodes of the table. -/
theorem forall_mem_table {P : Node → Prop}
    (hchildren : ∀ node, P node → ∀ child ∈ node.children, P child) (h : Built builder places)
    (hplaces : ∀ place ∈ places, P place.1) : ∀ node ∈ builder.table, P node := by
  induction h with
  | empty => exact nofun
  | @leaf builder places kind text hbuilt hkind ih =>
    have hleaf : Built _ (places ++ [(.leaf kind text, builder.next)]) := hbuilt.leaf hkind
    have hat := hleaf.getElem?_table _ (List.mem_append_right _ (List.mem_singleton_self _))
    rw [List.forall_mem_append, List.forall_mem_singleton] at hplaces
    rw [addLeaf, table_leaf, ← size_table, Array.getElem?_push_size, Option.some_inj] at hat
    intro node hmem
    rw [addLeaf, table_leaf, hat] at hmem
    rcases Array.mem_push.1 hmem with hold | rfl
    · exact ih hplaces.1 node hold
    · exact hplaces.2
  | @group builder before inside after kind hbuilt htwo hspans ih =>
    have hat := (hbuilt.group htwo hspans).getElem?_table _
      (List.mem_append_right _ List.mem_cons_self)
    rw [List.forall_mem_append, List.forall_mem_cons] at hplaces
    rw [addGroup, table_group, ← size_table, Array.getElem?_push_size, Option.some_inj] at hat
    have hinside : ∀ place ∈ inside, P place.1 := fun place hmem ↦
      hchildren _ hplaces.2.1 _ (List.mem_map_of_mem hmem)
    intro node hmem
    rw [addGroup, table_group, hat] at hmem
    rcases Array.mem_push.1 hmem with hold | rfl
    · refine ih ?_ node hold
      rw [List.forall_mem_append, List.forall_mem_append]
      exact ⟨hplaces.1, hinside, hplaces.2.2⟩
    · exact hplaces.2.1

end Builder.Built

namespace Node

private theorem Items.isList_eq_false {nodes : List Node} (h : Items nodes) :
    ∀ node ∈ nodes, node.isList = false := by
  have hblank {blanks : List Node} (hall : ∀ blank ∈ blanks, blank.isBlank = true) :
      ∀ blank ∈ blanks, blank.isList = false := by
    intro blank hmem
    have hone := hall blank hmem
    cases blank with
    | mk kind text children =>
      cases kind with
      | blank => rfl
      | _ => cases hone
  induction h with
  | one hitem => exact List.forall_mem_singleton.2 (Grouping.of_isListItem hitem).2.2
  | more hitem hblanks hothers _ ih =>
    rw [List.forall_mem_cons, List.forall_mem_append, List.forall_mem_cons, List.forall_mem_append]
    exact ⟨(Grouping.of_isListItem hitem).2.2, hblank hblanks, rfl, hblank hothers, ih⟩

private theorem Shaped.isFlat {atEnd : Bool} {node : Node} (h : Shaped atEnd node) :
    node.IsFlat := by
  cases h with
  | mk form _ =>
    intro hlist
    cases form with
    | list hitem hblanks hothers hitems =>
      exact (Items.more hitem hblanks hothers hitems).isList_eq_false
    | leaf => exact nofun
    | _ => cases hlist

end Node

/-- No stored node of a grouped statement is a list that has a list among its children. -/
theorem isFlat_groupStatement (tokens : List Token) :
    ∀ node ∈ (groupStatement tokens).allNodes, node.IsFlat := by
  obtain ⟨builder, places, hbuilt, hnodes, htree⟩ := Grouping.exists_built_groupStatement tokens
  have hrow : Node.Row true (places.map Prod.fst) := by
    rw [hnodes]
    exact Grouping.row_statementNodes tokens
  have hshaped : ∀ node ∈ builder.table, ∃ atEnd, Node.Shaped atEnd node := by
    refine hbuilt.forall_mem_table ?_ fun place hmem ↦
      hrow.exists_shaped place.1 (List.mem_map_of_mem hmem)
    rintro node ⟨atEnd, hnode⟩ child hchild
    cases hnode with
    | mk _ hchildren => exact hchildren.exists_shaped child hchild
  rw [htree, Builder.allNodes_finish]
  intro node hmem
  obtain ⟨atEnd, hnode⟩ := hshaped node hmem
  exact hnode.isFlat

/-- The scan for tables gives what stands at the places of a sequence, in any finished tree without
lists in lists; and grouped statements are such trees. -/
theorem tables_by_place :
    (∀ (calls : List Builder.Call) (roots sequence : List Nat),
      let tree := (Builder.run calls).finish roots
      (∀ node ∈ tree.allNodes, node.IsFlat) →
        (∀ position ∈ sequence, position < tree.entries.size) →
        InPlace.scanLists tree sequence .outside 0 sequence =
          pure (Tables.tablesByPlace (sequence.filterMap (tree.allNodes[·]?)))) ∧
      ∀ tokens, (∃ calls roots, groupStatement tokens = (Builder.run calls).finish roots) ∧
        ∀ node ∈ (groupStatement tokens).allNodes, node.IsFlat := by
  constructor
  · intro calls roots sequence tree hflat hsequence
    have hordered := (Builder.Records.run calls).normalForm roots |>.ordered
    have hholds := TokenTree.Ordered.forall₂_holds hsequence
    have hread : ∀ node ∈ sequence.filterMap (tree.allNodes[·]?), node.IsFlat := by
      intro node hmem
      obtain ⟨position, -, hposition⟩ := List.mem_filterMap.1 hmem
      exact hflat node (Array.mem_of_getElem? hposition)
    rw [InPlace.scanLists_start_eq hordered hholds, Tables.scanLists_eq_tablesByPlace hread]
  · intro tokens
    obtain ⟨builder, places, hbuilt, -, htree⟩ := Grouping.exists_built_groupStatement tokens
    obtain ⟨calls, rfl⟩ := hbuilt.exists_run
    exact ⟨⟨calls, _, htree⟩, isFlat_groupStatement tokens⟩

/-- A name right after a name is an alias, and a list is read again where its position is there
again. -/
theorem tables_by_place_adjacent :
    let name (text : String) : Builder.Call := .leaf (.identifier ⟨text, none, none⟩) text
    let tree := (Builder.run [.leaf .keyword "FROM", name "a", name "b",
      .group .identifierList [1, 2]]).finish [0, 3]
    InPlace.scanLists tree [0, 1, 2, 0, 3] .outside 0 [0, 1, 2, 0, 3] = pure ["a", "a", "b"] := by
  exact (tables_by_place.1 _ _ [0, 1, 2, 0, 3] (by decide +kernel) (by decide +kernel)).trans
    (congrArg pure (by decide +kernel))

end SqlFootprint
