import SqlFootprint.Proofs.Regroups
import SqlFootprint.Tree.TokenTree

/-!
# Stored nodes read back

Nodes are stored in a table of entries and read back from it. `Built` says how a table comes about
and which of its nodes are in no group, and `Built.nodes_finish` that those come back as they were.
-/

namespace SqlFootprint

namespace TokenTree

/-- The nodes of entries after those of earlier ones. -/
def nodesFrom (earlier : Array Node) (entries : List Entry) : Array Node :=
  entries.foldl (fun earlier entry ↦ earlier.push (nodeOf earlier entry)) earlier

/-- The nodes of a tree are those of its entries, after none. -/
theorem allNodes_eq (tree : TokenTree) : tree.allNodes = nodesFrom #[] tree.entries.toList := by
  rw [allNodes, nodesFrom, Array.foldl_toList]

/-- One more entry makes one more node. -/
theorem nodesFrom_concat (earlier : Array Node) (entries : List Entry) (entry : Entry) :
    nodesFrom earlier (entries ++ [entry]) =
      (nodesFrom earlier entries).push (nodeOf (nodesFrom earlier entries) entry) := by
  rw [nodesFrom, List.foldl_append]
  rfl

/-- The nodes of entries have the texts of the entries. -/
theorem map_text_nodesFrom (earlier : Array Node) (entries : List Entry) :
    (nodesFrom earlier entries).toList.map Node.text =
      earlier.toList.map Node.text ++ entries.map Entry.text := by
  induction entries generalizing earlier with
  | nil => simp [nodesFrom]
  | cons entry rest ih =>
    rw [nodesFrom, List.foldl_cons]
    have hrest := ih (earlier.push (nodeOf earlier entry))
    rw [nodesFrom] at hrest
    rw [hrest]
    simp [nodeOf, Node.text]

/-- There are as many nodes as entries. -/
theorem size_nodesFrom (earlier : Array Node) (entries : List Entry) :
    (nodesFrom earlier entries).size = earlier.size + entries.length := by
  have htexts := congrArg List.length (map_text_nodesFrom earlier entries)
  simpa using htexts

private theorem nodesFrom_congr (earlier : Array Node) {entries others : List Entry}
    (h : entries.map (fun entry ↦ { entry with parent := none }) =
      others.map fun entry ↦ { entry with parent := none }) :
    nodesFrom earlier entries = nodesFrom earlier others := by
  have hparent (entries : List Entry) : nodesFrom earlier entries =
      nodesFrom earlier (entries.map fun entry ↦ { entry with parent := none }) := by
    rw [nodesFrom, nodesFrom, List.foldl_map]
    rfl
  rw [hparent, h, ← hparent]

/-! ### What finishing a tree leaves as it is -/

private theorem resolve_resolve_earlier (earlier : Array Node) (kind : Kind Nat) :
    (kind.resolve (Builder.earlier? earlier.size)).resolve (earlier[·]?) =
      kind.resolve (earlier[·]?) := by
  cases kind with
  | comparison left operator right =>
    simp only [Kind.resolve, Builder.earlier?]
    by_cases hleft : left < earlier.size
    · by_cases hright : right < earlier.size
      · rw [if_pos hleft, if_pos hright]
      · rw [if_pos hleft, if_neg hright, Array.getElem?_eq_none (Nat.le_of_not_lt hright)]
        cases earlier[left]? <;> rfl
    · rw [if_neg hleft, Array.getElem?_eq_none (Nat.le_of_not_lt hleft)]
  | _ => rfl

/-- Positions that are not there find nothing. -/
theorem filterMap_filter_lt (earlier : Array Node) (positions : List Nat) :
    (positions.filter (· < earlier.size)).filterMap (earlier[·]?) =
      positions.filterMap (earlier[·]?) := by
  induction positions with
  | nil => rfl
  | cons position rest ih =>
    by_cases hposition : position < earlier.size
    · simp [hposition, ih]
    · simp [hposition, ih]

private theorem nodeOf_settle (earlier : Array Node) (size : Nat) (entry : Entry) :
    nodeOf earlier (Builder.settle size earlier.size entry) = nodeOf earlier entry := by
  rw [nodeOf, nodeOf]
  simp only [Builder.settle, resolve_resolve_earlier, filterMap_filter_lt]

private theorem nodesFrom_settle (earlier : Array Node) (size : Nat) (entries : List Entry) :
    nodesFrom earlier (entries.mapIdx fun i ↦ Builder.settle size (earlier.size + i)) =
      nodesFrom earlier entries := by
  induction entries generalizing earlier with
  | nil => rfl
  | cons entry rest ih =>
    have hrest := ih (earlier.push (nodeOf earlier entry))
    rw [List.mapIdx_cons]
    simp only [nodesFrom, List.foldl_cons, Nat.add_zero, nodeOf_settle, Array.size_push] at hrest ⊢
    rw [← hrest]
    simp only [Nat.add_assoc, Nat.add_comm 1]

end TokenTree

namespace Builder

/-- The nodes of the entries so far. -/
def table (builder : Builder) : Array Node := TokenTree.nodesFrom #[] builder.entries.toList

/-- There are as many nodes as entries. -/
theorem size_table (builder : Builder) : builder.table.size = builder.next := by
  rw [table, TokenTree.size_nodesFrom]
  simp [next]

private theorem text_getElem?_table (builder : Builder) (position : Nat) :
    builder.table[position]?.map Node.text = builder.entries[position]?.map Entry.text := by
  have htexts := TokenTree.map_text_nodesFrom #[] builder.entries.toList
  have hat := congrArg (·[position]?) htexts
  simpa [table] using hat

/-- The tree that is finished has the nodes of the builder. -/
theorem allNodes_finish (builder : Builder) (roots : List Nat) :
    (builder.finish roots).allNodes = builder.table := by
  have hsettle := TokenTree.nodesFrom_settle #[] builder.next builder.entries.toList
  rw [TokenTree.allNodes_eq, table, ← hsettle, finish, Array.toList_mapIdx]
  simp

/-- A leaf is one more node. -/
theorem table_leaf (builder : Builder) (kind : Kind Nat) (text : String) :
    (builder.leaf kind text).table =
      builder.table.push (TokenTree.nodeOf builder.table { kind, text }) := by
  rw [table, leaf, Array.toList_push, TokenTree.nodesFrom_concat]
  rfl

/-- Adopting children changes nothing but parents. -/
theorem map_adopt (entries : Array Entry) (parent : Nat) (children : List Nat) :
    (adopt entries parent children).toList.map (fun entry ↦ { entry with parent := none }) =
      entries.toList.map fun entry ↦ { entry with parent := none } := by
  induction children generalizing entries with
  | nil => rfl
  | cons child rest ih =>
    rw [adopt, List.foldl_cons, ← adopt, ih, Array.toList_modify]
    apply List.ext_getElem?
    intro i
    rw [List.getElem?_map, List.getElem?_modify, List.getElem?_map]
    cases entries.toList[i]? with
    | none => rfl
    | some entry =>
      by_cases hi : child = i
      · simp [hi]
      · simp [hi]

/-- A group is one more node over the nodes of its children. -/
theorem table_group (builder : Builder) (kind : Kind Nat) (children : List Nat) :
    (builder.group kind children).table =
      builder.table.push (.mk (kind.resolve (builder.table[·]?))
        (Node.textOf (children.filterMap (builder.table[·]?)))
        (children.filterMap (builder.table[·]?))) := by
  have hadopt := TokenTree.nodesFrom_congr #[] (map_adopt builder.entries builder.next children)
  have htext : builder.textOf children =
      Node.textOf (children.filterMap (builder.table[·]?)) := by
    rw [textOf, Node.textOf, List.map_filterMap]
    simp only [text_getElem?_table]
  rw [table, group, Array.toList_push, TokenTree.nodesFrom_concat, hadopt, ← htext]
  rfl

/-! ### Adding nodes -/

private theorem resolve_resolve_none {kind : Kind Node} (spans : Node.Spans [] kind)
    (lookup : Nat → Option Node) :
    ((kind.resolve fun _ ↦ (none : Option Nat)).resolve lookup) = kind := by
  cases kind with
  | comparison left operator right => exact absurd spans.1 (by simp)
  | _ => rfl

private theorem resolve_groupKind {kind : Kind Node} {positions : List Nat} {children : List Node}
    {lookup : Nat → Option Node} (spans : Node.Spans children kind)
    (hpositions : positions.map lookup = children.map some) :
    (groupKind positions kind).resolve lookup = kind := by
  cases kind with
  | comparison left operator right =>
    have hhead := congrArg List.head? hpositions
    have hlast := congrArg List.getLast? hpositions
    simp only [List.head?_map, List.getLast?_map, spans.1, spans.2, Option.map_some,
      Option.map_eq_some_iff] at hhead hlast
    rcases hhead with ⟨first, hfirst, hleft⟩
    rcases hlast with ⟨last, hlast, hright⟩
    simp [groupKind, Kind.resolve, List.headD_eq_head?_getD, List.getLastD_eq_getLast?, hfirst,
      hlast, hleft, hright]
  | _ => rfl

private theorem filterMap_eq_of_map_eq {positions : List Nat} {nodes : List Node}
    {lookup : Nat → Option Node} (h : positions.map lookup = nodes.map some) :
    positions.filterMap lookup = nodes := by
  have hmap := congrArg (List.filterMap id) h
  rwa [List.filterMap_map, List.filterMap_map, Function.id_comp, Function.id_comp,
    List.filterMap_some] at hmap

private theorem getElem?_push_of_some {before : Array Node} (node : Node) {i : Nat} {other : Node}
    (hother : before[i]? = some other) : (before.push node)[i]? = some other := by
  have hi : i < before.size := (Array.getElem?_eq_some_iff.1 hother).1
  rw [Array.getElem?_push, if_neg (Nat.ne_of_lt hi), hother]

private theorem map_getElem?_table {table : Array Node} {places : List (Node × Nat)}
    (h : ∀ place ∈ places, table[place.2]? = some place.1) :
    (places.map Prod.snd).map (table[·]?) = (places.map Prod.fst).map some := by
  rw [List.map_map, List.map_map]
  exact List.map_congr_left h

/-- How a table comes about: from nothing, by leaves, and by groups over two nodes or more in a row.
The nodes that are in no group yet are listed with their positions. -/
inductive Built : Builder → List (Node × Nat) → Prop
  | empty : Built {} []
  | leaf {builder : Builder} {places : List (Node × Nat)} {kind : Kind Node} {text : String} :
    Built builder places → kind.isPlain = true →
    Built (builder.addLeaf (.leaf kind text)) (places ++ [(.leaf kind text, builder.next)])
  | group {builder : Builder} {before inside after : List (Node × Nat)} {kind : Kind Node} :
    Built builder (before ++ (inside ++ after)) → 2 ≤ inside.length →
    Node.Spans (inside.map Prod.fst) kind →
    Built (builder.addGroup kind (inside.map Prod.snd))
      (before ++ (.group kind (inside.map Prod.fst), builder.next) :: after)

/-- The nodes of a table are found at their positions. -/
theorem Built.getElem?_table {builder : Builder} {places : List (Node × Nat)}
    (h : Built builder places) : ∀ place ∈ places, builder.table[place.2]? = some place.1 := by
  induction h with
  | empty => exact nofun
  | @leaf builder places kind text _ hkind ih =>
    rw [addLeaf, table_leaf, List.forall_mem_append, List.forall_mem_singleton, ← size_table]
    refine ⟨fun place hmem ↦ getElem?_push_of_some _ (ih place hmem), ?_⟩
    have hread := resolve_resolve_none (Node.spans_of_isPlain hkind []) (builder.table[·]?)
    rw [Array.getElem?_push_size]
    exact congrArg (fun kind ↦ some (Node.mk kind text [])) hread
  | @group builder before inside after kind _ _ hspans ih =>
    simp only [List.forall_mem_append] at ih
    obtain ⟨hbefore, hinside, hafter⟩ := ih
    have hpositions := map_getElem?_table hinside
    rw [addGroup, table_group, resolve_groupKind hspans hpositions,
      filterMap_eq_of_map_eq hpositions, List.forall_mem_append, List.forall_mem_cons,
      ← size_table]
    refine ⟨fun place hmem ↦ getElem?_push_of_some _ (hbefore place hmem), ?_,
      fun place hmem ↦ getElem?_push_of_some _ (hafter place hmem)⟩
    rw [Array.getElem?_push_size]
    rfl

/-- The tree over the nodes that are in no group has them as its nodes. -/
theorem Built.nodes_finish {builder : Builder} {places : List (Node × Nat)}
    (h : Built builder places) :
    (builder.finish (places.map Prod.snd)).nodes = places.map Prod.fst := by
  have hpositions := map_getElem?_table h.getElem?_table
  rw [TokenTree.nodes, allNodes_finish, finish, ← size_table, TokenTree.filterMap_filter_lt]
  exact filterMap_eq_of_map_eq hpositions

end Builder

end SqlFootprint
