import SqlFootprint.Proofs.Front
import SqlFootprint.Proofs.OrderedTrees
import SqlFootprint.Tree.InPlace
import SqlFootprint.Tree.Significant

/-!
# Reading an ordered tree in place

Every reading of an ordered tree ends, without a fault, with what its counterpart gives for the
nodes that the tree holds.
-/

namespace SqlFootprint

open List (Forall₂)

/-! ### Nodes by themselves -/

namespace Node

/-- The node by itself: its kind without operands, its text and no children. -/
def alone (node : Node) : Node := .leaf (node.kind.resolve fun _ ↦ (none : Option Node)) node.text

@[simp] theorem isBlank_alone (node : Node) : node.alone.isBlank = node.isBlank := by
  cases node with
  | mk kind text children => cases kind <;> rfl

@[simp] theorem isAnyKeyword_alone (node : Node) : node.alone.isAnyKeyword = node.isAnyKeyword := by
  cases node with
  | mk kind text children => cases kind <;> rfl

@[simp] theorem isAnyPunctuation_alone (node : Node) :
    node.alone.isAnyPunctuation = node.isAnyPunctuation := by
  cases node with
  | mk kind text children => cases kind <;> rfl

@[simp] theorem identifier?_alone (node : Node) : node.alone.identifier? = node.identifier? := by
  cases node with
  | mk kind text children => cases kind <;> rfl

@[simp] theorem isList_alone (node : Node) : node.alone.isList = node.isList := by
  cases node with
  | mk kind text children => cases kind <;> rfl

@[simp] theorem text_alone (node : Node) : node.alone.text = node.text := rfl

@[simp] theorem isKeyword_alone (node : Node) (word : String) :
    node.alone.isKeyword word = node.isKeyword word := by
  rw [isKeyword, isKeyword, isAnyKeyword_alone, text_alone]

@[simp] theorem isPunctuation_alone (node : Node) (text : String) :
    node.alone.isPunctuation text = node.isPunctuation text := by
  rw [isPunctuation, isPunctuation, isAnyPunctuation_alone, text_alone]

@[simp] theorem isName_alone (node : Node) : node.alone.isName = node.isName := by
  rw [isName, isName, identifier?_alone, isList_alone]

/-! ### Neighbours -/

/-- The last of some nodes that is no blank. -/
theorem lastOf_none_eq_find? (nodes : List Node) :
    Grouping.lastOf none nodes = nodes.reverse.find? (!·.isBlank) := by
  induction nodes using List.reverseRecOn with
  | nil => rfl
  | append_singleton nodes node ih =>
    rw [Grouping.lastOf_append, ih, List.reverse_append, List.reverse_singleton,
      List.singleton_append, List.find?_cons, Grouping.lastOf, List.foldl_cons, List.foldl_nil,
      lastSignificant]
    cases node.isBlank <;> rfl

private theorem map_fst_significant? (nodes : List Node) :
    (significant? nodes).map Prod.fst = nodes.find? (!·.isBlank) := by
  induction nodes with
  | nil => rfl
  | cons node rest ih =>
    rw [significant?, List.find?_cons]
    cases node.isBlank with
    | true =>
      rw [if_pos rfl, Option.map_map, ← ih]
      rfl
    | false => rfl

private theorem lt_of_prevSignificant? {nodes : List Node} {place found : Nat}
    (h : prevSignificant? nodes place = some found) : found < nodes.length := by
  obtain ⟨back, hback, rfl⟩ := Option.map_eq_some_iff.1 h
  obtain ⟨hlt, -⟩ := List.findIdx?_eq_some_iff_getElem.1 hback
  rw [List.length_reverse] at hlt
  have hlength := List.length_take_le' place nodes
  omega

/-- The closest place after a place is one of the nodes. -/
theorem lt_of_nextSignificant? {nodes : List Node} {place found : Nat}
    (h : nextSignificant? nodes place = some found) : found < nodes.length := by
  obtain ⟨ahead, hahead, rfl⟩ := Option.map_eq_some_iff.1 h
  obtain ⟨hlt, -⟩ := List.findIdx?_eq_some_iff_getElem.1 hahead
  rw [List.length_drop] at hlt
  omega

private theorem prevSignificant?_bind (nodes : List Node) (place : Nat) :
    (prevSignificant? nodes place).bind (nodes[·]?) = Grouping.lastOf none (nodes.take place) := by
  rw [lastOf_none_eq_find?, List.find?_eq_bind_findIdx?_getElem?, prevSignificant?,
    Option.bind_map]
  cases hfound : (nodes.take place).reverse.findIdx? fun node ↦ !node.isBlank with
  | none => rfl
  | some i =>
    obtain ⟨hi, -⟩ := List.findIdx?_eq_some_iff_getElem.1 hfound
    rw [List.length_reverse] at hi
    have hlength := List.length_take_le place nodes
    rw [Option.bind_some, Option.bind_some, Function.comp_apply, List.getElem?_reverse hi,
      List.getElem?_take_of_lt (by omega)]

/-- The node at the closest place after a place is the front of what follows it. -/
theorem nextSignificant?_bind (nodes : List Node) (place : Nat) :
    (nextSignificant? nodes place).bind (nodes[·]?) =
      (significant? (nodes.drop (place + 1))).map Prod.fst := by
  rw [map_fst_significant?, List.find?_eq_bind_findIdx?_getElem?, nextSignificant?,
    Option.bind_map]
  congr 1
  funext i
  rw [Function.comp_apply, List.getElem?_drop]

/-! ### Outlines -/

private theorem outlineOfAll_cons (depth : Nat) (node : Node) (rest : List Node) :
    outlineOfAll depth (node :: rest) =
      (if node.isBlank then ""
      else outlineLine depth node.kind.label node.text ++
        if opensOutline node.kind then outlineOfAll (depth + 1) node.children else "") ++
      outlineOfAll depth rest := by
  cases node
  rfl

end Node

/-- An entry is by itself what its node is. -/
@[simp] theorem Entry.alone_eq (entry : Entry) (earlier : Array Node) :
    entry.alone = (TokenTree.nodeOf earlier entry).alone := by
  cases entry with
  | mk kind text parent children =>
    cases kind with
    | comparison left operator right =>
      simp only [Entry.alone, Node.alone, TokenTree.nodeOf, Node.kind, Kind.resolve]
      cases earlier[left]? <;> cases earlier[right]? <;> rfl
    | _ => rfl

namespace InPlace

/-! ### Sequences -/

/-- Values that are given one by one are given together. -/
theorem mapM_eq_pure {α β : Type} {f : α → Access β} {arguments : List α} {values : List β}
    (h : Forall₂ (fun argument value ↦ f argument = pure value) arguments values) :
    arguments.mapM f = pure values := by
  induction h with
  | nil => rfl
  | cons hvalue _ ih => rw [List.mapM_cons, hvalue, pure_bind, ih, pure_bind]

private theorem findM?_eq_pure {α : Type} {test : α → Access Bool} {check : α → Bool}
    {arguments : List α}
    (h : ∀ argument ∈ arguments, test argument = pure (check argument)) :
    arguments.findM? test = pure (arguments.find? check) := by
  induction arguments with
  | nil => rfl
  | cons argument rest ih =>
    rw [List.forall_mem_cons] at h
    rw [List.findM?, h.1, pure_bind, ih h.2, List.find?_cons]
    cases check argument <;> rfl

variable {tree : TokenTree} {sequence : List Nat} {nodes : List Node}

/-- A place of a sequence has the position of its node. -/
theorem placeAt_eq (hnodes : Forall₂ tree.Holds sequence nodes) {place : Nat} {node : Node}
    (hplace : nodes[place]? = some node) :
    ∃ position, placeAt sequence place = pure position ∧ tree.Holds position node := by
  obtain ⟨hbound, rfl⟩ := List.getElem?_eq_some_iff.1 hplace
  have hsame : place < sequence.length := hnodes.length_eq ▸ hbound
  refine ⟨sequence[place], ?_, hnodes.get hsame hbound⟩
  rw [placeAt, List.getElem?_eq_getElem hsame]

/-- A part of a sequence holds that part of the nodes. -/
theorem part_eq (hnodes : Forall₂ tree.Holds sequence nodes) {start stop : Nat}
    (hstart : start ≤ stop) (hstop : stop ≤ nodes.length) :
    ∃ positions, part sequence start stop = pure positions ∧
      Forall₂ tree.Holds positions ((nodes.take stop).drop start) := by
  have hsame : stop ≤ sequence.length := hnodes.length_eq ▸ hstop
  exact ⟨_, if_pos ⟨hstart, hsame⟩, List.forall₂_drop start (List.forall₂_take stop hnodes)⟩

/-- What follows a place holds the nodes that follow it. -/
theorem part_rest_eq (hnodes : Forall₂ tree.Holds sequence nodes) {place : Nat}
    (hplace : place < nodes.length) :
    ∃ positions, part sequence (place + 1) sequence.length = pure positions ∧
      Forall₂ tree.Holds positions (nodes.drop (place + 1)) := by
  have hpart := part_eq hnodes (Nat.succ_le_of_lt hplace) (Nat.le_refl _)
  rwa [List.take_length, ← hnodes.length_eq] at hpart

/-- A search finds the first of the places whose nodes pass the test. -/
theorem findPlace_eq (hnodes : Forall₂ tree.Holds sequence nodes) {test : Nat → Access Bool}
    {check : Node → Bool}
    (htest : ∀ position node, tree.Holds position node → test position = pure (check node))
    {places : List Nat} (hplaces : ∀ place ∈ places, place < nodes.length) :
    findPlace test sequence places =
      pure (places.find? fun place ↦ nodes[place]?.any check) := by
  apply findM?_eq_pure
  intro place hmem
  have hnode := List.getElem?_eq_getElem (hplaces place hmem)
  obtain ⟨position, hposition, hholds⟩ := placeAt_eq hnodes hnode
  rw [hposition, pure_bind, htest position _ hholds, hnode]
  rfl

/-- The first of the places from one on is that of the first value that passes a check. -/
theorem find?_range' {α : Type} {test : Nat → Bool} {check : α → Bool} (values : List α)
    {start : Nat} (h : ∀ i < values.length, test (start + i) = values[i]?.any check) :
    (List.range' start values.length).find? test =
      (values.findIdx? check).map (start + ·) := by
  induction values generalizing start with
  | nil => rfl
  | cons value values ih =>
    have hfirst : test start = check value := h 0 (Nat.zero_lt_succ _)
    have hrest := @ih (start + 1) fun i hi ↦ by
      rw [Nat.add_right_comm]
      exact h (i + 1) (Nat.succ_lt_succ hi)
    rw [List.length_cons, List.range'_succ, List.find?_cons, hfirst, hrest, List.findIdx?_cons]
    cases check value with
    | true => rfl
    | false =>
      simp only [Option.map_map, if_neg Bool.false_ne_true]
      congr 1
      funext i
      exact Nat.add_right_comm start 1 i

private theorem find?_reverse_range' {α : Type} {test : Nat → Bool} {check : α → Bool}
    (values : List α)
    (h : ∀ i < values.length, test i = values[i]?.any check) :
    (List.range' 0 values.length).reverse.find? test =
      (values.reverse.findIdx? check).map fun i ↦ values.length - 1 - i := by
  induction values using List.reverseRecOn with
  | nil => rfl
  | append_singleton values value ih =>
    rw [List.length_append, List.length_singleton] at h ⊢
    have hlast : test values.length = check value := by
      rw [h _ (Nat.lt_succ_self _), List.getElem?_concat_length]
      rfl
    have hbefore := ih fun i hi ↦ by
      rw [h i (Nat.lt_succ_of_lt hi), List.getElem?_append_left hi]
    rw [List.range'_concat, List.reverse_append, List.reverse_singleton, List.singleton_append,
      List.find?_cons, Nat.one_mul, Nat.zero_add, hlast, hbefore, List.reverse_append,
      List.reverse_singleton, List.singleton_append, List.findIdx?_cons]
    cases check value with
    | true => rfl
    | false =>
      simp only [Option.map_map, if_neg Bool.false_ne_true]
      congr 1
      funext i
      simp only [Function.comp_apply]
      omega

/-! ### Entries -/

section Entries

variable (h : tree.Ordered) {position : Nat} {node : Node} {test : Node → Bool}
  (htest : ∀ node, test node.alone = test node)

include h

/-- The entry at a position is there, and makes the node that is held. -/
theorem entryAt_eq (hnode : tree.Holds position node) :
    ∃ entry, entryAt tree position = pure entry ∧ tree.entries[position]? = some entry ∧
      node = TokenTree.nodeOf tree.allNodes entry := by
  obtain ⟨entry, hentry, hsame⟩ := h.exists_entry hnode
  refine ⟨entry, ?_, hentry, hsame⟩
  rw [entryAt, hentry]

include htest

/-- A test by itself is that of the node. -/
theorem testAt_eq (hnode : tree.Holds position node) :
    testAt tree test position = pure (test node) := by
  obtain ⟨entry, hentry, -, rfl⟩ := entryAt_eq h hnode
  rw [testAt, hentry, pure_bind, Entry.alone_eq entry tree.allNodes, htest]

/-- What is there is tested as its node. -/
theorem isThere_eq (hnode : tree.Holds position node) :
    isThere tree test position = test node := by
  obtain ⟨entry, hentry, rfl⟩ := h.exists_entry hnode
  rw [isThere, hentry, Option.any_some, Entry.alone_eq entry tree.allNodes, htest]

variable (test) (hnodes : Forall₂ tree.Holds sequence nodes)

include hnodes

/-- The first place at which a test is passed is that of the first node. -/
theorem firstPlace_eq : firstPlace tree test sequence = pure (nodes.findIdx? test) := by
  have hplaces : ∀ place ∈ List.range' 0 sequence.length, place < nodes.length := by
    intro place hmem
    rw [← hnodes.length_eq]
    simpa using hmem
  have hfind : (List.range' 0 nodes.length).find? (fun place ↦ nodes[place]?.any test) =
      nodes.findIdx? test := by
    rw [find?_range' nodes fun i _ ↦ by rw [Nat.zero_add]]
    simp
  rw [firstPlace, findPlace_eq hnodes (fun position node hnode ↦ testAt_eq h htest hnode) hplaces,
    hnodes.length_eq, hfind]

omit htest

/-- The closest place before a place is that of the closest node. -/
theorem prevSignificant_eq (place : Nat) :
    prevSignificant tree sequence place = pure (Node.prevSignificant? nodes place) := by
  have hlength : min place sequence.length = (nodes.take place).length := by
    rw [List.length_take, hnodes.length_eq]
  have hplaces : ∀ i ∈ (List.range' 0 (min place sequence.length)).reverse, i < nodes.length :=
    fun i hmem ↦ by
      rw [hnodes.length_eq, List.mem_reverse, List.mem_range'_1] at hmem
      omega
  rw [prevSignificant, findPlace_eq hnodes (fun position node hnode ↦
    congrArg pure (isThere_eq h (fun node ↦ by rw [Node.isBlank_alone]) hnode)) hplaces, hlength,
    find?_reverse_range' (nodes.take place)]
  · rfl
  · intro i hi
    rw [List.getElem?_take_of_lt]
    rw [List.length_take] at hi
    omega

/-- The closest place after a place is that of the closest node. -/
theorem nextSignificant_eq (place : Nat) :
    nextSignificant tree sequence place = pure (Node.nextSignificant? nodes place) := by
  have hlength : sequence.length - (place + 1) = (nodes.drop (place + 1)).length := by
    rw [List.length_drop, hnodes.length_eq]
  have hplaces : ∀ i ∈ List.range' (place + 1) (sequence.length - (place + 1)),
      i < nodes.length := fun i hmem ↦ by
    rw [hnodes.length_eq, List.mem_range'_1] at hmem
    omega
  rw [nextSignificant, findPlace_eq hnodes (fun position node hnode ↦
    congrArg pure (isThere_eq h (fun node ↦ by rw [Node.isBlank_alone]) hnode)) hplaces, hlength,
    find?_range' (nodes.drop (place + 1))]
  · rfl
  · intro i _
    rw [List.getElem?_drop]

include htest

/-- The test of the entry at a place is that of the node. -/
theorem testPlace?_eq {found : Option Nat} (hfound : ∀ place ∈ found, place < nodes.length) :
    testPlace? tree test sequence found = pure ((found.bind (nodes[·]?)).any test) := by
  cases found with
  | none => rfl
  | some place =>
    have hnode := List.getElem?_eq_getElem (hfound place rfl)
    obtain ⟨position, hposition, hholds⟩ := placeAt_eq hnodes hnode
    rw [testPlace?, hposition, pure_bind, testAt_eq h htest hholds, Option.bind_some, hnode]
    rfl

/-- What stands before a place is tested as the last node before it that is no blank. -/
theorem testBefore_eq (place : Nat) : testBefore tree test sequence place =
    pure ((Grouping.lastOf none (nodes.take place)).any test) := by
  rw [testBefore, prevSignificant_eq h hnodes, pure_bind, testPlace?_eq h test htest hnodes
    (fun _ ↦ Node.lt_of_prevSignificant?), Node.prevSignificant?_bind]

/-- What stands after a place is tested as the front of the nodes after it. -/
theorem testAfter_eq (place : Nat) : testAfter tree test sequence place =
    pure ((Node.significant? (nodes.drop (place + 1))).any fun next ↦ test next.1) := by
  rw [testAfter, nextSignificant_eq h hnodes, pure_bind, testPlace?_eq h test htest hnodes
    (fun _ ↦ Node.lt_of_nextSignificant?), Node.nextSignificant?_bind, Option.any_map]

omit htest

/-- The entries of a sequence are there, and make its nodes. -/
theorem mapM_entryAt_eq : ∃ entries : List Entry, sequence.mapM (entryAt tree) = pure entries ∧
    nodes = entries.map (TokenTree.nodeOf tree.allNodes) := by
  induction hnodes with
  | nil => exact ⟨[], rfl, rfl⟩
  | cons hnode _ ih =>
    obtain ⟨entry, hentry, -, rfl⟩ := entryAt_eq h hnode
    obtain ⟨entries, hentries, rfl⟩ := ih
    exact ⟨entry :: entries, by rw [List.mapM_cons, hentry, pure_bind, hentries, pure_bind], rfl⟩

end Entries

/-! ### Lists -/

section Lists

variable (h : tree.Ordered) {position : Nat} {node : Node}

include h

/-- The items at a position hold those of the node. -/
theorem holds_items (hnode : tree.Holds position node) :
    Forall₂ tree.Holds (items tree position) node.items := by
  obtain ⟨entry, hentry, hsame⟩ := h.exists_entry hnode
  have hchildren := h.holds_children hentry
  rw [← hsame] at hchildren
  have hlist : entry.alone.isList = node.isList := by
    rw [Entry.alone_eq entry tree.allNodes, ← hsame, Node.isList_alone]
  simp only [items, hentry, hlist, Node.items]
  cases node.isList with
  | true =>
    refine List.rel_filter (fun child held hheld ↦ ?_) hchildren
    have hthere : isThere tree (fun child ↦ !child.isBlank && !child.isAnyPunctuation) child =
        (!held.isBlank && !held.isAnyPunctuation) := by
      apply isThere_eq h _ hheld
      intro node
      rw [Node.isBlank_alone, Node.isAnyPunctuation_alone]
    exact iff_of_eq (congrArg (· = true) hthere)
  | false => exact .cons hnode .nil

/-- The names at a position are those of the node. -/
theorem realNames_eq (hnode : tree.Holds position node) :
    realNames tree position = pure node.realNames := by
  obtain ⟨entries, hentries, hsame⟩ := mapM_entryAt_eq h (holds_items h hnode)
  rw [realNames, hentries, pure_bind, Node.realNames, hsame, List.filterMap_map]
  congr 2
  funext entry
  rw [Entry.alone_eq entry tree.allNodes, Node.identifier?_alone]
  rfl

end Lists

/-! ### The statement as a whole -/

/-- The texts of the roots are those of the statement. -/
theorem text_eq (tree : TokenTree) : text tree = tree.text := by
  rw [text, TokenTree.text, TokenTree.nodes, Node.textOf, List.map_filterMap]
  congr 2
  funext root
  rw [TokenTree.allNodes_eq]
  have htexts := congrArg (·[root]?) (TokenTree.map_text_nodesFrom #[] tree.entries.toList)
  simpa using htexts.symm

/-- An entry has the label of its node, and shows its children where the node does. -/
theorem label_eq (h : tree.Ordered) {position : Nat} {entry : Entry}
    (hentry : tree.entries[position]? = some entry) :
    entry.kind.label = (TokenTree.nodeOf tree.allNodes entry).kind.label ∧
      Node.opensOutline entry.kind =
        Node.opensOutline (TokenTree.nodeOf tree.allNodes entry).kind := by
  cases hkind : entry.kind with
  | comparison left operator right =>
    obtain ⟨leftNode, rightNode, -, -, hnode⟩ := h.holds_operands hentry hkind
    rw [hnode]
    exact ⟨rfl, rfl⟩
  | _ =>
    rw [TokenTree.nodeOf, Node.kind, hkind]
    exact ⟨rfl, rfl⟩

/-- The outline of positions is that of the nodes. -/
theorem outlineOfAll_eq (h : tree.Ordered) {levels : Nat}
    (hnodes : Forall₂ tree.Holds sequence nodes) (hlevels : ∀ i ∈ sequence, i < levels)
    (depth : Nat) :
    outlineOfAll tree levels depth sequence = pure (Node.outlineOfAll depth nodes) := by
  refine h.induction (motive := fun levels sequence nodes ↦ ∀ depth,
    outlineOfAll tree levels depth sequence = pure (Node.outlineOfAll depth nodes))
    ?_ ?_ hnodes hlevels depth
  · intro levels depth
    rw [outlineOfAll]
    rfl
  · intro levels position entry positions nodes hentry hearlier hrest depth
    have hchildren := hearlier _ _ (h.holds_children hentry)
      (fun child hmem ↦ h.lt position entry hentry child (List.mem_append_left _ hmem)) (depth + 1)
    obtain ⟨hlabel, hopens⟩ := label_eq h hentry
    have hblank : entry.alone.isBlank = (TokenTree.nodeOf tree.allNodes entry).isBlank := by
      rw [Entry.alone_eq entry tree.allNodes, Node.isBlank_alone]
    have htext : entry.text = (TokenTree.nodeOf tree.allNodes entry).text := rfl
    rw [outlineOfAll]
    simp only [hentry, hblank, hlabel, hopens, hchildren, hrest, htext, pure_bind]
    rw [Node.outlineOfAll_cons]
    by_cases hskip : (TokenTree.nodeOf tree.allNodes entry).isBlank = true
    · rw [if_pos hskip, if_pos hskip]
    · by_cases hshow : Node.opensOutline (TokenTree.nodeOf tree.allNodes entry).kind = true
      · rw [if_neg hskip, if_neg hskip, if_pos hshow, if_pos hshow]
      · rw [if_neg hskip, if_neg hskip, if_neg hshow, if_neg hshow]

/-- The outline of an ordered tree is that of its nodes. -/
theorem outline_eq (h : tree.Ordered) : outline tree = pure (Node.outline tree.nodes) :=
  outlineOfAll_eq h h.holds_roots h.root_lt 0

end InPlace

end SqlFootprint
