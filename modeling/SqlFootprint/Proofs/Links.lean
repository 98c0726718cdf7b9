import SqlFootprint.Proofs.Conservation

/-!
# Stored statements are forests

The entries of a stored tree name their parents and their children. `TokenTree.Forest` says that
these links fit together: every position is a root or the child of one entry, parents and children
name each other, and a group comes after its children, of which there are two or more.
`forest_groupStatement` says that every stored statement is such a forest, and that it has at most
twice as many entries as the statement has tokens.
-/

namespace SqlFootprint

namespace Entry

/-- The parent of the entry at a position. -/
def parentAt? (entries : Array Entry) (position : Nat) : Option Nat :=
  entries[position]?.bind Entry.parent

/-- The children of the entry at a position. -/
def childrenAt (entries : Array Entry) (position : Nat) : List Nat :=
  (entries[position]?.map Entry.children).getD []

/-- The entry comes after its children, two or more if it is a group, and a comparison has its first
and its last child as its operands. -/
structure Sound (position : Nat) (entry : Entry) : Prop where
  lt : ∀ child ∈ entry.children, child < position
  two : entry.children ≠ [] ∨ entry.kind.isPlain = false → 2 ≤ entry.children.length
  operands : ∀ left operator right, entry.kind = .comparison left operator right →
    entry.children.head? = some left ∧ entry.children.getLast? = some right

/-- The children at a position are those of the entry that is there. -/
theorem mem_childrenAt_iff {entries : Array Entry} {position child : Nat} :
    child ∈ childrenAt entries position ↔
      ∃ entry, entries[position]? = some entry ∧ child ∈ entry.children := by
  unfold childrenAt
  cases entries[position]? with
  | none => simp
  | some entry => simp

private theorem mem_flatMap_children_iff {entries : Array Entry} {child : Nat} :
    child ∈ entries.toList.flatMap Entry.children ↔
      ∃ position, child ∈ childrenAt entries position := by
  rw [List.mem_flatMap]
  constructor
  · rintro ⟨entry, hentry, hchild⟩
    obtain ⟨position, hposition⟩ := List.mem_iff_getElem?.1 hentry
    rw [Array.getElem?_toList] at hposition
    exact ⟨position, mem_childrenAt_iff.2 ⟨entry, hposition, hchild⟩⟩
  · rintro ⟨position, hmem⟩
    obtain ⟨entry, hentry, hchild⟩ := mem_childrenAt_iff.1 hmem
    exact ⟨entry, Array.mem_toList_iff.2 (Array.mem_of_getElem? hentry), hchild⟩

/-- The children after one more entry. -/
theorem childrenAt_push (entries : Array Entry) (entry : Entry) (position : Nat) :
    childrenAt (entries.push entry) position =
      if position = entries.size then entry.children else childrenAt entries position := by
  rw [childrenAt, Array.getElem?_push]
  split
  · rfl
  · rfl

/-- The parents after one more entry. -/
theorem parentAt?_push (entries : Array Entry) (entry : Entry) (position : Nat) :
    parentAt? (entries.push entry) position =
      if position = entries.size then entry.parent else parentAt? entries position := by
  rw [parentAt?, Array.getElem?_push]
  split
  · rfl
  · rfl

end Entry

open Entry

namespace Builder

/-- The entries once some of them are adopted. -/
theorem getElem?_adopt (entries : Array Entry) (parent : Nat) (children : List Nat)
    (position : Nat) :
    (adopt entries parent children)[position]? = entries[position]?.map fun entry ↦
      if position ∈ children then { entry with parent := some parent } else entry := by
  induction children generalizing entries with
  | nil => simp [adopt]
  | cons child rest ih =>
    rw [adopt, List.foldl_cons, ← adopt, ih, Array.getElem?_modify]
    by_cases hchild : child = position
    · subst hchild
      cases entries[child]? with
      | none => simp
      | some entry => simp
    · cases entries[position]? with
      | none => simp [hchild]
      | some entry => simp [hchild, Ne.symm hchild]

/-- Adopting entries adds none. -/
theorem size_adopt (entries : Array Entry) (parent : Nat) (children : List Nat) :
    (adopt entries parent children).size = entries.size := by
  have hlength := congrArg List.length (map_adopt entries parent children)
  simpa using hlength

private theorem childrenAt_adopt (entries : Array Entry) (parent : Nat) (children : List Nat)
    (position : Nat) :
    childrenAt (adopt entries parent children) position = childrenAt entries position := by
  rw [childrenAt, getElem?_adopt, childrenAt]
  cases entries[position]? with
  | none => rfl
  | some entry =>
    by_cases hmem : position ∈ children
    · simp [hmem]
    · simp [hmem]

private theorem parentAt?_adopt {entries : Array Entry} {parent : Nat} {children : List Nat}
    (h : ∀ child ∈ children, child < entries.size) (position : Nat) :
    parentAt? (adopt entries parent children) position =
      if position ∈ children then some parent else parentAt? entries position := by
  rw [parentAt?, getElem?_adopt]
  by_cases hmem : position ∈ children
  · rw [if_pos hmem, Array.getElem?_eq_getElem (h position hmem)]
    simp [hmem]
  · simp only [if_neg hmem, Option.map_id', parentAt?]

private theorem flatMap_children_adopt (entries : Array Entry) (parent : Nat)
    (children : List Nat) :
    (adopt entries parent children).toList.flatMap Entry.children =
      entries.toList.flatMap Entry.children := by
  have hmap := congrArg (List.flatMap Entry.children) (map_adopt entries parent children)
  rwa [List.flatMap_map, List.flatMap_map] at hmap

end Builder

/-- The links of a tree fit together: each position is once a root or a child, parents and children
name each other, and every entry comes after its children. -/
structure TokenTree.Forest (tree : TokenTree) : Prop where
  perm : (tree.roots ++ tree.entries.toList.flatMap Entry.children).Perm
    (List.range tree.entries.size)
  parent_iff : ∀ parent child,
    parentAt? tree.entries child = some parent ↔ child ∈ childrenAt tree.entries parent
  root_iff : ∀ child < tree.entries.size,
    parentAt? tree.entries child = none ↔ child ∈ tree.roots
  sound : ∀ (position : Nat) (entry : Entry), tree.entries[position]? = some entry →
    entry.Sound position

namespace TokenTree

namespace Forest

variable {entries : Array Entry} {roots : List Nat}

/-- The links fit together where the roots, and the parents by the children, do. -/
theorem of_perm
    (hperm : (roots ++ entries.toList.flatMap Entry.children).Perm (List.range entries.size))
    (hparent : ∀ parent child,
      parentAt? entries child = some parent ↔ child ∈ childrenAt entries parent)
    (hsound : ∀ (position : Nat) (entry : Entry), entries[position]? = some entry →
      entry.Sound position) : Forest ⟨entries, roots⟩ where
  perm := hperm
  parent_iff := hparent
  root_iff := by
    intro child hchild
    have hnodup := hperm.nodup_iff.2 List.nodup_range
    have hmem := hperm.mem_iff.2 (List.mem_range.2 hchild)
    rw [Option.eq_none_iff_forall_ne_some]
    constructor
    · intro hnone
      rcases List.mem_append.1 hmem with hroot | hinner
      · exact hroot
      · obtain ⟨parent, hparentOf⟩ := mem_flatMap_children_iff.1 hinner
        exact absurd ((hparent parent child).2 hparentOf) (hnone parent)
    · intro hroot parent hsome
      have hinner := mem_flatMap_children_iff.2 ⟨parent, (hparent parent child).1 hsome⟩
      exact (List.nodup_append.1 hnodup).2.2 child hroot child hinner rfl
  sound := hsound

/-- Every root is there. -/
theorem lt_of_mem_roots (h : Forest ⟨entries, roots⟩) : ∀ root ∈ roots, root < entries.size := by
  intro root hmem
  have hrange := h.perm.mem_iff.1 (List.mem_append_left _ hmem)
  exact List.mem_range.1 hrange

/-- Every child stands before its parent, which is there. -/
theorem lt_of_mem_childrenAt (h : Forest ⟨entries, roots⟩) {parent child : Nat}
    (hmem : child ∈ childrenAt entries parent) : child < parent ∧ parent < entries.size := by
  obtain ⟨entry, hentry, hchild⟩ := mem_childrenAt_iff.1 hmem
  exact ⟨(h.sound parent entry hentry).lt child hchild, (Array.getElem?_eq_some_iff.1 hentry).1⟩

private theorem notMem_childrenAt (h : Forest ⟨entries, roots⟩) {root : Nat} (hmem : root ∈ roots)
    (parent : Nat) : root ∉ childrenAt entries parent := by
  intro hchild
  have hroot := (h.root_iff root (h.lt_of_mem_roots root hmem)).2 hmem
  have hsome := (h.parent_iff parent root).2 hchild
  rw [hroot] at hsome
  cases hsome

/-- The next position is a child of no entry yet. -/
theorem next_notMem_childrenAt (h : Forest ⟨entries, roots⟩) (parent : Nat) :
    entries.size ∉ childrenAt entries parent := by
  intro hmem
  have hlt := h.lt_of_mem_childrenAt hmem
  omega

/-- The next position has no children yet. -/
theorem notMem_childrenAt_next (h : Forest ⟨entries, roots⟩) (child : Nat) :
    child ∉ childrenAt entries entries.size := by
  intro hmem
  have hlt := h.lt_of_mem_childrenAt hmem
  omega

private theorem empty : Forest ⟨#[], []⟩ := by
  refine of_perm (List.Perm.refl _) ?_ ?_
  · intro parent child
    simp [parentAt?, childrenAt]
  · intro position entry hentry
    simp at hentry

/-- A leaf is one more root. -/
theorem push_leaf (h : Forest ⟨entries, roots⟩) {entry : Entry} (hparent : entry.parent = none)
    (hchildren : entry.children = []) (hplain : entry.kind.isPlain = true) :
    Forest ⟨entries.push entry, roots ++ [entries.size]⟩ := by
  refine of_perm ?_ ?_ ?_
  · rw [List.perm_iff_count]
    intro position
    have hcount := h.perm.count_eq position
    simp only [Array.toList_push, List.flatMap_append, List.flatMap_singleton, hchildren,
      List.count_append, List.count_nil, Array.size_push, List.range_succ] at hcount ⊢
    omega
  · intro parent child
    rw [parentAt?_push, childrenAt_push, hparent, hchildren]
    by_cases hchild : child = entries.size
    · subst hchild
      rw [if_pos rfl]
      refine iff_of_false nofun ?_
      by_cases hlast : parent = entries.size
      · rw [if_pos hlast]
        exact List.not_mem_nil
      · rw [if_neg hlast]
        exact h.next_notMem_childrenAt parent
    · rw [if_neg hchild, h.parent_iff]
      by_cases hlast : parent = entries.size
      · subst hlast
        rw [if_pos rfl]
        exact iff_of_false (h.notMem_childrenAt_next child) List.not_mem_nil
      · rw [if_neg hlast]
  · intro position other hother
    rw [Array.getElem?_push] at hother
    split at hother
    · cases hother
      refine ⟨?_, ?_, ?_⟩
      · rw [hchildren]
        exact nofun
      · rw [hchildren, hplain]
        simp
      · intro left operator right hkind
        rw [hkind] at hplain
        cases hplain
    · exact h.sound position other hother

/-- A group takes roots as its children and is a root in their place. -/
theorem push_group {before inside after : List Nat}
    (h : Forest ⟨entries, before ++ (inside ++ after)⟩) {entry : Entry}
    (hparent : entry.parent = none) (hchildren : entry.children = inside)
    (hsound : entry.Sound entries.size) :
    Forest ⟨(Builder.adopt entries entries.size inside).push entry,
      before ++ entries.size :: after⟩ := by
  have hinside : ∀ child ∈ inside, child < entries.size := fun child hmem ↦
    h.lt_of_mem_roots child (List.mem_append_right _ (List.mem_append_left _ hmem))
  refine of_perm ?_ ?_ ?_
  · rw [List.perm_iff_count]
    intro position
    have hcount := h.perm.count_eq position
    simp only [Array.toList_push, List.flatMap_append, List.flatMap_singleton, hchildren,
      Builder.flatMap_children_adopt, List.count_append, List.count_cons, Array.size_push,
      Builder.size_adopt, List.range_succ, List.count_nil] at hcount ⊢
    omega
  · intro parent child
    rw [parentAt?_push, childrenAt_push, hparent, hchildren, Builder.size_adopt,
      Builder.childrenAt_adopt, Builder.parentAt?_adopt hinside]
    by_cases hchild : child = entries.size
    · subst hchild
      rw [if_pos rfl]
      refine iff_of_false nofun ?_
      by_cases hlast : parent = entries.size
      · rw [if_pos hlast]
        intro hmem
        exact Nat.lt_irrefl _ (hinside _ hmem)
      · rw [if_neg hlast]
        exact h.next_notMem_childrenAt parent
    · rw [if_neg hchild]
      by_cases hmem : child ∈ inside
      · rw [if_pos hmem, Option.some_inj]
        by_cases hlast : parent = entries.size
        · rw [if_pos hlast]
          exact iff_of_true hlast.symm hmem
        · rw [if_neg hlast]
          refine iff_of_false (Ne.symm hlast) (h.notMem_childrenAt ?_ parent)
          exact List.mem_append_right _ (List.mem_append_left _ hmem)
      · rw [if_neg hmem, h.parent_iff]
        by_cases hlast : parent = entries.size
        · subst hlast
          rw [if_pos rfl]
          exact iff_of_false (h.notMem_childrenAt_next child) hmem
        · rw [if_neg hlast]
  · intro position other hother
    rw [Array.getElem?_push, Builder.size_adopt] at hother
    split at hother
    · next hlast =>
      cases hother
      rw [hlast]
      exact hsound
    · rw [Builder.getElem?_adopt, Option.map_eq_some_iff] at hother
      obtain ⟨earlier, hearlier, rfl⟩ := hother
      have hsame := h.sound position earlier hearlier
      split
      · exact ⟨hsame.lt, hsame.two, hsame.operands⟩
      · exact hsame

end Forest

end TokenTree

/-! ### Tables that come about by leaves and groups -/

private theorem Node.sizeOfAll_append (first second : List Node) :
    sizeOfAll (first ++ second) = sizeOfAll first + sizeOfAll second := by
  induction first with
  | nil => rw [List.nil_append, sizeOfAll, Nat.zero_add]
  | cons node rest ih => rw [List.cons_append, sizeOfAll, sizeOfAll, ih, Nat.add_assoc]

namespace Builder

private theorem operands_groupKind {positions : List Nat} (hne : positions ≠ []) {kind : Kind Node}
    {left right : Nat} {operator : String}
    (h : groupKind positions kind = .comparison left operator right) :
    positions.head? = some left ∧ positions.getLast? = some right := by
  cases kind with
  | comparison first word last =>
    simp only [groupKind, Kind.comparison.injEq] at h
    obtain ⟨rfl, rfl, rfl⟩ := h
    rw [List.headD_eq_head?_getD, List.getLastD_eq_getLast?, List.head?_eq_some_head hne,
      List.getLast?_eq_some_getLast hne]
    exact ⟨rfl, rfl⟩
  | _ => cases h

/-- The links of a table fit together while it comes about. -/
theorem Built.forest {builder : Builder} {places : List (Node × Nat)} (h : Built builder places) :
    TokenTree.Forest ⟨builder.entries, places.map Prod.snd⟩ := by
  induction h with
  | empty => exact .empty
  | @leaf builder places kind text _ hkind ih =>
    rw [List.map_append]
    refine ih.push_leaf rfl rfl ?_
    cases kind with
    | comparison => cases hkind
    | _ => exact hkind
  | @group builder before inside after kind _ htwo _ ih =>
    simp only [List.map_append] at ih
    rw [List.map_append, List.map_cons]
    refine ih.push_group rfl rfl ⟨?_, ?_, ?_⟩
    · intro child hmem
      exact ih.lt_of_mem_roots child (List.mem_append_right _ (List.mem_append_left _ hmem))
    · intro _
      rwa [List.length_map]
    · intro left operator right hkind
      have hne : inside.map Prod.snd ≠ [] :=
        List.ne_nil_of_length_pos (by rw [List.length_map]; omega)
      exact operands_groupKind hne hkind

private theorem resolve_earlier? {position : Nat} {kind : Kind Nat}
    (h : ∀ left operator right, kind = .comparison left operator right →
      left < position ∧ right < position) : kind.resolve (earlier? position) = kind := by
  cases kind with
  | comparison left operator right =>
    obtain ⟨hleft, hright⟩ := h left operator right rfl
    simp only [Kind.resolve, earlier?, if_pos hleft, if_pos hright]
  | _ => rfl

private theorem settle_eq_self {size position : Nat} {entry : Entry} (h : entry.Sound position)
    (hparent : ∀ parent, entry.parent = some parent → position < parent ∧ parent < size) :
    settle size position entry = entry := by
  have hkind : entry.kind.resolve (earlier? position) = entry.kind := by
    apply resolve_earlier?
    intro left operator right hkind
    obtain ⟨hleft, hright⟩ := h.operands left operator right hkind
    exact ⟨h.lt left (List.mem_of_head? hleft), h.lt right (List.mem_of_getLast? hright)⟩
  have hkept : entry.parent.filter (fun parent ↦ position < parent && parent < size) =
      entry.parent := by
    cases hcase : entry.parent with
    | none => rfl
    | some parent =>
      obtain ⟨hafter, hbound⟩ := hparent parent hcase
      simp [hafter, hbound]
  have hchildren : entry.children.filter (· < position) = entry.children :=
    List.filter_eq_self.2 fun child hmem ↦ decide_eq_true (h.lt child hmem)
  rw [settle, hkind, hkept, hchildren]

/-- Nothing is dropped from a table whose links fit together. -/
theorem finish_eq {builder : Builder} {roots : List Nat}
    (h : TokenTree.Forest ⟨builder.entries, roots⟩) :
    builder.finish roots = ⟨builder.entries, roots⟩ := by
  have hroots : roots.filter (· < builder.next) = roots :=
    List.filter_eq_self.2 fun root hmem ↦ decide_eq_true (h.lt_of_mem_roots root hmem)
  have hentries : builder.entries.mapIdx (settle builder.next) = builder.entries := by
    apply Array.ext_getElem?
    intro position
    rw [Array.getElem?_mapIdx]
    cases hentry : builder.entries[position]? with
    | none => rfl
    | some entry =>
      have hsettle : settle builder.next position entry = entry := by
        apply settle_eq_self (h.sound position entry hentry)
        intro parent hparent
        apply h.lt_of_mem_childrenAt
        rw [← h.parent_iff, parentAt?, hentry]
        exact hparent
      rw [Option.map_some, hsettle]
  rw [finish, hroots, hentries]

/-- A table has an entry for each node. -/
theorem Built.size_eq {builder : Builder} {places : List (Node × Nat)} (h : Built builder places) :
    builder.entries.size = Node.sizeOfAll (places.map Prod.fst) := by
  induction h with
  | empty => rfl
  | leaf _ _ ih =>
    rw [addLeaf, Builder.leaf, Array.size_push, ih, List.map_append, Node.sizeOfAll_append]
    rfl
  | group _ _ _ ih =>
    rw [addGroup, Builder.group, Array.size_push, size_adopt, ih]
    simp only [List.map_append, List.map_cons, Node.sizeOfAll_append, Node.sizeOfAll, Node.group,
      Node.size]
    omega

end Builder

/-! ### Trees and tokens -/

namespace Node

private theorem sizeOfAll_le_of_forall {nodes : List Node}
    (h : ∀ node ∈ nodes, node.size + 1 ≤ 2 * node.leaves.length) :
    sizeOfAll nodes + nodes.length ≤ 2 * (leavesOfAll nodes).length := by
  induction nodes with
  | nil => exact Nat.zero_le _
  | cons node rest ih =>
    rw [List.forall_mem_cons] at h
    have hrest := ih h.2
    simp only [sizeOfAll, leavesOfAll, List.length_append, List.length_cons]
    omega

private theorem Formed.size_lt {node : Node} (h : Formed node) :
    node.size + 1 ≤ 2 * node.leaves.length := by
  induction h with
  | leaf => exact Nat.le_refl _
  | @group kind children two _ _ ih =>
    have hchildren := sizeOfAll_le_of_forall ih
    rw [leaves_group (List.ne_nil_of_length_pos (Nat.zero_lt_of_lt two)), Node.group, size]
    omega

/-- Nodes of leaves and groups have at most two nodes for each leaf. -/
theorem sizeOfAll_le {nodes : List Node} (h : ∀ node ∈ nodes, Formed node) :
    sizeOfAll nodes ≤ 2 * (leavesOfAll nodes).length := by
  have hall := sizeOfAll_le_of_forall fun node hmem ↦ (h node hmem).size_lt
  omega

end Node

private theorem Token.Runs.length_le {tokens : List Token} {runs : List (List Token)}
    (h : Runs tokens runs) : runs.length ≤ tokens.length := by
  induction h with
  | nil => exact Nat.le_refl _
  | skip _ ih => exact Nat.le_succ_of_le ih
  | run hne _ _ ih =>
    have hpositive := List.length_pos_iff.2 hne
    rw [List.length_cons, List.length_append]
    omega

/-- A statement has no more leaves than tokens. -/
theorem Grouping.Conserve.length_leavesOfAll_le {tokens : List Token} {nodes : List Node}
    (h : Conserve tokens nodes) : (Node.leavesOfAll nodes).length ≤ tokens.length := by
  obtain ⟨runs, hruns, htexts⟩ := h
  have hlength := congrArg List.length htexts
  rw [List.length_map, List.length_map] at hlength
  rw [hlength]
  exact hruns.length_le

/-- Every stored statement is an ordered forest: each position is a root or the child of one group,
parents and children name each other, a group comes after its children, two or more, and a
comparison has its first and last child as operands. There are at most two entries for a token. -/
theorem forest_groupStatement (tokens : List Token) :
    (groupStatement tokens).Forest ∧ (groupStatement tokens).entries.size ≤ 2 * tokens.length := by
  obtain ⟨builder, places, hbuilt, hnodes, htree⟩ := Grouping.exists_built_groupStatement tokens
  have hforest := hbuilt.forest
  have hsize := Node.sizeOfAll_le (Grouping.formed_statementNodes tokens)
  have hleaves := (Grouping.conserve_statementNodes tokens).length_leavesOfAll_le
  rw [htree, Builder.finish_eq hforest]
  refine ⟨hforest, ?_⟩
  rw [hbuilt.size_eq, hnodes]
  omega

end SqlFootprint
