import Mathlib.Data.List.Forall2
import SqlFootprint.Proofs.Programs

/-!
# Ordered trees

The entries of an `Ordered` tree name earlier ones only, as those of every finished tree do. Such a
tree holds a node at each position, made of those at the positions that its entry names, and
`Ordered.induction` goes from what entries name to the entries.
-/

namespace SqlFootprint

open List (Forall₂)

namespace TokenTree

/-- Each entry names earlier ones only, and each root is there. -/
structure Ordered (tree : TokenTree) : Prop where
  lt : ∀ (position : Nat) (entry : Entry), tree.entries[position]? = some entry →
    ∀ named ∈ entry.children ++ entry.kind.operands, named < position
  root_lt : ∀ root ∈ tree.roots, root < tree.entries.size

/-- A tree in normal form is ordered. -/
theorem NormalForm.ordered {calls : List Builder.Call} {roots : List Nat} {tree : TokenTree}
    (h : NormalForm calls roots tree) : tree.Ordered where
  lt := by
    intro position entry hentry named hnamed
    have hbound := (Array.getElem?_eq_some_iff.1 hentry).1
    rw [h.size] at hbound
    obtain ⟨left, hleft, hleaves⟩ := h.entry position _ (List.getElem?_eq_getElem hbound)
    obtain rfl : left = entry := Option.some_inj.1 (hleft.symm.trans hentry)
    rcases List.mem_append.1 hnamed with hchild | hoperand
    · exact hleaves.child_lt named hchild
    · exact hleaves.operand_lt named hoperand
  root_lt := h.root_lt

/-- The tree holds a node at a position. -/
def Holds (tree : TokenTree) (position : Nat) (node : Node) : Prop :=
  tree.allNodes[position]? = some node

/-! ### The nodes of an ordered tree -/

private theorem getElem?_nodesFrom {earlier : Array Node} {position : Nat}
    (h : position < earlier.size) (entries : List Entry) :
    (nodesFrom earlier entries)[position]? = earlier[position]? := by
  induction entries generalizing earlier with
  | nil => rfl
  | cons entry rest ih =>
    have hpush : position < (earlier.push (nodeOf earlier entry)).size := by
      rw [Array.size_push]
      omega
    rw [nodesFrom, List.foldl_cons, ← nodesFrom, ih hpush, Array.getElem?_push,
      if_neg (Nat.ne_of_lt h)]

private theorem nodeOf_congr {first second : Array Node} {entry : Entry}
    (h : ∀ named ∈ entry.children ++ entry.kind.operands, first[named]? = second[named]?) :
    nodeOf first entry = nodeOf second entry := by
  have hchildren : entry.children.filterMap (first[·]?) =
      entry.children.filterMap (second[·]?) :=
    List.filterMap_congr fun child hmem ↦ h child (List.mem_append_left _ hmem)
  have hkind : entry.kind.resolve (first[·]?) = entry.kind.resolve (second[·]?) := by
    cases hcase : entry.kind with
    | comparison left operator right =>
      have hleft := h left (List.mem_append_right _ (by simp [hcase, Kind.operands]))
      have hright := h right (List.mem_append_right _ (by simp [hcase, Kind.operands]))
      simp only [Kind.resolve, hleft, hright]
    | _ => rfl
  rw [nodeOf, nodeOf, hkind, hchildren]

/-- There are as many nodes as entries. -/
theorem size_allNodes (tree : TokenTree) : tree.allNodes.size = tree.entries.size := by
  rw [allNodes_eq, size_nodesFrom]
  simp

/-- Positions that hold nodes are below the number of entries. -/
theorem lt_of_holds {tree : TokenTree} {positions : List Nat} {nodes : List Node}
    (hnodes : Forall₂ tree.Holds positions nodes) :
    ∀ position ∈ positions, position < tree.entries.size := by
  intro position hmem
  obtain ⟨i, hi, rfl⟩ := List.mem_iff_getElem.1 hmem
  have hnode := hnodes.get hi (hnodes.length_eq ▸ hi)
  rw [← size_allNodes]
  exact (Array.getElem?_eq_some_iff.1 hnode).1

namespace Ordered

variable {tree : TokenTree}

/-- Each entry makes its node of those that it names. -/
theorem holds_nodeOf (h : tree.Ordered) {position : Nat} {entry : Entry}
    (hentry : tree.entries[position]? = some entry) :
    tree.Holds position (nodeOf tree.allNodes entry) := by
  rw [← Array.getElem?_toList] at hentry
  obtain ⟨hbound, hget⟩ := List.getElem?_eq_some_iff.1 hentry
  have hsplit : tree.entries.toList = tree.entries.toList.take position ++
      entry :: tree.entries.toList.drop (position + 1) := by
    rw [← hget, List.getElem_cons_drop, List.take_append_drop]
  let before := nodesFrom #[] (tree.entries.toList.take position)
  have hsize : before.size = position := by
    rw [size_nodesFrom, List.length_take, Nat.min_eq_left (Nat.le_of_lt hbound)]
    simp
  have hall : tree.allNodes = nodesFrom (before.push (nodeOf before entry))
      (tree.entries.toList.drop (position + 1)) := by
    rw [allNodes_eq, hsplit, nodesFrom, List.foldl_append, List.foldl_cons]
    simp only [← hsplit]
    rfl
  have hkept : ∀ i ≤ position,
      tree.allNodes[i]? = (before.push (nodeOf before entry))[i]? := fun i hi ↦ by
    rw [hall, getElem?_nodesFrom]
    rw [Array.size_push]
    omega
  have hsame : nodeOf tree.allNodes entry = nodeOf before entry := by
    apply nodeOf_congr
    intro named hnamed
    have hlt := h.lt position entry (by rw [← Array.getElem?_toList]; exact hentry) named hnamed
    rw [hkept named (Nat.le_of_lt hlt), Array.getElem?_push, if_neg (by omega)]
  rw [Holds, hkept position (Nat.le_refl _), hsame, ← hsize, Array.getElem?_push_size]

/-- A node that is held is that of the entry at its position. -/
theorem exists_entry (h : tree.Ordered) {position : Nat} {node : Node}
    (hnode : tree.Holds position node) :
    ∃ entry, tree.entries[position]? = some entry ∧ node = nodeOf tree.allNodes entry := by
  have hbound := (Array.getElem?_eq_some_iff.1 hnode).1
  rw [size_allNodes] at hbound
  have hentry := Array.getElem?_eq_getElem hbound
  exact ⟨_, hentry, Option.some_inj.1 (hnode.symm.trans (h.holds_nodeOf hentry))⟩

/-- Positions that are there hold the nodes that are found at them. -/
theorem forall₂_holds {positions : List Nat}
    (h : ∀ position ∈ positions, position < tree.entries.size) :
    Forall₂ tree.Holds positions (positions.filterMap (tree.allNodes[·]?)) := by
  induction positions with
  | nil => exact .nil
  | cons position rest ih =>
    rw [List.forall_mem_cons] at h
    have hbound := h.1
    rw [← size_allNodes] at hbound
    have hnode := Array.getElem?_eq_getElem hbound
    rw [List.filterMap_cons_some hnode]
    exact .cons hnode (ih h.2)

/-- What an entry names is there. -/
theorem named_lt (h : tree.Ordered) {position : Nat} {entry : Entry}
    (hentry : tree.entries[position]? = some entry) {named : Nat}
    (hnamed : named ∈ entry.children ++ entry.kind.operands) : named < tree.entries.size :=
  Nat.lt_trans (h.lt position entry hentry named hnamed) (Array.getElem?_eq_some_iff.1 hentry).1

/-- The children of an entry hold those of its node. -/
theorem holds_children (h : tree.Ordered) {position : Nat} {entry : Entry}
    (hentry : tree.entries[position]? = some entry) :
    Forall₂ tree.Holds entry.children (nodeOf tree.allNodes entry).children :=
  forall₂_holds fun _ hmem ↦ h.named_lt hentry (List.mem_append_left _ hmem)

/-- The operands of a comparison hold those of its node. -/
theorem holds_operands (h : tree.Ordered) {position : Nat} {entry : Entry}
    (hentry : tree.entries[position]? = some entry) {left right : Nat} {operator : String}
    (hkind : entry.kind = .comparison left operator right) :
    ∃ leftNode rightNode, tree.Holds left leftNode ∧ tree.Holds right rightNode ∧
      (nodeOf tree.allNodes entry).kind = .comparison leftNode operator rightNode := by
  have hthere : ∀ operand ∈ entry.kind.operands, ∃ node, tree.Holds operand node := by
    intro operand hmem
    have hlt := h.named_lt hentry (List.mem_append_right entry.children hmem)
    exact ⟨_, h.holds_nodeOf (Array.getElem?_eq_getElem hlt)⟩
  simp only [hkind, Kind.operands, List.forall_mem_cons] at hthere
  obtain ⟨⟨leftNode, hleft⟩, ⟨rightNode, hright⟩, -⟩ := hthere
  refine ⟨leftNode, rightNode, hleft, hright, ?_⟩
  rw [Holds] at hleft hright
  simp only [nodeOf, Node.kind, hkind, Kind.resolve, hleft, hright]

/-- The roots hold the nodes of the statement. -/
theorem holds_roots (h : tree.Ordered) : Forall₂ tree.Holds tree.roots tree.nodes :=
  forall₂_holds h.root_lt

/-- What holds on any level of no positions, and on the next level of positions after one where it
holds of all earlier ones on the level and of those that follow, holds of all positions below a
level, and of their nodes. -/
theorem induction (h : tree.Ordered) {motive : Nat → List Nat → List Node → Prop}
    (nil : ∀ levels, motive levels [] [])
    (cons : ∀ (levels position : Nat) (entry : Entry) (positions : List Nat) (nodes : List Node),
      tree.entries[position]? = some entry →
      (∀ earlier held, Forall₂ tree.Holds earlier held → (∀ i ∈ earlier, i < position) →
        motive levels earlier held) →
      motive (levels + 1) positions nodes →
      motive (levels + 1) (position :: positions) (nodeOf tree.allNodes entry :: nodes))
    {levels : Nat} {positions : List Nat} {nodes : List Node}
    (hnodes : Forall₂ tree.Holds positions nodes) (hlevels : ∀ i ∈ positions, i < levels) :
    motive levels positions nodes := by
  -- On the levels, which those that an entry names are further below, then on their list.
  induction levels generalizing positions nodes with
  | zero =>
    cases hnodes with
    | nil => exact nil 0
    | cons _ _ => exact absurd (hlevels _ (List.mem_cons_self ..)) (Nat.not_lt_zero _)
  | succ levels ih =>
    induction hnodes with
    | nil => exact nil _
    | cons hnode _ hrest =>
      obtain ⟨entry, hentry, rfl⟩ := h.exists_entry hnode
      rw [List.forall_mem_cons] at hlevels
      refine cons _ _ entry _ _ hentry (fun earlier held hheld hbefore ↦ ?_) (hrest hlevels.2)
      exact ih hheld fun i hmem ↦ Nat.lt_of_lt_of_le (hbefore i hmem) (Nat.le_of_lt_succ hlevels.1)

end Ordered

end TokenTree

end SqlFootprint
