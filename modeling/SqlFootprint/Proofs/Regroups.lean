import SqlFootprint.Proofs.Folds

/-!
# What regrouping may do

`Regroups before after` says that `after` is `before` with runs of two nodes or more put into
groups that are no calls. Aliases, comparisons and lists are grouped in this way
(`regroups_groupAliases`, `regroups_groupComparisons`, `regroups_groupLists`), so whatever such
steps keep is kept by `regroup`, as that a level is made of leaves and of groups over them.
-/

namespace SqlFootprint

/-- The kinds of nodes without children; a name among them has no alias. -/
def Kind.isPlain {α : Type} : Kind α → Bool
  | keyword | punctuation | wildcard | blank | literal => true
  | identifier named => named.aliasName.isNone
  | identifierList | function _ _ | comparison _ _ _ => false

/-- The kind of calls without an alias. -/
def Kind.isCall {α : Type} : Kind α → Bool
  | function _ none => true
  | _ => false

namespace Node

mutual

/-- The nodes without children at a node and below, from left to right. -/
def leaves : Node → List Node
  | mk kind text [] => [mk kind text []]
  | mk _ _ (child :: rest) => leavesOfAll (child :: rest)

/-- The nodes without children in a list and below, from left to right. -/
def leavesOfAll : List Node → List Node
  | [] => []
  | node :: rest => node.leaves ++ leavesOfAll rest

end

/-- The operands of a comparison over the given children are the first and the last of them. -/
def Spans (children : List Node) : Kind Node → Prop
  | .comparison left _ right => children.head? = some left ∧ children.getLast? = some right
  | _ => True

/-- A leaf is no comparison. -/
theorem spans_of_isPlain {kind : Kind Node} (h : kind.isPlain = true) (children : List Node) :
    Spans children kind := by
  cases kind with
  | comparison => cases h
  | _ => trivial

/-- A node is a leaf, or a group of two nodes or more that are made in the same way. -/
inductive Formed : Node → Prop
  | leaf {kind : Kind Node} {text : String} (spans : Spans [] kind) : Formed (.leaf kind text)
  | group {kind : Kind Node} {children : List Node} (two : 2 ≤ children.length)
    (spans : Spans children kind) (formed : ∀ child ∈ children, Formed child) :
    Formed (.group kind children)

/-- The operands of a comparison are among its children. -/
theorem Formed.spans {node : Node} (h : Formed node) : Spans node.children node.kind := by
  cases h with
  | leaf spans => exact spans
  | group _ spans _ => exact spans

/-- A group has the texts of its children in a row. -/
theorem Formed.text_eq {node : Node} (h : Formed node) (hne : node.children ≠ []) :
    node.text = textOf node.children := by
  cases h with
  | leaf => exact absurd rfl hne
  | group => rfl

private theorem Formed.of_mem {node child : Node} (h : Formed node) (hmem : child ∈ node.children) :
    Formed child := by
  cases h with
  | leaf => cases hmem
  | group _ _ formed => exact formed child hmem

mutual

/-- A node and all nodes below it are made in the same way. -/
theorem Formed.of_mem_preorder {node : Node} (h : Formed node) (depth : Nat)
    {place : Nat × Node} (hmem : place ∈ node.preorder depth) : Formed place.2 := by
  match node with
  | .mk kind text children =>
    rcases List.mem_cons.1 hmem with rfl | hmem
    · exact h
    · exact formed_of_mem_preorderOfAll (fun child hchild ↦ h.of_mem hchild) (depth + 1) hmem

/-- Nodes and all nodes below them are made in the same way. -/
theorem formed_of_mem_preorderOfAll {nodes : List Node} (h : ∀ node ∈ nodes, Formed node)
    (depth : Nat) {place : Nat × Node} (hmem : place ∈ preorderOfAll depth nodes) :
    Formed place.2 := by
  match nodes with
  | [] => cases hmem
  | node :: rest =>
    obtain ⟨hnode, hrest⟩ := List.forall_mem_cons.1 h
    rcases List.mem_append.1 hmem with hmem | hmem
    · exact hnode.of_mem_preorder depth hmem
    · exact formed_of_mem_preorderOfAll hrest depth hmem

end

/-- A leaf is its only leaf. -/
@[simp] theorem leaves_leaf (kind : Kind Node) (text : String) :
    (leaf kind text).leaves = [leaf kind text] := rfl

/-- The leaves of a group are those of its children. -/
theorem leaves_group {kind : Kind Node} {children : List Node} (h : children ≠ []) :
    (group kind children).leaves = leavesOfAll children := by
  cases children with
  | nil => exact absurd rfl h
  | cons child rest => rfl

/-- The texts of two lists in a row. -/
@[simp] theorem textOf_append (first second : List Node) :
    textOf (first ++ second) = textOf first ++ textOf second := by
  simp only [textOf, List.map_append, String.join_append]

/-- The text of nodes is that of the first and then that of the others. -/
@[simp] theorem textOf_cons (node : Node) (rest : List Node) :
    textOf (node :: rest) = node.text ++ textOf rest := by
  simp only [textOf, List.map_cons, String.join_cons]

/-- No nodes have no text. -/
@[simp] theorem textOf_nil : textOf [] = "" := rfl

private theorem textOf_leavesOfAll_of_forall {nodes : List Node}
    (h : ∀ node ∈ nodes, textOf node.leaves = node.text) :
    textOf (leavesOfAll nodes) = textOf nodes := by
  induction nodes with
  | nil => rfl
  | cons node rest ih =>
    have hnode := h node List.mem_cons_self
    have hrest := ih fun other hmem ↦ h other (List.mem_cons_of_mem _ hmem)
    simp only [leavesOfAll, textOf_append, textOf_cons, hnode, hrest]

private theorem Formed.textOf_leaves {node : Node} (h : Formed node) :
    textOf node.leaves = node.text := by
  induction h with
  | leaf => simp
  | group two spans formed ih =>
    rw [leaves_group (List.ne_nil_of_length_pos (Nat.zero_lt_of_lt two)), text_group]
    exact textOf_leavesOfAll_of_forall ih

/-- Nodes made of leaves and groups have the text of their leaves. -/
theorem textOf_leavesOfAll {nodes : List Node} (h : ∀ node ∈ nodes, Formed node) :
    textOf (leavesOfAll nodes) = textOf nodes :=
  textOf_leavesOfAll_of_forall fun node hmem ↦ (h node hmem).textOf_leaves

end Node

namespace Grouping

/-- Runs of nodes of the first list are put into groups in the second; no group is a call. -/
inductive Regroups : List Node → List Node → Prop
  | nil : Regroups [] []
  | keep {node : Node} {before after : List Node} :
    Regroups before after → Regroups (node :: before) (node :: after)
  | fold {kind : Kind Node} {children before after : List Node} :
    2 ≤ children.length → Node.Spans children kind → kind.isCall = false →
    Regroups before after → Regroups (children ++ before) (.group kind children :: after)

private theorem Regroups.formed {before after : List Node} (h : Regroups before after)
    (hbefore : ∀ node ∈ before, Node.Formed node) : ∀ node ∈ after, Node.Formed node := by
  induction h with
  | nil => exact hbefore
  | keep _ ih =>
    simp only [List.forall_mem_cons] at hbefore ⊢
    exact ⟨hbefore.1, ih hbefore.2⟩
  | fold two spans _ _ ih =>
    simp only [List.forall_mem_append, List.forall_mem_cons] at hbefore ⊢
    exact ⟨.group two spans hbefore.1, ih hbefore.2⟩

/-- A step that takes nodes after the first puts runs of nodes into groups. -/
theorem Folds.regroups {step : Step} {pass : List Node → List Node} (h : Folds step pass)
    (hspans : ∀ {node rest kind count}, step node rest = some (kind, count) →
      0 < count ∧ Node.Spans (node :: rest.take count) kind)
    (hcall : ∀ {node rest kind count}, step node rest = some (kind, count) → kind.isCall = false)
    (nodes : List Node) : Regroups nodes (pass nodes) := by
  induction nodes using h.induction with
  | nil =>
    rw [h.nil]
    exact .nil
  | keep hstep ih =>
    rw [h.keep hstep]
    exact .keep ih
  | @fold node rest kind count hstep ih =>
    obtain ⟨hpositive, hkind⟩ := hspans hstep
    have hbound := h.bound hstep
    have htwo : 2 ≤ (node :: rest.take count).length := by
      rw [List.length_cons, List.length_take]
      omega
    have hfold := Regroups.fold htwo hkind (hcall hstep) ih
    rw [h.fold hstep]
    rwa [List.cons_append, List.take_append_drop] at hfold

/-! ### The three steps -/

private theorem spans_of_isOperand {kind : Kind Node} {children : List Node}
    (h : isOperand (.group kind children) = true) : Node.Spans children kind := by
  cases kind with
  | comparison => cases h
  | _ => trivial

/-- A group with an alias is no comparison. -/
theorem spans_aliasStep {node : Node} {rest : List Node} {kind : Kind Node} {count : Nat}
    (hstep : aliasStep node rest = some (kind, count)) :
    0 < count ∧ Node.Spans (node :: rest.take count) kind := by
  obtain ⟨_, _, -, halias, -⟩ := aliasStep_eq_some hstep
  exact ⟨(aliasAfter?_count halias).1, spans_of_isOperand (isOperand_of_aliasStep hstep _)⟩

/-- A comparison goes from its left operand to its right one. -/
theorem spans_comparisonStep {left : Node} {rest : List Node} {kind : Kind Node} {count : Nat}
    (hstep : comparisonStep left rest = some (kind, count)) :
    0 < count ∧ Node.Spans (left :: rest.take count) kind := by
  obtain ⟨operator, right, -, hafter, rfl⟩ := comparisonStep_eq_some hstep
  obtain ⟨hpositive, -, between, hbetween⟩ := comparisonAfter?_count hafter
  rw [hbetween]
  exact ⟨hpositive, rfl, by rw [← List.cons_append, List.getLast?_concat]⟩

/-- A list is no comparison. -/
theorem spans_listStep {node : Node} {rest : List Node} {kind : Kind Node} {count : Nat}
    (hstep : listStep node rest = some (kind, count)) :
    0 < count ∧ Node.Spans (node :: rest.take count) kind := by
  obtain ⟨-, hspan, rfl, rfl⟩ := listStep_eq_some hstep
  exact ⟨hspan, trivial⟩

private theorem isCall_of_aliasStep {node : Node} {rest : List Node} {kind : Kind Node}
    {count : Nat}
    (h : aliasStep node rest = some (kind, count)) : kind.isCall = false := by
  obtain ⟨kindOf, aliasName, hkind, -, rfl⟩ := aliasStep_eq_some h
  unfold aliasedKind? at hkind
  split at hkind
  · split at hkind
    · cases hkind
    · cases hkind
      rfl
  · cases hkind
    rfl
  · cases hkind
    rfl
  · cases hkind

/-- Folding aliases puts runs of nodes into groups. -/
theorem regroups_groupAliases (nodes : List Node) : Regroups nodes (groupAliases nodes) :=
  folds_groupAliases.regroups spans_aliasStep isCall_of_aliasStep nodes

/-- Grouping comparisons puts runs of nodes into groups. -/
theorem regroups_groupComparisons (nodes : List Node) :
    Regroups nodes (groupComparisons nodes) := by
  refine folds_groupComparisons.regroups spans_comparisonStep ?_ nodes
  intro left rest kind count hstep
  obtain ⟨operator, right, -, -, rfl⟩ := comparisonStep_eq_some hstep
  rfl

/-- Grouping lists puts runs of nodes into groups. -/
theorem regroups_groupLists (nodes : List Node) : Regroups nodes (groupLists nodes) := by
  refine folds_groupLists.regroups spans_listStep ?_ nodes
  intro node rest kind count hstep
  obtain ⟨-, -, rfl, -⟩ := listStep_eq_some hstep
  rfl

/-! ### A level regrouped -/

/-- A level of leaves and groups stays one. -/
theorem formed_regroup {nodes : List Node} (h : ∀ node ∈ nodes, Node.Formed node) :
    ∀ node ∈ regroup nodes, Node.Formed node :=
  (regroups_groupLists _).formed
    ((regroups_groupComparisons _).formed ((regroups_groupAliases _).formed h))

end Grouping

end SqlFootprint
