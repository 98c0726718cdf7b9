import SqlFootprint.Proofs.Folds

/-!
# Nodes that no group crosses

A node that no group reaches or crosses cuts a level in two that are grouped on their own
(`regroup_append_cons`); keywords other than `AS` and most marks are of this kind.
-/

namespace SqlFootprint

namespace Node

/-- Before a node that is no blank, the front of a sequence is found there or is that node. -/
theorem significant?_append_cons (before after : List Node) {node : Node}
    (hblank : node.isBlank = false) :
    significant? (before ++ node :: after) =
      (significant? before).or (some (node, before.length + 1)) := by
  induction before with
  | nil => simp [significant?, hblank]
  | cons first before ih =>
    simp only [List.cons_append, significant?, ih]
    split
    · cases significant? before with
      | none => rfl
      | some found => rfl
    · rfl

/-- Blanks alone have no front. -/
theorem significant?_eq_none_iff {nodes : List Node} :
    significant? nodes = none ↔ ∀ node ∈ nodes, node.isBlank = true := by
  induction nodes with
  | nil => simp [significant?]
  | cons node rest ih =>
    rw [List.forall_mem_cons, significant?]
    by_cases hblank : node.isBlank = true
    · rw [if_pos hblank, Option.map_eq_none_iff, ih]
      exact (and_iff_right hblank).symm
    · rw [if_neg hblank]
      exact ⟨fun hnone ↦ absurd hnone (Option.some_ne_none _), fun h ↦ absurd h.1 hblank⟩

end Node

namespace Grouping

/-- No group starts at the node, and none that starts before it reaches it. -/
structure Bars (step : Step) (node : Node) : Prop where
  keeps : ∀ rest, step node rest = none
  stops : ∀ first before after, step first (before ++ node :: after) = step first before

/-- What stands before and after a node that bars is grouped on its own. -/
theorem Folds.append_cons {step : Step} {pass : List Node → List Node} (h : Folds step pass)
    {node : Node} (hbars : Bars step node) (before after : List Node) :
    pass (before ++ node :: after) = pass before ++ node :: pass after := by
  induction before using h.induction with
  | nil => rw [List.nil_append, h.keep (hbars.keeps _), h.nil, List.nil_append]
  | @keep first before hstep ih =>
    have hstops := hbars.stops first before after
    rw [hstep] at hstops
    rw [List.cons_append, h.keep hstep, h.keep hstops, ih]
    rfl
  | @fold first before kind count hstep ih =>
    have hstops := hbars.stops first before after
    have hcount := h.bound hstep
    rw [hstep] at hstops
    rw [List.cons_append, h.fold hstep, h.fold hstops, List.take_append_of_le_length hcount,
      List.drop_append_of_le_length hcount, ih]
    rfl

/-! ### Nodes that bar -/

/-- No alias reaches or crosses the node, and it takes none. -/
theorem bars_aliasStep {node : Node} (hblank : node.isBlank = false)
    (has : node.isKeyword "AS" = false) (hbare : bareName? node = none)
    (hkind : aliasedKind? node = none) : Bars aliasStep node where
  keeps rest := by rw [aliasStep, hkind]; rfl
  stops first before after := by
    have halias : aliasAfter? (before ++ node :: after) = aliasAfter? before := by
      unfold aliasAfter?
      rw [Node.significant?_append_cons before after hblank]
      cases hbefore : Node.significant? before with
      | none => simp [has, hbare]
      | some found =>
        rcases found with ⟨front, count⟩
        have hcount := (Node.significant?_count hbefore).2
        simp only [Option.or_some, Option.getD_some]
        rw [List.drop_append_of_le_length hcount, Node.significant?_append_cons _ after hblank]
        cases Node.significant? (before.drop count) with
        | none => simp [hbare]
        | some found => rfl
    rw [aliasStep, aliasStep, halias]

/-- The node is an operator that compares. -/
def isComparisonOperator (node : Node) : Bool :=
  node.isAnyPunctuation && comparisonOperators.contains node.text

/-- No comparison reaches or crosses the node, and it is no operand. -/
theorem bars_comparisonStep {node : Node} (hblank : node.isBlank = false)
    (hoperand : isOperand node = false) (hoperator : isComparisonOperator node = false) :
    Bars comparisonStep node where
  keeps rest := by rw [comparisonStep, hoperand]; rfl
  stops first before after := by
    have hcomparison : comparisonAfter? (before ++ node :: after) = comparisonAfter? before := by
      unfold comparisonAfter?
      rw [Node.significant?_append_cons before after hblank]
      cases hbefore : Node.significant? before with
      | none =>
        rw [isComparisonOperator] at hoperator
        simp only [Option.none_or, hoperator]
        rfl
      | some found =>
        rcases found with ⟨front, count⟩
        have hcount := (Node.significant?_count hbefore).2
        simp only [Option.or_some, Option.getD_some]
        rw [List.drop_append_of_le_length hcount, Node.significant?_append_cons _ after hblank]
        cases Node.significant? (before.drop count) with
        | none => simp [hoperand]
        | some found => rfl
    rw [comparisonStep, comparisonStep, hcomparison]

private theorem listSpan_append_cons {node : Node} (hblank : node.isBlank = false)
    (hitem : isListItem node = false) (hcomma : node.isPunctuation "," = false)
    (expectItem : Bool) (before after : List Node) :
    listSpan expectItem (before ++ node :: after) = listSpan expectItem before := by
  induction before generalizing expectItem with
  | nil => simp [listSpan, hblank, hitem, hcomma]
  | cons first before ih => simp only [List.cons_append, listSpan, ih]

/-- No list reaches or crosses the node, and it is no item. -/
theorem bars_listStep {node : Node} (hblank : node.isBlank = false)
    (hitem : isListItem node = false) (hcomma : node.isPunctuation "," = false) :
    Bars listStep node where
  keeps rest := by rw [listStep, if_neg (by simp [hitem])]
  stops first before after := by
    rw [listStep, listStep, listSpan_append_cons hblank hitem hcomma]

/-- No group of any kind reaches or crosses the node. -/
structure IsBarrier (node : Node) : Prop where
  aliases : Bars aliasStep node
  comparisons : Bars comparisonStep node
  lists : Bars listStep node

/-- A keyword other than `AS` is a barrier. -/
theorem isBarrier_of_isAnyKeyword {node : Node} (h : node.isAnyKeyword = true)
    (has : node.isKeyword "AS" = false) : IsBarrier node := by
  cases node with
  | mk kind text children =>
    cases kind with
    | keyword =>
      exact ⟨bars_aliasStep rfl has rfl rfl, bars_comparisonStep rfl rfl rfl,
        bars_listStep rfl rfl rfl⟩
    | _ => cases h

/-- A keyword other than `AS` is a barrier. -/
theorem isBarrier_keyword {text : String} (h : Text.sameWord text "AS" = false) :
    IsBarrier (.leaf .keyword text) :=
  isBarrier_of_isAnyKeyword rfl (by simp [Node.isKeyword, Node.isAnyKeyword, h])

/-- A mark is a barrier to aliases. -/
theorem bars_aliasStep_punctuation (text : String) : Bars aliasStep (.punctuation text) :=
  bars_aliasStep rfl rfl rfl rfl

/-- A mark other than a comma and the operators that compare is a barrier. -/
theorem isBarrier_of_isPunctuation {node : Node} {text : String}
    (h : node.isPunctuation text = true) (hcomma : text ≠ ",")
    (hoperator : text ∉ comparisonOperators) : IsBarrier node := by
  cases node with
  | mk kind shown children =>
    cases kind with
    | punctuation =>
      obtain rfl : shown = text := by
        simpa [Node.isPunctuation, Node.isAnyPunctuation, Node.kind, Node.text] using h
      refine ⟨bars_aliasStep rfl rfl rfl rfl, bars_comparisonStep rfl rfl ?_,
        bars_listStep rfl rfl ?_⟩
      · simpa [isComparisonOperator, Node.isAnyPunctuation, Node.kind, Node.text] using hoperator
      · simpa [Node.isPunctuation, Node.isAnyPunctuation, Node.kind, Node.text] using hcomma
    | _ => cases h

/-- A mark other than a comma and the operators that compare is a barrier. -/
theorem isBarrier_punctuation {text : String} (hcomma : text ≠ ",")
    (hoperator : text ∉ comparisonOperators) : IsBarrier (.punctuation text) :=
  isBarrier_of_isPunctuation (by simp [Node.isPunctuation, Node.isAnyPunctuation, Node.punctuation])
    hcomma hoperator

/-- What stands before and after a barrier is grouped on its own. -/
theorem regroup_append_cons {node : Node} (h : IsBarrier node) (before after : List Node) :
    regroup (before ++ node :: after) = regroup before ++ node :: regroup after := by
  rw [regroup, folds_groupAliases.append_cons h.aliases,
    folds_groupComparisons.append_cons h.comparisons, folds_groupLists.append_cons h.lists]
  rfl

/-- No group of a step is one of certain nodes, has one of them or crosses one. -/
structure Spares (step : Step) (p : Node → Bool) : Prop where
  bars : ∀ node, p node = true → Bars step node
  groups : ∀ {node rest kind count}, step node rest = some (kind, count) →
    ∀ children, p (.group kind children) = false

/-- No group has one of the nodes that the step spares. -/
theorem Folds.filter_take {step : Step} {pass : List Node → List Node} (h : Folds step pass)
    {p : Node → Bool} (hspares : Spares step p) {node : Node} {rest : List Node}
    {kind : Kind Node} {count : Nat} (hstep : step node rest = some (kind, count)) :
    p node = false ∧ (rest.take count).filter p = [] := by
  constructor
  · cases hp : p node with
    | false => rfl
    | true =>
      rw [(hspares.bars node hp).keeps rest] at hstep
      cases hstep
  · rw [List.filter_eq_nil_iff]
    intro other hmem hp
    obtain ⟨before, after, hsplit⟩ := List.append_of_mem hmem
    -- The group would have to cross the node, but it would start in the same way without it.
    have hrest : rest = before ++ other :: (after ++ rest.drop count) := by
      rw [← List.cons_append, ← List.append_assoc, ← hsplit, List.take_append_drop]
    have hlength := congrArg List.length hsplit
    rw [hrest, (hspares.bars other hp).stops] at hstep
    have hcount := h.bound hstep
    simp only [List.length_take, List.length_append, List.length_cons] at hlength
    omega

/-- The nodes that the step spares all stand behind a group or before it. -/
theorem Folds.filter_drop {step : Step} {pass : List Node → List Node} (h : Folds step pass)
    {p : Node → Bool} (hspares : Spares step p) {node : Node} {rest : List Node}
    {kind : Kind Node} {count : Nat} (hstep : step node rest = some (kind, count)) :
    (rest.drop count).filter p = rest.filter p := by
  conv => rhs; rw [← List.take_append_drop count rest]
  rw [List.filter_append, (h.filter_take hspares hstep).2, List.nil_append]

/-- A group in the place of its nodes leaves the nodes that the step spares as they are. -/
theorem Folds.filter_group {step : Step} {pass : List Node → List Node} (h : Folds step pass)
    {p : Node → Bool} (hspares : Spares step p) {node : Node} {rest : List Node}
    {kind : Kind Node} {count : Nat} (hstep : step node rest = some (kind, count)) :
    (.group kind (node :: rest.take count) :: rest.drop count).filter p =
      (node :: rest).filter p := by
  have hgroup := hspares.groups hstep (node :: rest.take count)
  have hnode := (h.filter_take hspares hstep).1
  rw [List.filter_cons_of_neg (by simp [hgroup]), List.filter_cons_of_neg (by simp [hnode]),
    h.filter_drop hspares hstep]

/-- The nodes that a step spares stay as they are and in their order. -/
theorem Folds.filter_eq {step : Step} {pass : List Node → List Node} (h : Folds step pass)
    {p : Node → Bool} (hspares : Spares step p) (nodes : List Node) :
    (pass nodes).filter p = nodes.filter p := by
  induction nodes using h.induction with
  | nil => rw [h.nil]
  | keep hstep ih => rw [h.keep hstep, List.filter_cons, List.filter_cons, ih]
  | fold hstep ih =>
    rw [h.fold hstep, ← h.filter_group hspares hstep, List.filter_cons, List.filter_cons, ih]

/-- Some of the nodes that a step spares are there before and after it. -/
theorem Folds.any_eq {step : Step} {pass : List Node → List Node} (h : Folds step pass)
    {p : Node → Bool} (hspares : Spares step p) (nodes : List Node) :
    (pass nodes).any p = nodes.any p := by
  have hany (nodes : List Node) : nodes.any p = !(nodes.filter p).isEmpty := by
    rw [Bool.eq_iff_iff]
    simp
  rw [hany, hany, h.filter_eq hspares]

/-- Up to the first node that a step spares, nodes are grouped on their own. -/
theorem Folds.takeWhile_eq {step : Step} {pass : List Node → List Node} (h : Folds step pass)
    {p : Node → Bool} (hspares : Spares step p) (nodes : List Node) :
    (pass nodes).takeWhile (fun node ↦ !p node) = pass (nodes.takeWhile fun node ↦ !p node) := by
  have hpass {nodes : List Node} (hnone : ∀ node ∈ nodes, ¬p node = true) (rest : List Node) :
      (nodes ++ rest).takeWhile (fun node ↦ !p node) =
        nodes ++ rest.takeWhile fun node ↦ !p node :=
    List.takeWhile_append_of_pos (by simpa using hnone)
  have hgrouped {nodes : List Node} (hnone : ∀ node ∈ nodes, ¬p node = true) :
      ∀ node ∈ pass nodes, ¬p node = true := by
    rw [← List.filter_eq_nil_iff] at hnone ⊢
    rw [h.filter_eq hspares, hnone]
  cases hfound : nodes.find? p with
  | none =>
    have hnone := List.find?_eq_none.1 hfound
    have hnodes := hpass hnone []
    have hgroups := hpass (hgrouped hnone) []
    rw [List.append_nil, List.takeWhile_nil, List.append_nil] at hnodes hgroups
    rw [hnodes, hgroups]
  | some node =>
    obtain ⟨hnode, before, after, rfl, hbefore⟩ := List.find?_eq_some_iff_append.1 hfound
    have hnone : ∀ other ∈ before, ¬p other = true := by simpa using hbefore
    have hstop (nodes : List Node) :
        (node :: nodes).takeWhile (fun node ↦ !p node) = [] :=
      List.takeWhile_cons_of_neg (by simp [hnode])
    rw [h.append_cons (hspares.bars node hnode), hpass hnone, hpass (hgrouped hnone), hstop, hstop,
      List.append_nil, List.append_nil]

section

variable {p : Node → Bool} (hbarrier : ∀ node, p node = true → IsBarrier node)
  (hkind : ∀ node, p node = true → node.isAnyKeyword = true ∨ node.isAnyPunctuation = true)

include hkind

private theorem eq_false_of_kind {node : Node} (hkeyword : node.isAnyKeyword = false)
    (hmark : node.isAnyPunctuation = false) : p node = false := by
  cases hp : p node with
  | false => rfl
  | true =>
    have hnode := hkind node hp
    rw [hkeyword, hmark] at hnode
    simp at hnode

include hbarrier

/-- Aliases spare barriers that are keywords or marks. -/
theorem spares_aliasStep : Spares aliasStep p where
  bars node hp := (hbarrier node hp).aliases
  groups hstep children := by
    obtain ⟨hkeyword, hmark⟩ := of_isOperand (isOperand_of_aliasStep hstep children)
    exact eq_false_of_kind hkind hkeyword hmark

/-- Comparisons spare barriers that are keywords or marks. -/
theorem spares_comparisonStep : Spares comparisonStep p where
  bars node hp := (hbarrier node hp).comparisons
  groups hstep children := by
    obtain ⟨_, _, -, -, rfl⟩ := comparisonStep_eq_some hstep
    exact eq_false_of_kind hkind rfl rfl

/-- Lists spare barriers that are keywords or marks. -/
theorem spares_listStep : Spares listStep p where
  bars node hp := (hbarrier node hp).lists
  groups hstep children := by
    obtain ⟨-, -, rfl, -⟩ := listStep_eq_some hstep
    exact eq_false_of_kind hkind rfl rfl

/-- Barriers that are keywords or marks stay as they are and in their order. -/
theorem filter_regroup (nodes : List Node) : (regroup nodes).filter p = nodes.filter p := by
  rw [regroup, folds_groupLists.filter_eq (spares_listStep hbarrier hkind),
    folds_groupComparisons.filter_eq (spares_comparisonStep hbarrier hkind),
    folds_groupAliases.filter_eq (spares_aliasStep hbarrier hkind)]

end

/-! ### Nothing to group -/

/-- No nodes are grouped to none. -/
theorem regroup_nil : regroup [] = [] := by
  rw [regroup, folds_groupAliases.nil, folds_groupComparisons.nil, folds_groupLists.nil]

/-- Without an operator that compares there are no comparisons. -/
theorem groupComparisons_eq_self {nodes : List Node}
    (h : ∀ node ∈ nodes, isComparisonOperator node = false) : groupComparisons nodes = nodes := by
  apply folds_groupComparisons.eq_self
  intro left rest hsuffix
  have hafter : comparisonAfter? rest = none := by
    unfold comparisonAfter?
    split
    · rfl
    · next operator count hfront =>
      obtain ⟨blanks, more, rfl, _⟩ := Node.significant?_eq_some_iff.1 hfront
      have hoperator := h operator (hsuffix.mem (by simp))
      rw [isComparisonOperator] at hoperator
      rw [hoperator]
      rfl
  rw [comparisonStep, hafter]
  simp

/-- After an item, nothing without a comma belongs to its list. -/
theorem listSpan_eq_zero {nodes : List Node}
    (h : ∀ node ∈ nodes, node.isPunctuation "," = false) : listSpan false nodes = 0 := by
  induction nodes with
  | nil => rfl
  | cons node rest ih =>
    rw [List.forall_mem_cons] at h
    simp [listSpan, ih h.2, h.1, countOn]

/-- Without a comma there are no lists. -/
theorem groupLists_eq_self {nodes : List Node}
    (h : ∀ node ∈ nodes, node.isPunctuation "," = false) : groupLists nodes = nodes := by
  apply folds_groupLists.eq_self
  intro node rest hsuffix
  have hspan := listSpan_eq_zero fun other hmem ↦
    h other (hsuffix.mem (List.mem_cons_of_mem _ hmem))
  rw [listStep, hspan, if_neg (by simp)]

end Grouping

end SqlFootprint
