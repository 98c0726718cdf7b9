import SqlFootprint.Grouping.Level
import SqlFootprint.Grouping.Step

/-!
# Grouping from left to right

Aliases, comparisons and lists are grouped in the same way: from left to right, where a step says
what group starts at a node and how far it goes (`Folds`). What holds of every such grouping is
proved once, from what its step can do.
-/

namespace SqlFootprint

/-- Up to the front of a sequence there are blanks, and then the front. -/
theorem Node.take_significant? {nodes : List Node} {node : Node} {count : Nat}
    (h : significant? nodes = some (node, count)) :
    ∃ blanks, nodes.take count = blanks ++ [node] ∧ ∀ blank ∈ blanks, blank.isBlank = true := by
  obtain ⟨blanks, rest, rfl, rfl, hall, _⟩ := significant?_eq_some_iff.1 h
  refine ⟨blanks, ?_, hall⟩
  rw [List.take_append, List.take_of_length_le (Nat.le_succ _)]
  simp

namespace Grouping

/-- Grouping from left to right by a step. -/
structure Folds (step : Step) (pass : List Node → List Node) : Prop where
  nil : pass [] = []
  keep : ∀ {node rest}, step node rest = none → pass (node :: rest) = node :: pass rest
  fold : ∀ {node rest kind count}, step node rest = some (kind, count) →
    pass (node :: rest) = .group kind (node :: rest.take count) :: pass (rest.drop count)
  bound : ∀ {node rest kind count}, step node rest = some (kind, count) → count ≤ rest.length

namespace Folds

variable {step : Step} {pass : List Node → List Node}

/-- What the steps preserve holds of all nodes. -/
theorem induction (h : Folds step pass) {motive : List Node → Prop} (nil : motive [])
    (keep : ∀ {node rest}, step node rest = none → motive rest → motive (node :: rest))
    (fold : ∀ {node rest kind count}, step node rest = some (kind, count) →
      motive (rest.drop count) → motive (node :: rest))
    (nodes : List Node) : motive nodes := by
  match nodes with
  | [] => exact nil
  | node :: rest =>
    cases hstep : step node rest with
    | none => exact keep hstep (induction h nil keep fold rest)
    | some found => exact fold hstep (induction h nil keep fold (rest.drop found.2))
termination_by nodes.length
decreasing_by all_goals simp only [List.length_cons, List.length_drop]; omega

/-- Nodes at which no group starts stay before what is grouped after them. -/
theorem append_of_keeps (h : Folds step pass) {before : List Node}
    (hbefore : ∀ node ∈ before, ∀ rest, step node rest = none) (after : List Node) :
    pass (before ++ after) = before ++ pass after := by
  induction before with
  | nil => rfl
  | cons node before ih =>
    rw [List.forall_mem_cons] at hbefore
    rw [List.cons_append, h.keep (hbefore.1 _), ih hbefore.2]
    rfl

/-- Nodes at which no group starts stay as they are. -/
theorem eq_self_of_keeps (h : Folds step pass) {nodes : List Node}
    (hnodes : ∀ node ∈ nodes, ∀ rest, step node rest = none) : pass nodes = nodes := by
  have happend := h.append_of_keeps hnodes []
  rwa [h.nil, List.append_nil] at happend

/-- Nodes stay as they are where no group starts before any part of them. -/
theorem eq_self (h : Folds step pass) {nodes : List Node}
    (hnodes : ∀ node rest, node :: rest <:+ nodes → step node rest = none) :
    pass nodes = nodes := by
  induction nodes with
  | nil => exact h.nil
  | cons node rest ih =>
    have hkeep := h.keep (hnodes node rest (List.suffix_refl _))
    rw [hkeep, ih fun other more hsuffix ↦ hnodes other more (hsuffix.trans (List.suffix_cons _ _))]

/-- What is so for the nodes, and for all groups of the step, is so for the grouped nodes. -/
theorem forall_mem (h : Folds step pass) {P : Node → Prop}
    (hgroup : ∀ {node rest kind count}, step node rest = some (kind, count) →
      ∀ children, P (.group kind children))
    {nodes : List Node} (hnodes : ∀ node ∈ nodes, P node) : ∀ node ∈ pass nodes, P node := by
  induction nodes using h.induction with
  | nil =>
    rw [h.nil]
    exact hnodes
  | keep hstep ih =>
    rw [List.forall_mem_cons] at hnodes
    rw [h.keep hstep, List.forall_mem_cons]
    exact ⟨hnodes.1, ih hnodes.2⟩
  | fold hstep ih =>
    rw [List.forall_mem_cons] at hnodes
    rw [h.fold hstep, List.forall_mem_cons]
    exact ⟨hgroup hstep _, ih fun node hmem ↦ hnodes.2 node (List.mem_of_mem_drop hmem)⟩

end Folds

/-! ### The three steps -/

/-- The alias of a node stands among the nodes after it. -/
theorem aliasAfter?_count {nodes : List Node} {aliasName : String} {count : Nat}
    (h : aliasAfter? nodes = some (aliasName, count)) : 0 < count ∧ count ≤ nodes.length := by
  unfold aliasAfter? at h
  split at h
  · cases h
  · next first before hfirst =>
    have hbefore := Node.significant?_count hfirst
    split at h
    · simp only [Option.bind_eq_some_iff, Option.map_eq_some_iff, Prod.mk.injEq] at h
      rcases h with ⟨⟨second, more⟩, hsecond, _, _, _, rfl⟩
      have hmore := Node.significant?_count hsecond
      rw [List.length_drop] at hmore
      omega
    · simp only [Option.map_eq_some_iff, Prod.mk.injEq] at h
      rcases h with ⟨_, _, _, rfl⟩
      exact hbefore

/-- A comparison ends with its right operand, which stands among the nodes after the left one. -/
theorem comparisonAfter?_count {nodes : List Node} {operator : String} {right : Node} {count : Nat}
    (h : comparisonAfter? nodes = some (operator, right, count)) :
    0 < count ∧ count ≤ nodes.length ∧ ∃ between, nodes.take count = between ++ [right] := by
  unfold comparisonAfter? at h
  split at h
  · cases h
  · next first before hfirst =>
    split at h
    · simp only [Option.bind_eq_some_iff] at h
      rcases h with ⟨⟨second, more⟩, hsecond, h⟩
      split at h
      · cases h
        obtain ⟨blanks, hblanks, _⟩ := Node.take_significant? hsecond
        have hbefore := Node.significant?_count hfirst
        have hmore := Node.significant?_count hsecond
        rw [List.length_drop] at hmore
        refine ⟨by omega, by omega, nodes.take before ++ blanks, ?_⟩
        rw [List.take_add, hblanks, List.append_assoc]
      · cases h
    · cases h

/-- What starts a group with an alias. -/
theorem aliasStep_eq_some {node : Node} {rest : List Node} {kind : Kind Node} {count : Nat}
    (h : aliasStep node rest = some (kind, count)) :
    ∃ kindOf aliasName, aliasedKind? node = some kindOf ∧
      aliasAfter? rest = some (aliasName, count) ∧ kind = kindOf aliasName := by
  simp only [aliasStep, Option.bind_eq_some_iff, Option.map_eq_some_iff, Prod.mk.injEq] at h
  rcases h with ⟨kindOf, hkind, ⟨aliasName, _⟩, halias, rfl, rfl⟩
  exact ⟨kindOf, aliasName, hkind, halias, rfl⟩

/-- What takes an alias is an operand, with the alias and without. -/
theorem isOperand_of_aliasedKind? {node : Node} {kind : String → Kind Node}
    (h : aliasedKind? node = some kind) :
    isOperand node = true ∧
      ∀ aliasName children, isOperand (.group (kind aliasName) children) = true := by
  unfold aliasedKind? at h
  split at h
  · next hkind =>
    split at h
    · cases h
    · cases h
      exact ⟨by rw [isOperand, hkind], fun _ _ ↦ rfl⟩
  · next hkind =>
    cases h
    exact ⟨by rw [isOperand, hkind], fun _ _ ↦ rfl⟩
  · next hkind =>
    cases h
    exact ⟨by rw [isOperand, hkind], fun _ _ ↦ rfl⟩
  · cases h

/-- A group with an alias is an operand. -/
theorem isOperand_of_aliasStep {node : Node} {rest : List Node} {kind : Kind Node} {count : Nat}
    (h : aliasStep node rest = some (kind, count)) (children : List Node) :
    isOperand (.group kind children) = true := by
  obtain ⟨kindOf, aliasName, hkind, -, rfl⟩ := aliasStep_eq_some h
  exact (isOperand_of_aliasedKind? hkind).2 aliasName children

/-- An operand is no keyword and no mark. -/
theorem of_isOperand {node : Node} (h : isOperand node = true) :
    node.isAnyKeyword = false ∧ node.isAnyPunctuation = false := by
  cases node with
  | mk kind text children =>
    cases kind with
    | keyword => cases h
    | punctuation => cases h
    | _ => exact ⟨rfl, rfl⟩

/-- What starts a comparison. -/
theorem comparisonStep_eq_some {left : Node} {rest : List Node} {kind : Kind Node} {count : Nat}
    (h : comparisonStep left rest = some (kind, count)) :
    ∃ operator right, isOperand left = true ∧
      comparisonAfter? rest = some (operator, right, count) ∧
      kind = .comparison left operator right := by
  simp only [comparisonStep, Option.ite_none_right_eq_some, Option.map_eq_some_iff,
    Prod.mk.injEq] at h
  rcases h with ⟨hleft, ⟨operator, right, _⟩, hafter, rfl, rfl⟩
  exact ⟨operator, right, hleft, hafter, rfl⟩

/-- What starts a list. -/
theorem listStep_eq_some {node : Node} {rest : List Node} {kind : Kind Node} {count : Nat}
    (h : listStep node rest = some (kind, count)) :
    isListItem node = true ∧ 0 < listSpan false rest ∧ kind = .identifierList ∧
      count = listSpan false rest := by
  simp only [listStep, Option.ite_none_right_eq_some, Option.some.injEq, Prod.mk.injEq] at h
  rcases h with ⟨⟨hitem, hspan⟩, rfl, rfl⟩
  exact ⟨hitem, hspan, rfl, rfl⟩

/-- Aliases are grouped from left to right. -/
theorem folds_groupAliases : Folds aliasStep groupAliases where
  nil := by rw [groupAliases]
  keep := by
    intro node rest h
    rw [groupAliases]
    split
    · rfl
    · next kind hkind =>
      split
      · rfl
      · next aliasName count halias => simp [aliasStep, hkind, halias] at h
  fold := by
    intro node rest kind count h
    obtain ⟨kindOf, aliasName, hkind, halias, rfl⟩ := aliasStep_eq_some h
    rw [groupAliases, hkind, halias]
  bound := by
    intro node rest kind count h
    obtain ⟨_, _, _, halias, _⟩ := aliasStep_eq_some h
    exact (aliasAfter?_count halias).2

/-- Comparisons are grouped from left to right. -/
theorem folds_groupComparisons : Folds comparisonStep groupComparisons where
  nil := by rw [groupComparisons]
  keep := by
    intro node rest h
    rw [groupComparisons]
    split
    · next hleft =>
      split
      · rfl
      · next hafter => simp [comparisonStep, hleft, hafter] at h
    · rfl
  fold := by
    intro node rest kind count h
    obtain ⟨operator, right, hleft, hafter, rfl⟩ := comparisonStep_eq_some h
    rw [groupComparisons, if_pos hleft, hafter]
  bound := by
    intro node rest kind count h
    obtain ⟨_, _, _, hafter, _⟩ := comparisonStep_eq_some h
    exact (comparisonAfter?_count hafter).2.1

private theorem listSpan_le (expectItem : Bool) (nodes : List Node) :
    listSpan expectItem nodes ≤ nodes.length := by
  have hcountOn (count : Nat) : countOn count ≤ count + 1 := by
    cases count with
    | zero => exact Nat.zero_le _
    | succ count => exact Nat.le_refl _
  induction nodes generalizing expectItem with
  | nil => exact Nat.zero_le _
  | cons node rest ih =>
    have hitem := ih expectItem
    have hcomma := ih true
    have hnext := ih false
    have honItem := hcountOn (listSpan expectItem rest)
    have honComma := hcountOn (listSpan true rest)
    unfold listSpan
    rw [List.length_cons]
    repeat' split
    all_goals omega

private theorem countOn_of_pos {count : Nat} (h : 0 < countOn count) :
    countOn count = count + 1 ∧ 0 < count := by
  cases count with
  | zero => cases h
  | succ count => exact ⟨rfl, Nat.succ_pos _⟩

/-- Nodes are counted on wherever nodes after them are counted. -/
theorem eq_zero_of_countOn {count : Nat} (h : countOn count = 0) : count = 0 := by
  cases count with
  | zero => rfl
  | succ count => cases h

/-- A list goes on with a blank, with an item after a comma, or with a comma after an item. -/
theorem listSpan_cons_of_pos {expectItem : Bool} {node : Node} {rest : List Node}
    (h : 0 < listSpan expectItem (node :: rest)) :
    ∃ next, listSpan expectItem (node :: rest) = listSpan next rest + 1 ∧
      (next = true ∨ node.isBlank = true → 0 < listSpan next rest) ∧
      ((node.isBlank = true ∧ next = expectItem) ∨
        (isListItem node = true ∧ expectItem = true ∧ next = false) ∨
        (node.isPunctuation "," = true ∧ expectItem = false ∧ next = true)) := by
  rw [listSpan.eq_2 expectItem node rest] at h ⊢
  split at h
  · next hblank =>
    obtain ⟨hcount, hrest⟩ := countOn_of_pos h
    rw [if_pos hblank]
    exact ⟨expectItem, hcount, fun _ ↦ hrest, .inl ⟨hblank, rfl⟩⟩
  · next hblank =>
    rw [if_neg hblank]
    split at h
    · next hexpect =>
      split at h
      · next hitem =>
        rw [if_pos hexpect, if_pos hitem]
        exact ⟨false, Nat.add_comm _ _, by simp [hblank], .inr (.inl ⟨hitem, hexpect, rfl⟩)⟩
      · cases h
    · next hexpect =>
      rw [Bool.not_eq_true] at hexpect
      split at h
      · next hcomma =>
        obtain ⟨hcount, hrest⟩ := countOn_of_pos h
        rw [hexpect, if_neg Bool.false_ne_true, if_pos hcomma]
        exact ⟨true, hcount, fun _ ↦ hrest, .inr (.inr ⟨hcomma, rfl, rfl⟩)⟩
      · cases h

/-- Lists are grouped from left to right. -/
theorem folds_groupLists : Folds listStep groupLists where
  nil := by rw [groupLists]
  keep := by
    intro node rest h
    rw [groupLists, if_neg]
    simpa [listStep] using h
  fold := by
    intro node rest kind count h
    obtain ⟨hitem, hspan, rfl, rfl⟩ := listStep_eq_some h
    rw [groupLists, if_pos ⟨hitem, hspan⟩]
  bound := by
    intro node rest kind count h
    obtain ⟨_, _, _, rfl⟩ := listStep_eq_some h
    exact listSpan_le false rest

end Grouping

end SqlFootprint
