import SqlFootprint.Proofs.TablePlaces

/-!
# Nothing left to group

Comparisons and lists are grouped once, from left to right, and what is grouped is not looked at
again. That is enough: what starts a comparison or a list in the grouped nodes would have started it
before (`Folds.saturated`), so a level is `Saturated` once it is regrouped. Parentheses part levels
from each other, and `groupStatement_saturated` says that all levels of a statement are saturated,
outside all calls and within each of them.
-/

namespace SqlFootprint

open Node

/-! ### Neighbours -/

namespace Node

/-- Nodes of three sorts stand one after the other, with nothing but blanks between them. -/
def Neighbours (first second third : Node → Bool) (nodes : List Node) : Prop :=
  ∃ i j k, nodes[i]?.any first = true ∧ nextSignificant? nodes i = some j ∧
    nodes[j]?.any second = true ∧ nextSignificant? nodes j = some k ∧ nodes[k]?.any third = true

private theorem significant?_of_nextSignificant? {nodes : List Node} {i j : Nat} {node : Node}
    (hnext : nextSignificant? nodes i = some j) (hnode : nodes[j]? = some node) :
    i < j ∧ significant? (nodes.drop (i + 1)) = some (node, j - i) := by
  obtain ⟨ahead, hahead, rfl⟩ := Option.map_eq_some_iff.1 hnext
  rw [← List.getElem?_drop] at hnode
  generalize nodes.drop (i + 1) = rest at hahead hnode
  have hcount : i + 1 + ahead - i = ahead + 1 := by omega
  rw [hcount]
  constructor
  · omega
  · clear hnext hcount
    induction rest generalizing ahead with
    | nil => cases hnode
    | cons first rest ih =>
      rw [List.findIdx?_cons] at hahead
      rw [significant?]
      by_cases hblank : first.isBlank = true
      · simp only [hblank, Bool.not_true, Bool.false_eq_true, ↓reduceIte,
          Option.map_eq_some_iff] at hahead
        obtain ⟨back, hback, rfl⟩ := hahead
        rw [if_pos hblank, ih back hback hnode]
        rfl
      · simp only [hblank, Bool.not_false, ↓reduceIte, Option.some.injEq] at hahead
        subst hahead
        cases hnode
        rw [if_neg hblank]

/-- Neighbours stand at the front of the nodes from the first of them on. -/
theorem Neighbours.exists_drop {first second third : Node → Bool} {nodes : List Node}
    (h : Neighbours first second third nodes) :
    ∃ left rest middle count right more, left :: rest <:+ nodes ∧
      significant? rest = some (middle, count) ∧
      significant? (rest.drop count) = some (right, more) ∧
      first left = true ∧ second middle = true ∧ third right = true := by
  obtain ⟨i, j, k, hleft, hj, hmiddle, hk, hright⟩ := h
  rw [Option.any_eq_true] at hleft hmiddle hright
  obtain ⟨left, hleftAt, hleft⟩ := hleft
  obtain ⟨middle, hmiddleAt, hmiddle⟩ := hmiddle
  obtain ⟨right, hrightAt, hright⟩ := hright
  obtain ⟨hij, hfront⟩ := significant?_of_nextSignificant? hj hmiddleAt
  obtain ⟨hjk, hbehind⟩ := significant?_of_nextSignificant? hk hrightAt
  have hsplit : left :: nodes.drop (i + 1) = nodes.drop i := by
    obtain ⟨hi, rfl⟩ := List.getElem?_eq_some_iff.1 hleftAt
    exact List.getElem_cons_drop hi
  have hdrop : (nodes.drop (i + 1)).drop (j - i) = nodes.drop (j + 1) := by
    rw [List.drop_drop]
    congr 1
    omega
  refine ⟨left, nodes.drop (i + 1), middle, j - i, right, k - j, ?_, hfront, ?_, hleft, hmiddle,
    hright⟩
  · rw [hsplit]
    exact List.drop_suffix i nodes
  · rwa [hdrop]

end Node

namespace Grouping

/-! ### What a grouping leaves as it is -/

private theorem Folds.length_le {step : Step} {pass : List Node → List Node} (h : Folds step pass)
    (nodes : List Node) : (pass nodes).length ≤ nodes.length := by
  induction nodes using h.induction with
  | nil => rw [h.nil]
  | keep hstep ih =>
    rw [h.keep hstep, List.length_cons, List.length_cons]
    omega
  | fold hstep ih =>
    rw [h.fold hstep, List.length_cons, List.length_cons]
    rw [List.length_drop] at ih
    omega

/-- Nodes that stay as they are have no place at which a group starts, if groups take nodes after
the first. -/
theorem Folds.eq_none_of_eq_self {step : Step} {pass : List Node → List Node} (h : Folds step pass)
    (hcount : ∀ {node rest kind count}, step node rest = some (kind, count) → 0 < count)
    {nodes : List Node} (hself : pass nodes = nodes) :
    ∀ node rest, node :: rest <:+ nodes → step node rest = none := by
  induction nodes with
  | nil =>
    intro node rest hsuffix
    cases List.suffix_nil.1 hsuffix
  | cons first others ih =>
    cases hstep : step first others with
    | some found =>
      obtain ⟨kind, count⟩ := found
      have hlength := congrArg List.length hself
      have hle := h.length_le (others.drop count)
      have hpositive := hcount hstep
      have hbound := h.bound hstep
      rw [h.fold hstep, List.length_cons, List.length_cons] at hlength
      rw [List.length_drop] at hle
      omega
    | none =>
      rw [h.keep hstep, List.cons.injEq] at hself
      intro node rest hsuffix
      rcases List.suffix_cons_iff.1 hsuffix with heq | hsuffix
      · cases heq
        exact hstep
      · exact ih hself.2 node rest hsuffix

/-- Where no group starts, nothing is stored and the nodes keep their positions. -/
theorem storeGroups_eq_self {step : Step} {nodes : List Node}
    (hnone : ∀ node rest, node :: rest <:+ nodes → step node rest = none) {positions : List Nat}
    (hlength : positions.length = nodes.length) (builder : Builder) :
    storeGroups step builder nodes positions = ⟨builder, nodes, positions⟩ := by
  induction nodes generalizing positions with
  | nil =>
    rw [List.eq_nil_of_length_eq_zero hlength, storeGroups]
    simp
  | cons node rest ih =>
    obtain ⟨position, positions, rfl⟩ := List.exists_cons_of_length_eq_add_one hlength
    have hrest := ih (fun other more hsuffix ↦ hnone other more (hsuffix.trans
      (List.suffix_cons node rest))) (Nat.succ.inj hlength)
    rw [storeGroups, hnone node rest (List.suffix_refl _), hrest]
    rfl

/-- If a step starts at no group of another one, and nowhere before nodes that are grouped unless it
starts there before they are, then it starts nowhere in what is grouped. -/
theorem Folds.saturated {step other : Step} {pass second : List Node → List Node}
    (h : Folds step pass) (hother : Folds other second)
    (hgroup : ∀ {node rest kind count}, step node rest = some (kind, count) →
      ∀ children more, other (.group kind children) more = none)
    (hpass : ∀ {node rest}, other node rest = none → other node (pass rest) = none)
    {nodes : List Node}
    (hnodes : ∀ node rest, node :: rest <:+ nodes → step node rest = none →
      other node rest = none) : second (pass nodes) = pass nodes := by
  have hdrop {node : Node} {rest : List Node} (count : Nat) {motive : Node → List Node → Prop}
      (hall : ∀ first more, first :: more <:+ node :: rest → motive first more) :
      ∀ first more, first :: more <:+ rest.drop count → motive first more := by
    intro first more hsuffix
    apply hall first more
    exact (hsuffix.trans (List.drop_suffix count rest)).trans (List.suffix_cons node rest)
  induction nodes using h.induction with
  | nil => rw [h.nil, hother.nil]
  | keep hstep ih =>
    have hnode := hnodes _ _ (List.suffix_refl _) hstep
    rw [h.keep hstep, hother.keep (hpass hnode), ih (hdrop 0 hnodes)]
  | fold hstep ih =>
    rw [h.fold hstep, hother.keep (hgroup hstep _ _), ih (hdrop _ hnodes)]

/-! ### Fronts of what is grouped -/

private theorem Folds.significant?_pass {step : Step} {pass : List Node → List Node}
    (h : Folds step pass)
    {p : Node → Bool}
    (hgroup : ∀ {node rest kind count}, step node rest = some (kind, count) → ∀ children,
      (Node.group kind children).isBlank = false ∧ p (.group kind children) = false)
    {nodes : List Node} {node : Node} {count : Nat}
    (hfront : significant? (pass nodes) = some (node, count)) (hp : p node = true) :
    significant? nodes = some (node, count) ∧
      (pass nodes).drop count = pass (nodes.drop count) := by
  induction nodes using h.induction generalizing count with
  | nil =>
    rw [h.nil] at hfront
    cases hfront
  | @keep first rest hstep ih =>
    rw [h.keep hstep, significant?] at hfront
    rw [h.keep hstep, significant?]
    by_cases hblank : first.isBlank = true
    · simp only [hblank, ↓reduceIte, Option.map_eq_some_iff, Prod.mk.injEq, Prod.exists] at hfront
      obtain ⟨found, back, hback, rfl, rfl⟩ := hfront
      obtain ⟨hrest, hdrop⟩ := ih hback
      rw [if_pos hblank, hrest, List.drop_succ_cons, List.drop_succ_cons]
      exact ⟨rfl, hdrop⟩
    · rw [if_neg hblank] at hfront
      cases hfront
      rw [if_neg hblank]
      exact ⟨rfl, rfl⟩
  | fold hstep ih =>
    obtain ⟨hblank, hother⟩ := hgroup hstep (_ :: _)
    rw [h.fold hstep, significant?, hblank, if_neg Bool.false_ne_true] at hfront
    cases hfront
    rw [hother] at hp
    cases hp

/-- A comparison that goes on in what is grouped went on before, if no group is an operand. -/
theorem Folds.comparisonAfter?_pass {step : Step} {pass : List Node → List Node}
    (h : Folds step pass)
    (hgroup : ∀ {node rest kind count}, step node rest = some (kind, count) → ∀ children,
      (Node.group kind children).isBlank = false ∧
        (Node.group kind children).isAnyPunctuation = false ∧
        isOperand (.group kind children) = false)
    {nodes : List Node} (hnone : comparisonAfter? nodes = none) :
    comparisonAfter? (pass nodes) = none := by
  cases hafter : comparisonAfter? (pass nodes) with
  | none => rfl
  | some found =>
    -- The operator and the operand behind it are no groups, so they stood there before.
    unfold comparisonAfter? at hafter
    split at hafter
    · cases hafter
    · next operator count hfront =>
      split at hafter
      · next hoperator =>
        obtain ⟨hmark, -⟩ := Bool.and_eq_true_iff.1 hoperator
        obtain ⟨hbefore, hdrop⟩ := h.significant?_pass (p := isAnyPunctuation)
          (fun hstep children ↦ ⟨(hgroup hstep children).1, (hgroup hstep children).2.1⟩)
          hfront hmark
        rw [hdrop, Option.bind_eq_some_iff] at hafter
        obtain ⟨⟨right, more⟩, hright, hafter⟩ := hafter
        rw [Option.ite_none_right_eq_some] at hafter
        obtain ⟨hbehind, -⟩ := h.significant?_pass (p := isOperand)
          (fun hstep children ↦ ⟨(hgroup hstep children).1, (hgroup hstep children).2.2⟩)
          hright hafter.1
        simp only [comparisonAfter?, hbefore, hoperator, hbehind, hafter.1, Option.bind_some,
          ↓reduceIte, reduceCtorEq] at hnone
      · cases hafter

private theorem listSpan_groupLists {expectItem : Bool} {nodes : List Node}
    (h : listSpan expectItem nodes = 0) : listSpan expectItem (groupLists nodes) = 0 := by
  induction nodes using folds_groupLists.induction generalizing expectItem with
  | nil => rw [folds_groupLists.nil, h]
  | keep hstep ih =>
    rw [folds_groupLists.keep hstep]
    rw [listSpan] at h ⊢
    split at h
    · next hblank => rw [if_pos hblank, ih (eq_zero_of_countOn h), countOn]
    · next hblank =>
      rw [if_neg hblank]
      split at h
      · next hexpect =>
        rw [if_pos hexpect]
        split at h
        · omega
        · next hitem => rw [if_neg hitem]
      · next hexpect =>
        rw [if_neg hexpect]
        split at h
        · next hcomma => rw [if_pos hcomma, ih (eq_zero_of_countOn h), countOn]
        · next hcomma => rw [if_neg hcomma]
  | fold hstep ih =>
    obtain ⟨-, -, rfl, -⟩ := listStep_eq_some hstep
    rw [folds_groupLists.fold hstep]
    cases expectItem with
    | true => rfl
    | false => rfl

private theorem listSpan_pos_of_significant? {expectItem : Bool} {nodes : List Node} {front : Node}
    {count : Nat} (hfront : significant? nodes = some (front, count))
    (h : front.isBlank = false → 0 < listSpan expectItem (front :: nodes.drop count)) :
    0 < listSpan expectItem nodes := by
  induction nodes generalizing count with
  | nil => cases hfront
  | cons first rest ih =>
    rw [significant?] at hfront
    by_cases hblank : first.isBlank = true
    · simp only [hblank, ↓reduceIte, Option.map_eq_some_iff, Prod.mk.injEq, Prod.exists] at hfront
      obtain ⟨found, back, hback, rfl, rfl⟩ := hfront
      have hrest := ih hback h
      rw [listSpan, if_pos hblank, countOn_eq hrest]
      omega
    · rw [if_neg hblank] at hfront
      cases hfront
      exact h (by simpa using hblank)

/-! ### Saturated levels -/

/-- There are no comparisons and no lists to group. -/
structure Saturated (nodes : List Node) : Prop where
  comparisons : groupComparisons nodes = nodes
  lists : groupLists nodes = nodes

private theorem groupComparisons_groupComparisons (nodes : List Node) :
    groupComparisons (groupComparisons nodes) = groupComparisons nodes := by
  apply folds_groupComparisons.saturated folds_groupComparisons
  · intro left rest kind count hstep children more
    obtain ⟨operator, right, -, -, rfl⟩ := comparisonStep_eq_some hstep
    rfl
  · intro left rest hstep
    simp only [comparisonStep, ite_eq_right_iff, Option.map_eq_none_iff] at hstep ⊢
    intro hleft
    apply folds_groupComparisons.comparisonAfter?_pass ?_ (hstep hleft)
    intro node rest kind count hgroup children
    obtain ⟨operator, right, -, -, rfl⟩ := comparisonStep_eq_some hgroup
    exact ⟨rfl, rfl, rfl⟩
  · exact fun _ _ _ hstep ↦ hstep

private theorem groupComparisons_groupLists {nodes : List Node}
    (h : groupComparisons nodes = nodes) :
    groupComparisons (groupLists nodes) = groupLists nodes := by
  apply folds_groupLists.saturated folds_groupComparisons
  · intro node rest kind count hstep children more
    obtain ⟨-, -, rfl, -⟩ := listStep_eq_some hstep
    rfl
  · intro left rest hstep
    simp only [comparisonStep, ite_eq_right_iff, Option.map_eq_none_iff] at hstep ⊢
    intro hleft
    apply folds_groupLists.comparisonAfter?_pass ?_ (hstep hleft)
    intro node rest kind count hgroup children
    obtain ⟨-, -, rfl, -⟩ := listStep_eq_some hgroup
    exact ⟨rfl, rfl, rfl⟩
  · intro left rest hsuffix _
    exact folds_groupComparisons.eq_none_of_eq_self (fun hstep ↦ (spans_comparisonStep hstep).1) h
      left rest hsuffix

private theorem groupLists_groupLists (nodes : List Node) :
    groupLists (groupLists nodes) = groupLists nodes := by
  apply folds_groupLists.saturated folds_groupLists
  · intro node rest kind count hstep children more
    obtain ⟨-, -, rfl, -⟩ := listStep_eq_some hstep
    rfl
  · intro node rest hstep
    simp only [listStep, ite_eq_right_iff, reduceCtorEq, imp_false, not_and, Nat.not_lt,
      Nat.le_zero] at hstep ⊢
    exact fun hitem ↦ listSpan_groupLists (hstep hitem)
  · exact fun _ _ _ hstep ↦ hstep

/-- A level is saturated once it is regrouped. -/
theorem saturated_regroup (nodes : List Node) : Saturated (regroup nodes) where
  comparisons := groupComparisons_groupLists (groupComparisons_groupComparisons _)
  lists := groupLists_groupLists _

namespace Saturated

variable {nodes : List Node}

/-- No nodes are saturated. -/
theorem nil : Saturated [] := ⟨folds_groupComparisons.nil, folds_groupLists.nil⟩

/-- Saturated levels with a barrier between them are saturated together. -/
theorem append_cons {before after : List Node} {node : Node} (hnode : IsBarrier node)
    (hbefore : Saturated before) (hafter : Saturated after) :
    Saturated (before ++ node :: after) where
  comparisons := by
    rw [folds_groupComparisons.append_cons hnode.comparisons, hbefore.comparisons,
      hafter.comparisons]
  lists := by
    rw [folds_groupLists.append_cons hnode.lists, hbefore.lists, hafter.lists]

/-- No comparison starts in a saturated level. -/
theorem comparisonStep_eq_none (h : Saturated nodes) :
    ∀ node rest, node :: rest <:+ nodes → comparisonStep node rest = none :=
  folds_groupComparisons.eq_none_of_eq_self (fun hstep ↦ (spans_comparisonStep hstep).1)
    h.comparisons

/-- No list starts in a saturated level. -/
theorem listStep_eq_none (h : Saturated nodes) :
    ∀ node rest, node :: rest <:+ nodes → listStep node rest = none :=
  folds_groupLists.eq_none_of_eq_self (fun hstep ↦ (spans_listStep hstep).1) h.lists

/-- In a saturated level no operator has operands on both sides. -/
theorem not_compared (h : Saturated nodes) :
    ¬ Neighbours isOperand isComparisonOperator isOperand nodes := by
  intro hneighbours
  obtain ⟨left, rest, operator, count, right, more, hsuffix, hfront, hbehind, hleft, hoperator,
    hright⟩ := hneighbours.exists_drop
  have hafter : comparisonAfter? rest = some (operator.text, right, count + more) := by
    rw [isComparisonOperator] at hoperator
    simp only [comparisonAfter?, hfront, hoperator, hbehind, hright, Option.bind_some, ↓reduceIte]
  have hstep := h.comparisonStep_eq_none left rest hsuffix
  rw [comparisonStep, if_pos hleft, hafter] at hstep
  cases hstep

/-- In a saturated level no comma has items on both sides. -/
theorem not_listed (h : Saturated nodes) :
    ¬ Neighbours isListItem (·.isPunctuation ",") isListItem nodes := by
  intro hneighbours
  obtain ⟨left, rest, comma, count, right, more, hsuffix, hfront, hbehind, hleft, hcomma,
    hright⟩ := hneighbours.exists_drop
  have hitem : 0 < listSpan true (rest.drop count) := by
    apply listSpan_pos_of_significant? hbehind
    intro hblank
    rw [listSpan, hblank, hright, if_neg Bool.false_ne_true, if_pos rfl, if_pos rfl]
    omega
  have hspan : 0 < listSpan false rest := by
    apply listSpan_pos_of_significant? hfront
    intro hblank
    rw [listSpan, hblank, hcomma, if_neg Bool.false_ne_true, if_neg Bool.false_ne_true, if_pos rfl,
      countOn_eq hitem]
    omega
  have hstep := h.listStep_eq_none left rest hsuffix
  rw [listStep, if_pos ⟨hleft, hspan⟩] at hstep
  cases hstep

/-- Grouping the comparisons of a saturated level stores nothing. -/
theorem storeGroups_comparisonStep (h : Saturated nodes) {positions : List Nat}
    (hlength : positions.length = nodes.length) (builder : Builder) :
    storeGroups comparisonStep builder nodes positions = ⟨builder, nodes, positions⟩ :=
  storeGroups_eq_self h.comparisonStep_eq_none hlength builder

/-- Grouping the lists of a saturated level stores nothing. -/
theorem storeGroups_listStep (h : Saturated nodes) {positions : List Nat}
    (hlength : positions.length = nodes.length) (builder : Builder) :
    storeGroups listStep builder nodes positions = ⟨builder, nodes, positions⟩ :=
  storeGroups_eq_self h.listStep_eq_none hlength builder

end Saturated

/-! ### Calls -/

/-- The children of each call without an alias are saturated, at the node and below. -/
inductive Settled : Node → Prop
  | mk {kind : Kind Node} {text : String} {children : List Node} :
    (kind.isCall = true → Saturated children) → (∀ child ∈ children, Settled child) →
    Settled (.mk kind text children)

/-- Leaves are settled. -/
theorem Settled.leaf (kind : Kind Node) (text : String) : Settled (.leaf kind text) :=
  .mk (fun _ ↦ .nil) (List.forall_mem_nil _)

private theorem Settled.of_mem {node child : Node} (h : Settled node)
    (hmem : child ∈ node.children) :
    Settled child := by
  cases h with
  | mk _ children => exact children child hmem

private theorem Regroups.settled {before after : List Node} (h : Regroups before after)
    (hbefore : ∀ node ∈ before, Settled node) : ∀ node ∈ after, Settled node := by
  induction h with
  | nil => exact hbefore
  | keep _ ih =>
    simp only [List.forall_mem_cons] at hbefore ⊢
    exact ⟨hbefore.1, ih hbefore.2⟩
  | fold _ _ hcall _ ih =>
    simp only [List.forall_mem_append, List.forall_mem_cons] at hbefore ⊢
    exact ⟨.mk (by simp [hcall]) hbefore.1, ih hbefore.2⟩

/-- Regrouping a level of settled nodes leaves settled nodes. -/
theorem settled_regroup {nodes : List Node} (h : ∀ node ∈ nodes, Settled node) :
    ∀ node ∈ regroup nodes, Settled node :=
  (regroups_groupLists _).settled
    ((regroups_groupComparisons _).settled ((regroups_groupAliases _).settled h))

/-- The parentheses of a call part its name and its arguments from each other, so the call is
settled if its arguments are. -/
theorem settled_callNode {name : DottedName} {blanks : List Token} {arguments : List Node}
    {closed : Bool} (hblanks : ∀ blank ∈ blanks, blank.isBlank = true)
    (harguments : ∀ node ∈ arguments, Settled node) :
    Settled (callNode name blanks (regroup arguments) closed) := by
  have hgap : ∀ node ∈ blanks.map plainNode, ∃ text, node = .leaf .blank text := by
    rw [List.forall_mem_map]
    exact fun blank hmem ↦ ⟨_, by rw [plainNode, if_pos (hblanks blank hmem)]⟩
  have hparen {text : String} (h : text ∈ ["(", ")"]) : IsBarrier (.punctuation text) := by
    apply isBarrier_punctuation
    · rintro rfl
      simp at h
    · intro hoperator
      simp only [List.mem_cons, List.not_mem_nil, or_false] at h
      rcases h with rfl | rfl <;> simp [comparisonOperators] at hoperator
  have hhead : Saturated (name.node :: blanks.map plainNode) := by
    have hquiet : ∀ node ∈ name.node :: blanks.map plainNode,
        isComparisonOperator node = false ∧ node.isPunctuation "," = false := by
      rw [List.forall_mem_cons]
      constructor
      · exact ⟨rfl, rfl⟩
      · intro node hmem
        obtain ⟨text, rfl⟩ := hgap node hmem
        exact ⟨rfl, rfl⟩
    exact ⟨groupComparisons_eq_self fun node hmem ↦ (hquiet node hmem).1,
      groupLists_eq_self fun node hmem ↦ (hquiet node hmem).2⟩
  have hinside : Saturated (regroup arguments ++ if closed then [.punctuation ")"] else []) := by
    cases closed with
    | true => exact (saturated_regroup arguments).append_cons (hparen (by simp)) .nil
    | false =>
      rw [if_neg Bool.false_ne_true, List.append_nil]
      exact saturated_regroup arguments
  rw [callNode_eq]
  constructor
  · intro _
    exact hhead.append_cons (hparen (by simp)) hinside
  · simp only [List.forall_mem_cons, List.forall_mem_append]
    refine ⟨.leaf _ _, ?_, .leaf _ _, settled_regroup harguments, ?_⟩
    · intro node hmem
      obtain ⟨text, rfl⟩ := hgap node hmem
      exact .leaf _ _
    · cases closed with
      | true => exact List.forall_mem_singleton.2 (.leaf _ _)
      | false => exact List.forall_mem_nil _

private theorem Reads.settled {last : Option Node} {depth : Nat} {tokens left : List Token}
    {nodes : List Node} (h : Reads last depth tokens nodes left) :
    ∀ node ∈ nodes, Settled node := by
  induction h with
  | done => exact List.forall_mem_nil _
  | stop => exact List.forall_mem_nil _
  | skip _ ih => exact ih
  | leaf hnode _ _ ih =>
    obtain ⟨-, kind, rfl, -⟩ := tokenNode?_eq_leaf hnode
    exact List.forall_mem_cons.2 ⟨.leaf _ _, ih⟩
  | name _ _ _ ih => exact List.forall_mem_cons.2 ⟨.leaf _ _, ih⟩
  | call _ _ hgap _ hnode _ ihArguments ih =>
    subst hnode
    exact List.forall_mem_cons.2 ⟨settled_callNode (isBlank_of_callGap? hgap) ihArguments, ih⟩
  | openCall _ _ hgap _ hnode ihArguments =>
    subst hnode
    exact List.forall_mem_singleton.2 (settled_callNode (isBlank_of_callGap? hgap) ihArguments)

private theorem saturated_statementNodes (tokens : List Token) :
    Saturated (statementNodes tokens) ∧ ∀ node ∈ statementNodes tokens, Settled node := by
  refine statementNodes_induction (motive := fun _ nodes ↦
    Saturated nodes ∧ ∀ node ∈ nodes, Settled node) ?_ ?_ tokens
  · intro tokens nodes hreads
    exact ⟨saturated_regroup nodes, settled_regroup hreads.settled⟩
  · intro tokens nodes more hreads ih
    constructor
    · apply (saturated_regroup nodes).append_cons _ ih.1
      exact isBarrier_punctuation (by decide) (by decide)
    · rw [List.forall_mem_append, List.forall_mem_cons]
      exact ⟨settled_regroup hreads.settled, .leaf _ _, ih.2⟩

end Grouping

/-! ### Grouped statements -/

/-- The levels of a tree: its roots, and the children of each call without an alias. -/
def TokenTree.levels (tree : TokenTree) : List (List Nat) :=
  tree.roots :: (tree.entries.toList.filter fun entry ↦ entry.kind.isCall).map Entry.children

private theorem Kind.isCall_resolve {α β : Type} (lookup : α → Option β) (kind : Kind α) :
    (kind.resolve lookup).isCall = kind.isCall := by
  cases kind with
  | function name aliasName => cases aliasName <;> rfl
  | comparison left operator right =>
    rw [resolve]
    split <;> rfl
  | _ => rfl

open Grouping

/-- Each level of a grouped statement holds nodes that are saturated. -/
theorem exists_saturated_level {tokens : List Token} {level : List Nat}
    (h : level ∈ (groupStatement tokens).levels) :
    ∃ nodes, List.Forall₂ (groupStatement tokens).Holds level nodes ∧ Saturated nodes := by
  obtain ⟨builder, places, hbuilt, hnodes, htree⟩ := exists_built_groupStatement tokens
  obtain ⟨hroots, hsettled⟩ := saturated_statementNodes tokens
  have hordered : (groupStatement tokens).Ordered := by
    obtain ⟨calls, rfl⟩ := hbuilt.exists_run
    rw [htree]
    exact (Builder.Records.run calls).normalForm _ |>.ordered
  have hall : ∀ node ∈ (groupStatement tokens).allNodes, Settled node := by
    rw [htree, Builder.allNodes_finish]
    refine hbuilt.forall_mem_table (fun node hnode child hchild ↦ hnode.of_mem hchild) ?_
    intro place hmem
    apply hsettled
    rw [← hnodes]
    exact List.mem_map_of_mem hmem
  rcases List.mem_cons.1 h with rfl | hlevel
  · refine ⟨_, hordered.holds_roots, ?_⟩
    rwa [nodes_groupStatement]
  · obtain ⟨entry, hmem, rfl⟩ := List.mem_map.1 hlevel
    obtain ⟨hentry, hcall⟩ := List.mem_filter.1 hmem
    obtain ⟨position, hposition⟩ := List.mem_iff_getElem?.1 hentry
    rw [Array.getElem?_toList] at hposition
    have hnode := hall _ (Array.mem_of_getElem? (hordered.holds_nodeOf hposition))
    refine ⟨_, hordered.holds_children hposition, ?_⟩
    cases hnode with
    | mk hchildren _ =>
      apply hchildren
      rwa [Kind.isCall_resolve]

/-- Nothing is left to group in a grouped statement. On each of its levels there are no operands
around an operator that compares and no items around a comma, and grouping the comparisons or the
lists of the level once more leaves its nodes as they are and stores no new one. -/
theorem groupStatement_saturated {tokens : List Token} {level : List Nat}
    (h : level ∈ (groupStatement tokens).levels) :
    ∃ nodes, List.Forall₂ (groupStatement tokens).Holds level nodes ∧
      ¬ Neighbours isOperand isComparisonOperator isOperand nodes ∧
      ¬ Neighbours isListItem (·.isPunctuation ",") isListItem nodes ∧
      groupComparisons nodes = nodes ∧ groupLists nodes = nodes ∧
      ∀ builder, storeGroups comparisonStep builder nodes level = ⟨builder, nodes, level⟩ ∧
        storeGroups listStep builder nodes level = ⟨builder, nodes, level⟩ := by
  obtain ⟨nodes, hnodes, hsaturated⟩ := exists_saturated_level h
  have hlength := hnodes.length_eq
  exact ⟨nodes, hnodes, hsaturated.not_compared, hsaturated.not_listed, hsaturated.comparisons,
    hsaturated.lists, fun builder ↦ ⟨hsaturated.storeGroups_comparisonStep hlength builder,
      hsaturated.storeGroups_listStep hlength builder⟩⟩

/-- In `f(a=b=c,d)` the second operator has a comparison before it and a list behind it. -/
theorem groupStatement_saturated_chain :
    let name (text : String) : Token := .word ⟨text, none⟩
    let tree := groupStatement [name "f", .openParen, name "a", .ofSymbolText "=", name "b",
      .ofSymbolText "=", name "c", .comma, name "d", .closeParen]
    [0, 1, 9, 5, 10, 11] ∈ tree.levels ∧
      ∃ nodes, List.Forall₂ tree.Holds [0, 1, 9, 5, 10, 11] nodes ∧
        ¬ Neighbours isOperand isComparisonOperator isOperand nodes ∧
        groupComparisons nodes = nodes ∧ groupLists nodes = nodes := by
  intro name tree
  have hlevel : [0, 1, 9, 5, 10, 11] ∈ tree.levels := by decide +kernel
  obtain ⟨nodes, hnodes, hcompared, -, hcomparisons, hlists, -⟩ := groupStatement_saturated hlevel
  exact ⟨hlevel, nodes, hnodes, hcompared, hcomparisons, hlists⟩

end SqlFootprint
