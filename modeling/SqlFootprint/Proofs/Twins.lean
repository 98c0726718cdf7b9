import SqlFootprint.Proofs.Cases

/-!
# Nodes that differ in a name

Two nodes are twins if they are of one kind and differ only in a name or an alias, and in what they
are made of. Grouping two sequences that differ in one node only, and there in twins, gives two that
differ in one node only (`Folds.differInOne`): a step reads of a node whether it is an operand or an
item, and not its names. What a list shows then differs at most in that item (`Trades`).
-/

namespace SqlFootprint

namespace Node

/-- What is read off an item: its columns, its own name, and the names of its items. -/
def face (node : Node) : List String × Option String × List String :=
  (Columns.columnsOf node, node.identifier?.map Identifier.name, node.realNames)

/-- The nodes differ in a name or in an alias; where they are the same `without` aliases, in the
alias only. -/
inductive Twins (without : Bool) : Node → Node → Prop
  | name {first second : Identifier} {text other : String} {children others : List Node} :
    (without = true → first.name = second.name ∧ first.qualifier = second.qualifier) →
    Twins without (mk (.identifier first) text children) (mk (.identifier second) other others)
  | call {name first second : String} {call : Node} {children others : List Node} :
    Twins without (group (.function name (some first)) (call :: children))
      (group (.function name (some second)) (call :: others))
  | value {text other : String} {children others : List Node} :
    Twins without (mk .literal text children) (mk .literal other others)
  | comparison {left right left' right' : Node} {operator operator' text other : String}
      {children others : List Node} :
    Twins without (mk (.comparison left operator right) text children)
      (mk (.comparison left' operator' right') other others)

namespace Twins

variable {without : Bool} {first second : Node}

/-- Twins are items. -/
theorem isListItem (h : Twins without first second) :
    Grouping.isListItem first = true ∧ Grouping.isListItem second = true := by
  cases h with
  | _ => exact ⟨rfl, rfl⟩

/-- Twins are operands, or neither is. -/
theorem isOperand_eq (h : Twins without first second) :
    Grouping.isOperand first = Grouping.isOperand second := by
  cases h with
  | _ => rfl

private theorem isSome_identifier? (h : Twins without first second) :
    first.identifier?.isSome = second.identifier?.isSome := by
  cases h with
  | _ => rfl

private theorem items_eq (h : Twins without first second) :
    first.items = [first] ∧ second.items = [second] := by
  cases h with
  | _ => exact ⟨rfl, rfl⟩

/-- Twins that differ in the alias only show the same. -/
theorem face_eq (h : Twins true first second) : first.face = second.face := by
  cases h with
  | @name first second text other children others hsame =>
    obtain ⟨hname, hqualifier⟩ := hsame rfl
    have hfull : first.fullName = second.fullName := by
      rw [Identifier.fullName, Identifier.fullName, hname, hqualifier]
    have hcolumns : Columns.columnsOf (mk (.identifier first) text children) =
        Columns.columnsOf (mk (.identifier second) other others) := by
      rw [Columns.columnsOf, Columns.columnsOf, hfull]
    have hnames : (mk (.identifier first) text children).realNames =
        (mk (.identifier second) other others).realNames := congrArg (fun name ↦ [name]) hname
    rw [face, face, hcolumns, hnames]
    exact congrArg (fun name ↦ (_, some name, _)) hname
  | _ => rfl

end Twins

/-- The node is an item of lists or a list. -/
def isContent (node : Node) : Bool := Grouping.isListItem node || node.isList

/-- Items and lists are no blanks, no keywords and no marks. -/
theorem of_isContent {node : Node} (h : node.isContent = true) :
    node.isBlank = false ∧ node.isAnyKeyword = false ∧ node.isAnyPunctuation = false := by
  cases node with
  | mk kind text children =>
    cases kind with
    | keyword => cases h
    | punctuation => cases h
    | blank => cases h
    | _ => exact ⟨rfl, rfl, rfl⟩

/-- Items are content. -/
theorem isContent_of_isListItem {node : Node} (h : Grouping.isListItem node = true) :
    node.isContent = true := by
  rw [isContent, h, Bool.true_or]

/-- The nodes are items or lists of one kind whose items show the same, except for the first item
where they are not the same `without` aliases. -/
structure Trades (without : Bool) (first second : Node) : Prop where
  content : first.isContent = true
  content' : second.isContent = true
  isList_eq : first.isList = second.isList
  isSome_identifier? : first.identifier?.isSome = second.identifier?.isSome
  further : (first.items.drop 1).map face = (second.items.drop 1).map face
  all : without = true → first.items.map face = second.items.map face

private theorem Twins.trades {without : Bool} {first second : Node}
    (h : Twins without first second) :
    Trades without first second where
  content := isContent_of_isListItem h.isListItem.1
  content' := isContent_of_isListItem h.isListItem.2
  isList_eq := by
    cases h with
    | _ => rfl
  isSome_identifier? := h.isSome_identifier?
  further := by
    obtain ⟨hfirst, hsecond⟩ := h.items_eq
    rw [hfirst, hsecond]
    rfl
  all := by
    rintro rfl
    obtain ⟨hfirst, hsecond⟩ := h.items_eq
    rw [hfirst, hsecond, List.map_singleton, List.map_singleton, h.face_eq]

private theorem items_append_cons {item : Node} (hitem : Grouping.isListItem item = true)
    (before after : List Node) :
    (group .identifierList (before ++ item :: after)).items =
      (group .identifierList before).items ++ item :: (group .identifierList after).items := by
  obtain ⟨hblank, -, hmark⟩ := of_isContent (isContent_of_isListItem hitem)
  have hitems (children : List Node) : (group .identifierList children).items =
      children.filter fun child ↦ !child.isBlank && !child.isAnyPunctuation := rfl
  rw [hitems, hitems, hitems, List.filter_append, List.filter_cons_of_pos]
  simp [hblank, hmark]

/-- Lists with twins among their items trade places; where the twins differ in more than an alias,
they have to be the first items. -/
theorem Twins.trades_list {without : Bool} {first second : Node} (h : Twins without first second)
    (before after : List Node) (hbefore : without = true ∨ before = []) :
    Trades without (group .identifierList (before ++ first :: after))
      (group .identifierList (before ++ second :: after)) := by
  obtain ⟨hfirst, hsecond⟩ := h.isListItem
  have hfirstItems := items_append_cons hfirst before after
  have hsecondItems := items_append_cons hsecond before after
  refine ⟨rfl, rfl, rfl, rfl, ?_, ?_⟩
  · rw [hfirstItems, hsecondItems]
    rcases hbefore with rfl | rfl
    · rw [List.map_drop, List.map_drop, List.map_append, List.map_append, List.map_cons,
        List.map_cons, h.face_eq]
    · rfl
  · rintro rfl
    rw [hfirstItems, hsecondItems, List.map_append, List.map_append, List.map_cons, List.map_cons,
      h.face_eq]

end Node

namespace Grouping

open Node

/-! ### Sequences that differ in one node -/

/-- The sequences differ in one node only; `p` picks `before` from what stands before it and `after`
from what stands behind it. -/
def DifferInOne (p : Node → Bool) (rel : Node → Node → Prop)
    (before after nodes others : List Node) : Prop :=
  ∃ front first second back, nodes = front ++ first :: back ∧ others = front ++ second :: back ∧
    rel first second ∧ front.filter p = before ∧ back.filter p = after

/-- One more node before sequences that differ in one node. -/
theorem DifferInOne.cons {p : Node → Bool} {rel : Node → Node → Prop}
    {before after nodes others : List Node}
    (h : DifferInOne p rel (before.filter p) after nodes others) (node : Node) :
    DifferInOne p rel ((node :: before).filter p) after (node :: nodes) (node :: others) := by
  obtain ⟨front, first, second, back, rfl, rfl, hrel, hfront, hback⟩ := h
  refine ⟨node :: front, first, second, back, rfl, rfl, hrel, ?_, hback⟩
  rw [List.filter_cons, List.filter_cons, hfront]

/-- The step starts a group at both nodes or at neither, and the groups are related. -/
def StartsAlike (step : Step) (rel : Node → Node → Prop) (first second : Node) : Prop :=
  ∀ rest, (step first rest = none ∧ step second rest = none ∧ rel first second) ∨
    ∃ kind other count, step first rest = some (kind, count) ∧
      step second rest = some (other, count) ∧
      rel (.group kind (first :: rest.take count)) (.group other (second :: rest.take count))

/-- A group that starts before one of the nodes is the same before the other one, or reaches beyond
the node and is related to a group that reaches beyond the other one. -/
def ReachesAlike (step : Step) (rel : Node → Node → Prop) (first second : Node) : Prop :=
  ∀ node before after,
    (step node (before ++ first :: after) = step node (before ++ second :: after) ∧
      ∀ kind count, step node (before ++ first :: after) = some (kind, count) →
        count ≤ before.length) ∨
    ∃ kind other more,
      step node (before ++ first :: after) = some (kind, before.length + 1 + more) ∧
      step node (before ++ second :: after) = some (other, before.length + 1 + more) ∧
      rel (.group kind (node :: (before ++ first :: after.take more)))
        (.group other (node :: (before ++ second :: after.take more)))

/-- The nodes up to one and some more. -/
theorem take_append_cons (before : List Node) (node : Node) (after : List Node) (more : Nat) :
    (before ++ node :: after).take (before.length + 1 + more) =
      before ++ node :: after.take more := by
  rw [Nat.add_assoc, Nat.add_comm 1, List.take_length_add_append, List.take_succ_cons]

/-- The nodes behind one and some more. -/
theorem drop_append_cons (before : List Node) (node : Node) (after : List Node) (more : Nat) :
    (before ++ node :: after).drop (before.length + 1 + more) = after.drop more := by
  rw [Nat.add_assoc, Nat.add_comm 1, List.drop_length_add_append, List.drop_succ_cons]

section

variable {step : Step} {pass : List Node → List Node} {p : Node → Bool}
  {rel : Node → Node → Prop} {first second : Node}

/-- Sequences that differ in their first node only are grouped to such sequences. -/
theorem Folds.exists_head (h : Folds step pass) (hspares : Spares step p)
    (hstarts : StartsAlike step rel first second) (back : List Node) :
    ∃ first' second' back', pass (first :: back) = first' :: back' ∧
      pass (second :: back) = second' :: back' ∧ rel first' second' ∧
      back'.filter p = back.filter p := by
  rcases hstarts back with ⟨hfirst, hsecond, hrel⟩ | ⟨kind, other, count, hfirst, hsecond, hrel⟩
  · exact ⟨first, second, pass back, h.keep hfirst, h.keep hsecond, hrel, h.filter_eq hspares back⟩
  · refine ⟨_, _, pass (back.drop count), h.fold hfirst, h.fold hsecond, hrel, ?_⟩
    rw [h.filter_eq hspares, h.filter_drop hspares hfirst]

private theorem Folds.differInOne_beyond (h : Folds step pass) (hspares : Spares step p)
    {node : Node}
    {front back : List Node} {kind other : Kind Node} {more : Nat}
    (hfirst : step node (front ++ first :: back) = some (kind, front.length + 1 + more))
    (hsecond : step node (front ++ second :: back) = some (other, front.length + 1 + more))
    (hrel : rel (.group kind (node :: (front ++ first :: back.take more)))
      (.group other (node :: (front ++ second :: back.take more)))) :
    DifferInOne p rel ((node :: front).filter p) (back.filter p)
      (pass (node :: (front ++ first :: back))) (pass (node :: (front ++ second :: back))) := by
  obtain ⟨hnode, htaken⟩ := h.filter_take hspares hfirst
  rw [take_append_cons, List.filter_append, List.append_eq_nil_iff] at htaken
  have hdropped := h.filter_drop hspares hfirst
  rw [drop_append_cons] at hdropped
  have hbeyond : (back.drop more).filter p = back.filter p := by
    rw [hdropped, List.filter_append, htaken.1, List.nil_append, List.filter_cons_of_neg]
    intro hp
    have hnone := htaken.2
    rw [List.filter_cons_of_pos hp] at hnone
    cases hnone
  refine ⟨[], _, _, pass (back.drop more), ?_, ?_, hrel, ?_, ?_⟩
  · rw [h.fold hfirst, take_append_cons, drop_append_cons, List.nil_append]
  · rw [h.fold hsecond, take_append_cons, drop_append_cons, List.nil_append]
  · rw [List.filter_cons_of_neg (by simp [hnode]), htaken.1, List.filter_nil]
  · rw [h.filter_eq hspares, hbeyond]

private theorem Folds.differInOne_append (h : Folds step pass) (hspares : Spares step p)
    (hstarts : StartsAlike step rel first second) (hreaches : ReachesAlike step rel first second)
    (front back : List Node) :
    DifferInOne p rel (front.filter p) (back.filter p) (pass (front ++ first :: back))
      (pass (front ++ second :: back)) := by
  -- A group that starts before the node ends before it or reaches beyond it.
  match front with
  | [] =>
    obtain ⟨first', second', back', hfirst, hsecond, hrel, hback⟩ :=
      h.exists_head hspares hstarts back
    exact ⟨[], first', second', back', hfirst, hsecond, hrel, rfl, hback⟩
  | node :: front =>
    rcases hreaches node front back with
      ⟨hsame, hbound⟩ | ⟨kind, other, more, hfirst, hsecond, hrel⟩
    · cases hstep : step node (front ++ first :: back) with
      | none =>
        rw [List.cons_append, h.keep hstep, List.cons_append, h.keep (hsame.symm.trans hstep)]
        exact (h.differInOne_append hspares hstarts hreaches front back).cons node
      | some found =>
        obtain ⟨kind, count⟩ := found
        have hcount := hbound kind count hstep
        have hgroup := (h.differInOne_append hspares hstarts hreaches (front.drop count) back).cons
          (.group kind (node :: front.take count))
        have hfront : (front.drop count).filter p = front.filter p := by
          have htaken := (h.filter_take hspares hstep).2
          rw [List.take_append_of_le_length hcount] at htaken
          have hsplit := congrArg (List.filter p) (List.take_append_drop count front)
          rwa [List.filter_append, htaken, List.nil_append] at hsplit
        rw [List.filter_cons_of_neg (by simp [hspares.groups hstep]), hfront] at hgroup
        rw [List.cons_append, h.fold hstep, List.cons_append, h.fold (hsame.symm.trans hstep),
          List.filter_cons_of_neg (by simp [(h.filter_take hspares hstep).1])]
        simp only [List.take_append_of_le_length hcount, List.drop_append_of_le_length hcount]
        exact hgroup
    · exact h.differInOne_beyond hspares hfirst hsecond hrel
termination_by front.length
decreasing_by all_goals simp only [List.length_cons, List.length_drop]; omega

/-- What differs in one node only does so after grouping. -/
theorem Folds.differInOne (h : Folds step pass) (hspares : Spares step p)
    {given : Node → Node → Prop}
    (hstarts : ∀ {first second}, given first second → StartsAlike step rel first second)
    (hreaches : ∀ {first second}, given first second → ReachesAlike step rel first second)
    {before after nodes others : List Node}
    (hdiffer : DifferInOne p given before after nodes others) :
    DifferInOne p rel before after (pass nodes) (pass others) := by
  obtain ⟨front, first, second, back, rfl, rfl, hgiven, rfl, rfl⟩ := hdiffer
  exact h.differInOne_append hspares (hstarts hgiven) (hreaches hgiven) front back

end

/-! ### What the steps read of twins -/

section

variable {without : Bool} {first second : Node}

/-- Twins start comparisons alike. -/
theorem startsAlike_comparisonStep (h : Twins without first second) :
    StartsAlike comparisonStep (Twins without) first second := by
  intro rest
  have hoperand := h.isOperand_eq
  by_cases hfirst : isOperand first = true
  · cases hafter : comparisonAfter? rest with
    | none =>
      refine .inl ⟨?_, ?_, h⟩
      · rw [comparisonStep, if_pos hfirst, hafter, Option.map_none]
      · rw [comparisonStep, if_pos (hoperand ▸ hfirst), hafter, Option.map_none]
    | some found =>
      refine .inr ⟨.comparison first found.1 found.2.1, .comparison second found.1 found.2.1,
        found.2.2, ?_, ?_, .comparison⟩
      · rw [comparisonStep, if_pos hfirst, hafter, Option.map_some]
      · rw [comparisonStep, if_pos (hoperand ▸ hfirst), hafter, Option.map_some]
  · refine .inl ⟨if_neg hfirst, if_neg (hoperand ▸ hfirst), h⟩

/-- The operator at the front of a sequence that has no right operand yet. -/
def pendingOperator? (nodes : List Node) : Option String :=
  (Node.significant? nodes).bind fun (operator, count) ↦
    if isComparisonOperator operator ∧ Node.significant? (nodes.drop count) = none then
      some operator.text
    else none

private theorem comparisonAfter?_append_cons {node : Node} (hblank : node.isBlank = false)
    (hmark : node.isAnyPunctuation = false) (before after : List Node) :
    comparisonAfter? (before ++ node :: after) = (comparisonAfter? before).or
      ((pendingOperator? before).bind fun operator ↦
        if isOperand node then some (operator, node, before.length + 1) else none) := by
  unfold comparisonAfter? pendingOperator?
  rw [Node.significant?_append_cons before after hblank]
  cases hbefore : Node.significant? before with
  | none => simp [hmark]
  | some found =>
    rcases found with ⟨operator, count⟩
    have hcount := (Node.significant?_count hbefore).2
    have hcompares : (operator.isAnyPunctuation && comparisonOperators.contains operator.text) =
        isComparisonOperator operator := rfl
    simp only [Option.or_some, Option.getD_some, Option.bind_some, hcompares]
    rw [List.drop_append_of_le_length hcount, Node.significant?_append_cons _ after hblank]
    cases isComparisonOperator operator with
    | false => simp
    | true =>
      cases Node.significant? (before.drop count) with
      | some right => simp
      | none =>
        have hlength : count + (before.length - count + 1) = before.length + 1 := by omega
        simp [hlength]

/-- Twins are reached alike by comparisons. -/
theorem reachesAlike_comparisonStep (h : Twins without first second) :
    ReachesAlike comparisonStep (Twins without) first second := by
  intro node before after
  obtain ⟨hblank, -, hmark⟩ := of_isContent (isContent_of_isListItem h.isListItem.1)
  obtain ⟨hblank', -, hmark'⟩ := of_isContent (isContent_of_isListItem h.isListItem.2)
  by_cases hnode : isOperand node = true
  · simp only [comparisonStep, hnode, ↓reduceIte, comparisonAfter?_append_cons hblank hmark,
      comparisonAfter?_append_cons hblank' hmark', ← h.isOperand_eq]
    cases hafter : comparisonAfter? before with
    | some found =>
      refine .inl ⟨rfl, ?_⟩
      intro kind count hstep
      cases hstep
      exact (comparisonAfter?_count hafter).2.1
    | none =>
      cases pendingOperator? before with
      | none => exact .inl ⟨rfl, fun _ _ hstep ↦ absurd hstep.symm (Option.some_ne_none _)⟩
      | some operator =>
        by_cases hoperand : isOperand first = true
        · refine .inr ⟨.comparison node operator first, .comparison node operator second, 0, ?_, ?_,
            .comparison⟩
          · simp [hoperand]
          · simp [hoperand]
        · refine .inl ⟨by simp [hoperand], ?_⟩
          intro kind count hstep
          simp [hoperand] at hstep
  · simp only [comparisonStep, hnode]
    exact .inl ⟨rfl, fun _ _ hstep ↦ absurd hstep.symm (Option.some_ne_none _)⟩

private theorem listSpan_congr {node other : Node} (hnode : isListItem node = true)
    (hother : isListItem other = true) (expectItem : Bool) (before after : List Node) :
    listSpan expectItem (before ++ node :: after) =
      listSpan expectItem (before ++ other :: after) := by
  obtain ⟨hblank, -, hmark⟩ := of_isContent (isContent_of_isListItem hnode)
  obtain ⟨hblank', -, hmark'⟩ := of_isContent (isContent_of_isListItem hother)
  induction before generalizing expectItem with
  | nil =>
    simp [listSpan, hblank, hblank', hnode, hother, Node.isPunctuation, hmark, hmark']
  | cons first before ih => simp only [List.cons_append, listSpan, ih]

/-- Twins start lists alike. -/
theorem startsAlike_listStep (h : Twins without first second) :
    StartsAlike listStep (Trades without) first second := by
  intro rest
  obtain ⟨hfirst, hsecond⟩ := h.isListItem
  by_cases hspan : 0 < listSpan false rest
  · refine .inr ⟨.identifierList, .identifierList, listSpan false rest, if_pos ⟨hfirst, hspan⟩,
      if_pos ⟨hsecond, hspan⟩, ?_⟩
    exact h.trades_list [] _ (.inr rfl)
  · exact .inl ⟨if_neg fun hstep ↦ hspan hstep.2, if_neg fun hstep ↦ hspan hstep.2, h.trades⟩

/-- Twins that differ in the alias only are reached alike by lists. -/
theorem reachesAlike_listStep (h : Twins true first second) :
    ReachesAlike listStep (Trades true) first second := by
  intro node before after
  obtain ⟨hfirst, hsecond⟩ := h.isListItem
  have hspan := listSpan_congr hfirst hsecond false before after
  simp only [listStep, ← hspan]
  generalize hcount : listSpan false (before ++ first :: after) = count
  by_cases hstarts : isListItem node = true ∧ 0 < count
  · simp only [if_pos hstarts]
    rcases Nat.lt_or_ge before.length count with hbeyond | hwithin
    · obtain ⟨more, rfl⟩ : ∃ more, count = before.length + 1 + more :=
        ⟨count - (before.length + 1), by omega⟩
      exact .inr ⟨.identifierList, .identifierList, more, rfl, rfl,
        h.trades_list (node :: before) _ (.inl rfl)⟩
    · refine .inl ⟨trivial, ?_⟩
      intro kind count hstep
      cases hstep
      exact hwithin
  · simp only [if_neg hstarts]
    exact .inl ⟨trivial, fun _ _ hstep ↦ absurd hstep.symm (Option.some_ne_none _)⟩

end

end Grouping

end SqlFootprint
