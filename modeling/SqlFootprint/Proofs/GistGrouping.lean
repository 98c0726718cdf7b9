import SqlFootprint.Proofs.Folds
import SqlFootprint.Proofs.Gists

/-!
# Grouping gists

Aliases, comparisons and lists are grouped by steps that read no more of nodes than their gists
(`ReadsGists`). So nodes with the same gists are grouped to nodes with the same gists
(`gistOfAll_regroup`), whatever blanks there are and however values and calls are shown.
-/

namespace SqlFootprint

namespace Grouping

open Node

/-- A step reads no more of nodes than their gists: none starts at a blank, and where one starts at
a node, it starts at the gist as well and takes the gists of what it takes. -/
structure ReadsGists (step : Step) : Prop where
  blank : ∀ {node}, node.isBlank = true → ∀ rest, step node rest = none
  keep : ∀ {node rest}, step node rest = none → step node.gist (gistOfAll rest) = none
  fold : ∀ {node rest kind count}, step node rest = some (kind, count) →
    ∃ other, step node.gist (gistOfAll rest) = some (other, gistCount rest count) ∧
      ∀ children, (Node.group other (gistOfAll children)).gist = (Node.group kind children).gist

private theorem Folds.gistOfAll_eq {step : Step} {pass : List Node → List Node}
    (h : Folds step pass)
    (hreads : ReadsGists step) (nodes : List Node) :
    gistOfAll (pass (gistOfAll nodes)) = gistOfAll (pass nodes) := by
  induction nodes using h.induction with
  | nil => rfl
  | @keep node rest hstep ih =>
    rw [h.keep hstep]
    cases hblank : node.isBlank with
    | true => rw [gistOfAll_blank hblank, gistOfAll_blank hblank, ih]
    | false =>
      have hgist : node.gist.isBlank = false := by rw [isBlank_gist, hblank]
      rw [gistOfAll_cons hblank, h.keep (hreads.keep hstep), gistOfAll_cons hgist,
        gistOfAll_cons hblank, gist_gist, ih]
  | @fold node rest kind count hstep ih =>
    have hblank : node.isBlank = false := by
      cases hblank : node.isBlank with
      | false => rfl
      | true =>
        rw [hreads.blank hblank] at hstep
        cases hstep
    -- The group of the gists has other children than the group of the nodes, but the same gist.
    obtain ⟨other, hother, hgist⟩ := hreads.fold hstep
    rw [h.fold hstep, gistOfAll_cons hblank, h.fold hother, take_gistCount, drop_gistCount,
      ← gistOfAll_cons hblank]
    exact gistOfAll_cons_congr (hgist _) ih

private theorem Folds.gistOfAll_congr {step : Step} {pass : List Node → List Node}
    (h : Folds step pass)
    (hreads : ReadsGists step) {nodes others : List Node}
    (hgists : gistOfAll nodes = gistOfAll others) :
    gistOfAll (pass nodes) = gistOfAll (pass others) := by
  rw [← h.gistOfAll_eq hreads nodes, hgists, h.gistOfAll_eq hreads others]

/-- A gist offers the alias that the node offers. -/
@[simp] theorem bareName?_gist (node : Node) : bareName? node.gist = bareName? node := by
  rw [bareName?, identifier?_gist, bareName?]

/-- A gist takes an alias if the node does. -/
@[simp] theorem aliasedKind?_gist (node : Node) : aliasedKind? node.gist = aliasedKind? node := by
  cases node with | mk kind _ _ => cases kind <;> rfl

@[simp] theorem isOperand_gist (node : Node) : isOperand node.gist = isOperand node := by
  cases node with | mk kind _ _ => cases kind <;> rfl

@[simp] theorem isListItem_gist (node : Node) : isListItem node.gist = isListItem node := by
  cases node with | mk kind _ _ => cases kind <;> rfl

private theorem aliasAfter?_gistOfAll (nodes : List Node) :
    aliasAfter? (gistOfAll nodes) =
      (aliasAfter? nodes).map fun found ↦ (found.1, gistCount nodes found.2) := by
  unfold aliasAfter?
  rw [significant?_gistOfAll]
  cases hfirst : significant? nodes with
  | none => rfl
  | some first =>
    obtain ⟨front, count⟩ := first
    have hcount := gistCount_significant? hfirst
    have hdrop := drop_gistCount nodes count
    rw [hcount] at hdrop
    simp only [Option.map_some, isKeyword_gist, bareName?_gist, hdrop, significant?_gistOfAll]
    split
    · cases hsecond : significant? (nodes.drop count) with
      | none => rfl
      | some second =>
        have hmore := gistCount_significant? hsecond
        simp only [Option.map_some, Option.bind_some, bareName?_gist, Option.map_map,
          Function.comp_def, gistCount_add, hcount, hmore]
    · simp only [Option.map_map, Function.comp_def, hcount]

private theorem comparisonAfter?_gistOfAll (nodes : List Node) :
    comparisonAfter? (gistOfAll nodes) = (comparisonAfter? nodes).map fun found ↦
      (found.1, found.2.1.gist, gistCount nodes found.2.2) := by
  unfold comparisonAfter?
  rw [significant?_gistOfAll]
  cases hfirst : significant? nodes with
  | none => rfl
  | some first =>
    obtain ⟨operator, count⟩ := first
    have hcount := gistCount_significant? hfirst
    have hdrop := drop_gistCount nodes count
    rw [hcount] at hdrop
    simp only [Option.map_some, isAnyPunctuation_gist]
    cases hmark : operator.isAnyPunctuation with
    | false => rfl
    | true =>
      simp only [text_gist hmark, hdrop, significant?_gistOfAll]
      split
      · cases hsecond : significant? (nodes.drop count) with
        | none => rfl
        | some second =>
          obtain ⟨right, more⟩ := second
          have hmore := gistCount_significant? hsecond
          simp only [Option.map_some, Option.bind_some, isOperand_gist]
          split
          · rw [Option.map_some, gistCount_add, hcount, hmore]
          · rfl
      · rfl

/-- A blank goes with the list that goes on behind it. -/
theorem listSpan_blank {node : Node} (h : node.isBlank = true) (expectItem : Bool)
    (rest : List Node) :
    listSpan expectItem (node :: rest) = countOn (listSpan expectItem rest) := by
  rw [listSpan, if_pos h]

/-- A blank before a list is not counted. -/
theorem gistCount_countOn {node : Node} (h : node.isBlank = true) (rest : List Node)
    (count : Nat) : gistCount (node :: rest) (countOn count) = gistCount rest count := by
  cases count with
  | zero => rfl
  | succ count => exact gistCount_blank h rest (count + 1)

/-- A list that goes on does so by more than blanks. -/
theorem gistCount_listSpan_pos {expectItem : Bool} {nodes : List Node}
    (h : 0 < listSpan expectItem nodes) : 0 < gistCount nodes (listSpan expectItem nodes) := by
  induction nodes using blank_induction with
  | nil => exact absurd h (Nat.lt_irrefl 0)
  | blank text children rest ih =>
    rw [listSpan_blank rfl] at h ⊢
    rw [gistCount_countOn rfl]
    refine ih (Nat.pos_of_ne_zero fun hzero ↦ ?_)
    rw [hzero] at h
    exact Nat.lt_irrefl 0 h
  | solid node rest hblank ih =>
    obtain ⟨count, hcount⟩ := Nat.exists_eq_add_of_lt h
    rw [hcount, gistCount_cons hblank]
    exact Nat.succ_pos _

private theorem listSpan_gistOfAll (expectItem : Bool) (nodes : List Node) :
    listSpan expectItem (gistOfAll nodes) = gistCount nodes (listSpan expectItem nodes) := by
  induction nodes using blank_induction generalizing expectItem with
  | nil => rfl
  | blank text children rest ih =>
    rw [gistOfAll_blank rfl, ih, listSpan_blank rfl, gistCount_countOn rfl]
  | solid node rest hblank ih =>
    rw [gistOfAll_cons hblank]
    simp only [listSpan, isBlank_gist, hblank, isListItem_gist, isPunctuation_gist, ih,
      Bool.false_eq_true, ↓reduceIte]
    split
    · split
      · rw [Nat.add_comm 1, Nat.add_comm 1, gistCount_cons hblank]
      · rfl
    · split
      · cases hspan : listSpan true rest with
        | zero => rfl
        | succ count =>
          -- A list that goes on after a comma does so by an item, so its gists are counted on.
          have hpos : 0 < gistCount rest (count + 1) := by
            rw [← hspan]
            exact gistCount_listSpan_pos (by omega)
          obtain ⟨more, hmore⟩ := Nat.exists_eq_add_of_lt hpos
          rw [countOn, gistCount_cons hblank, hmore]
          rfl
      · rfl

/-! ### The three steps on gists -/

/-- The gist of an operand does not depend on its children. -/
theorem gist_group_of_isOperand {kind : Kind Node} {children : List Node}
    (h : isOperand (.group kind children) = true) (others : List Node) :
    (Node.group kind others).gist = (Node.group kind children).gist := by
  cases kind with
  | identifier => rfl
  | function => rfl
  | literal => rfl
  | _ => cases h

private theorem readsGists_aliasStep : ReadsGists aliasStep where
  blank := by
    intro node hblank rest
    obtain ⟨text, children, rfl⟩ := eq_of_isBlank hblank
    rfl
  keep := by
    intro node rest hstep
    rw [aliasStep, aliasedKind?_gist, aliasAfter?_gistOfAll]
    rw [aliasStep] at hstep
    cases hkind : aliasedKind? node with
    | none => rfl
    | some kindOf =>
      rw [hkind, Option.bind_some, Option.map_eq_none_iff] at hstep
      rw [hstep]
      rfl
  fold := by
    intro node rest kind count hstep
    have hoperand := isOperand_of_aliasStep hstep
    obtain ⟨kindOf, aliasName, hkind, halias, rfl⟩ := aliasStep_eq_some hstep
    refine ⟨kindOf aliasName, ?_, fun children ↦ gist_group_of_isOperand (hoperand children) _⟩
    rw [aliasStep, aliasedKind?_gist, hkind, aliasAfter?_gistOfAll, halias]
    rfl

private theorem readsGists_comparisonStep : ReadsGists comparisonStep where
  blank := by
    intro node hblank rest
    obtain ⟨text, children, rfl⟩ := eq_of_isBlank hblank
    rfl
  keep := by
    intro node rest hstep
    rw [comparisonStep, isOperand_gist, comparisonAfter?_gistOfAll]
    rw [comparisonStep] at hstep
    split
    · next hleft =>
      rw [if_pos hleft, Option.map_eq_none_iff] at hstep
      rw [hstep]
      rfl
    · rfl
  fold := by
    intro left rest kind count hstep
    obtain ⟨operator, right, hleft, hafter, rfl⟩ := comparisonStep_eq_some hstep
    refine ⟨.comparison left.gist operator right.gist, ?_, fun children ↦ ?_⟩
    · rw [comparisonStep, isOperand_gist, if_pos hleft, comparisonAfter?_gistOfAll, hafter]
      rfl
    · simp only [Node.group, gist, identifier?_gist]

private theorem readsGists_listStep : ReadsGists listStep where
  blank := by
    intro node hblank rest
    obtain ⟨text, children, rfl⟩ := eq_of_isBlank hblank
    rfl
  keep := by
    intro node rest hstep
    have hspan : ¬(isListItem node = true ∧ 0 < listSpan false rest) := by
      simpa [listStep] using hstep
    rw [listStep, isListItem_gist, listSpan_gistOfAll, if_neg]
    rintro ⟨hitem, hcount⟩
    refine hspan ⟨hitem, Nat.pos_of_ne_zero fun hzero ↦ ?_⟩
    rw [hzero] at hcount
    exact Nat.lt_irrefl 0 hcount
  fold := by
    intro node rest kind count hstep
    obtain ⟨hitem, hspan, rfl, rfl⟩ := listStep_eq_some hstep
    refine ⟨.identifierList, ?_, fun children ↦ ?_⟩
    · rw [listStep, isListItem_gist, listSpan_gistOfAll,
        if_pos ⟨hitem, gistCount_listSpan_pos hspan⟩]
    · simp only [Node.group, gist, gistOfAll_gistOfAll]

/-- What a level is grouped to depends only on the gists of its nodes. -/
theorem gistOfAll_regroup {nodes others : List Node} (h : gistOfAll nodes = gistOfAll others) :
    gistOfAll (regroup nodes) = gistOfAll (regroup others) :=
  folds_groupLists.gistOfAll_congr readsGists_listStep
    (folds_groupComparisons.gistOfAll_congr readsGists_comparisonStep
      (folds_groupAliases.gistOfAll_congr readsGists_aliasStep h))

end Grouping

end SqlFootprint
