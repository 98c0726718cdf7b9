import SqlFootprint.Proofs.Conservation
import SqlFootprint.Proofs.Nesting

/-!
# The grammar of grouped nodes

What the children of each kind of node look like is a grammar (`Form`): a name, a call or a value
with its alias, a call with its arguments between parentheses, two operands around an operator, and
items between commas. `Node.Shaped` says that a node and all nodes below it follow the grammar.
`row_groupStatement` says that every grouped statement does, whatever its tokens are, and that only
a call at its very end lacks the parenthesis that closes it.
-/

namespace SqlFootprint

open Grouping

namespace Node

/-- A name and the alias of what stands before it: blanks, maybe `AS` and more blanks, and a single
name that is no star. -/
inductive AliasTail (aliasName : String) : List Node → Prop
  | bare {blanks : List Node} {text : String} : aliasName ≠ "*" →
    (∀ blank ∈ blanks, blank.isBlank = true) →
    AliasTail aliasName (blanks ++ [.leaf (.identifier ⟨aliasName, none, none⟩) text])
  | linked {blanks more : List Node} {word : Node} {text : String} : aliasName ≠ "*" →
    (∀ blank ∈ blanks, blank.isBlank = true) → word.isKeyword "AS" = true →
    (∀ blank ∈ more, blank.isBlank = true) →
    AliasTail aliasName
      (blanks ++ word :: (more ++ [.leaf (.identifier ⟨aliasName, none, none⟩) text]))

/-- Items with commas between them and blanks around the commas. -/
inductive Items : List Node → Prop
  | one {item : Node} : isListItem item = true → Items [item]
  | more {item : Node} {blanks others rest : List Node} : isListItem item = true →
    (∀ blank ∈ blanks, blank.isBlank = true) → (∀ blank ∈ others, blank.isBlank = true) →
    Items rest → Items (item :: (blanks ++ .punctuation "," :: (others ++ rest)))

/-- The kinds of nodes with what their children look like; `atEnd` where nothing follows the node in
its statement. -/
inductive Form (atEnd : Bool) : Kind Node → List Node → Prop
  | leaf {kind : Kind Node} : kind.isPlain = true → Form atEnd kind []
  | aliasedName {name aliasName text : String} {qualifier : Option String} {tail : List Node} :
    name ≠ "*" → AliasTail aliasName tail →
    Form atEnd (.identifier ⟨name, qualifier, some aliasName⟩)
      (.leaf (.identifier ⟨name, qualifier, none⟩) text :: tail)
  | aliasedCall {name aliasName : String} {call : Node} {tail : List Node} :
    call.kind = .function name none → AliasTail aliasName tail →
    Form atEnd (.function name (some aliasName)) (call :: tail)
  | aliasedValue {aliasName text : String} {tail : List Node} : AliasTail aliasName tail →
    Form atEnd .literal (.leaf .literal text :: tail)
  | call {identifier : Identifier} {text : String} {blanks arguments : List Node} :
    (∀ blank ∈ blanks, blank.isBlank = true) → nesting? 0 arguments = some 0 →
    Form atEnd (.function identifier.fullName none) (.leaf (.identifier identifier) text ::
      (blanks ++ .punctuation "(" :: (arguments ++ [.punctuation ")"])))
  | openCall {identifier : Identifier} {text : String} {blanks arguments : List Node} :
    atEnd = true → (∀ blank ∈ blanks, blank.isBlank = true) →
    (nesting? 0 arguments).isSome = true →
    Form atEnd (.function identifier.fullName none) (.leaf (.identifier identifier) text ::
      (blanks ++ .punctuation "(" :: arguments))
  | comparison {left right : Node} {operator : String} {blanks more : List Node} :
    isOperand left = true → isOperand right = true → operator ∈ comparisonOperators →
    (∀ blank ∈ blanks, blank.isBlank = true) → (∀ blank ∈ more, blank.isBlank = true) →
    Form atEnd (.comparison left operator right)
      (left :: (blanks ++ .punctuation operator :: (more ++ [right])))
  | list {item : Node} {blanks others rest : List Node} : isListItem item = true →
    (∀ blank ∈ blanks, blank.isBlank = true) → (∀ blank ∈ others, blank.isBlank = true) →
    Items rest →
    Form atEnd .identifierList (item :: (blanks ++ .punctuation "," :: (others ++ rest)))

mutual

/-- The node follows the grammar, and so do all nodes below it. -/
inductive Shaped : Bool → Node → Prop
  | mk {atEnd : Bool} {kind : Kind Node} {text : String} {children : List Node} :
    Form atEnd kind children → Row atEnd children → Shaped atEnd (.mk kind text children)

/-- The nodes follow the grammar, where only the last may stand at the end of the statement. -/
inductive Row : Bool → List Node → Prop
  | nil {atEnd : Bool} : Row atEnd []
  | cons {atEnd : Bool} {node : Node} {rest : List Node} :
    Shaped (atEnd && rest.isEmpty) node → Row atEnd rest → Row atEnd (node :: rest)

end

/-- The children of a node follow the grammar. -/
theorem Shaped.form {atEnd : Bool} {node : Node} (h : Shaped atEnd node) :
    Form atEnd node.kind node.children := by
  cases h with
  | mk form _ => exact form

/-- A leaf follows the grammar if its kind is one of leaves. -/
theorem Shaped.leaf {atEnd : Bool} {kind : Kind Node} {text : String}
    (h : kind.isPlain = true) : Shaped atEnd (.leaf kind text) := .mk (.leaf h) .nil

/-- A mark follows the grammar. -/
theorem Shaped.punctuation {atEnd : Bool} (text : String) : Shaped atEnd (.punctuation text) :=
  .leaf rfl

namespace Row

variable {atEnd : Bool} {node : Node} {first second rest : List Node}

/-- The first of some nodes and the others. -/
theorem cons_iff :
    Row atEnd (node :: rest) ↔ Shaped (atEnd && rest.isEmpty) node ∧ Row atEnd rest := by
  constructor
  · intro h
    cases h with
    | cons hnode hrest => exact ⟨hnode, hrest⟩
  · rintro ⟨hnode, hrest⟩
    exact .cons hnode hrest

/-- Two rows of nodes, the first of which ends the statement only where the second is empty. -/
theorem append_iff :
    Row atEnd (first ++ second) ↔ Row (atEnd && second.isEmpty) first ∧ Row atEnd second := by
  induction first with
  | nil => simp [Row.nil]
  | cons node first ih =>
    have hempty : (atEnd && (first ++ second).isEmpty) =
        (atEnd && second.isEmpty && first.isEmpty) := by
      cases first <;> simp
    rw [List.cons_append, cons_iff, cons_iff, ih, hempty, and_assoc]

/-- Each of the nodes follows the grammar. -/
theorem exists_shaped (h : Row atEnd first) : ∀ node ∈ first, ∃ here, Shaped here node := by
  induction first with
  | nil => exact nofun
  | cons node rest ih =>
    obtain ⟨hnode, hrest⟩ := cons_iff.1 h
    rw [List.forall_mem_cons]
    exact ⟨⟨_, hnode⟩, ih hrest⟩

private theorem of_leaves
    (h : ∀ node ∈ first, ∃ kind text, node = .leaf kind text ∧ kind.isPlain = true) :
    Row atEnd first := by
  induction first with
  | nil => exact .nil
  | cons node rest ih =>
    rw [List.forall_mem_cons] at h
    obtain ⟨⟨kind, text, rfl, hkind⟩, hrest⟩ := h
    exact .cons (.leaf hkind) (ih hrest)

end Row

/-! ### What a node that follows the grammar can be -/

/-- A name without an alias is a leaf. -/
theorem Shaped.eq_identifier {atEnd : Bool} {node : Node} {name : String}
    {qualifier : Option String} (h : Shaped atEnd node)
    (hkind : node.kind = .identifier ⟨name, qualifier, none⟩) :
    ∃ text, node = .leaf (.identifier ⟨name, qualifier, none⟩) text := by
  cases h with
  | @mk _ kind text children form _ =>
    obtain rfl : kind = _ := hkind
    cases form
    exact ⟨text, rfl⟩

/-- A mark is a leaf. -/
theorem Shaped.eq_punctuation {atEnd : Bool} {node : Node} (h : Shaped atEnd node)
    (hmark : node.isAnyPunctuation = true) : node = .punctuation node.text := by
  cases h with
  | @mk _ kind text children form _ =>
    cases form <;> first | cases hmark | skip
    cases kind with
    | punctuation => rfl
    | _ => cases hmark

private theorem Shaped.eq_of_isPunctuation {atEnd : Bool} {node : Node} {text : String}
    (h : Shaped atEnd node) (hmark : node.isPunctuation text = true) :
    node = .punctuation text := by
  obtain ⟨hany, htext⟩ := Bool.and_eq_true_iff.1 hmark
  rw [h.eq_punctuation hany, beq_iff_eq.1 htext]

end Node

namespace Grouping

open Node

/-! ### Aliases, comparisons and lists -/

private theorem eq_of_bareName? {atEnd : Bool} {node : Node} {name : String} (h : Shaped atEnd node)
    (hname : bareName? node = some name) :
    name ≠ "*" ∧ ∃ text, node = .leaf (.identifier ⟨name, none, none⟩) text := by
  unfold bareName? at hname
  split at hname
  · next found hidentifier =>
    split at hname
    · cases hname
    · next hstar =>
      cases hname
      refine ⟨hstar, h.eq_identifier ?_⟩
      unfold identifier? at hidentifier
      split at hidentifier
      · next hkind =>
        cases hidentifier
        exact hkind
      · cases hidentifier
  · cases hname

private theorem aliasTail_take {nodes : List Node} {aliasName : String} {count : Nat}
    (h : aliasAfter? nodes = some (aliasName, count))
    (hnodes : ∀ node ∈ nodes, ∃ atEnd, Shaped atEnd node) :
    AliasTail aliasName (nodes.take count) := by
  unfold aliasAfter? at h
  split at h
  · cases h
  · next first before hfirst =>
    obtain ⟨blanks, htake, hblanks⟩ := take_significant? hfirst
    have hmem {node : Node} {count : Nat} {blanks : List Node}
        (htake : (nodes.take count) = blanks ++ [node]) : node ∈ nodes :=
      List.mem_of_mem_take (htake ▸ List.mem_append_right _ (List.mem_singleton_self node))
    split at h
    · next has =>
      simp only [Option.bind_eq_some_iff, Option.map_eq_some_iff, Prod.mk.injEq] at h
      obtain ⟨⟨second, more⟩, hsecond, name, hname, rfl, rfl⟩ := h
      obtain ⟨others, hothers, hall⟩ := take_significant? hsecond
      have hdrop : second ∈ nodes :=
        List.mem_of_mem_drop (List.mem_of_mem_take
          (hothers ▸ List.mem_append_right _ (List.mem_singleton_self second)))
      obtain ⟨atEnd, hshaped⟩ := hnodes second hdrop
      obtain ⟨hstar, text, rfl⟩ := eq_of_bareName? hshaped hname
      rw [List.take_add, htake, hothers, List.append_assoc, List.singleton_append]
      exact .linked hstar hblanks has hall
    · simp only [Option.map_eq_some_iff, Prod.mk.injEq] at h
      obtain ⟨name, hname, rfl, rfl⟩ := h
      obtain ⟨atEnd, hshaped⟩ := hnodes first (hmem htake)
      obtain ⟨hstar, text, rfl⟩ := eq_of_bareName? hshaped hname
      rw [htake]
      exact .bare hstar hblanks

private theorem form_comparison {left right : Node} {rest : List Node} {operator : String}
    {count : Nat}
    (hleft : isOperand left = true) (h : comparisonAfter? rest = some (operator, right, count))
    (hrest : ∀ node ∈ rest, ∃ atEnd, Shaped atEnd node) (atEnd : Bool) :
    Form atEnd (.comparison left operator right) (left :: rest.take count) := by
  unfold comparisonAfter? at h
  split at h
  · cases h
  · next mark before hmark =>
    obtain ⟨blanks, htake, hblanks⟩ := take_significant? hmark
    split at h
    · next hoperator =>
      simp only [Option.bind_eq_some_iff] at h
      obtain ⟨⟨second, more⟩, hsecond, h⟩ := h
      split at h
      · next hright =>
        cases h
        obtain ⟨others, hothers, hall⟩ := take_significant? hsecond
        obtain ⟨hany, hlisted⟩ := Bool.and_eq_true_iff.1 hoperator
        have hmem : mark ∈ rest :=
          List.mem_of_mem_take (htake ▸ List.mem_append_right _ (List.mem_singleton_self mark))
        obtain ⟨here, hshaped⟩ := hrest mark hmem
        have hchildren : rest.take (before + more) =
            blanks ++ .punctuation mark.text :: (others ++ [second]) := by
          rw [List.take_add, htake, hothers, ← hshaped.eq_punctuation hany, List.append_assoc,
            List.singleton_append]
        rw [hchildren]
        exact .comparison hleft hright (List.contains_iff_mem.1 hlisted) hblanks hall
      · cases h
    · cases h

private theorem items_take {nodes : List Node} (hnodes : ∀ node ∈ nodes, ∃ atEnd, Shaped atEnd node)
    (expectItem : Bool) (h : 0 < listSpan expectItem nodes) :
    ∃ blanks items, (∀ blank ∈ blanks, blank.isBlank = true) ∧ Items items ∧
      ((expectItem = true ∧ nodes.take (listSpan expectItem nodes) = blanks ++ items) ∨
        ∃ others, expectItem = false ∧ (∀ blank ∈ others, blank.isBlank = true) ∧
          nodes.take (listSpan expectItem nodes) =
            others ++ .punctuation "," :: (blanks ++ items)) := by
  -- The span reads blanks, items and commas in turn: before an item it is the list itself, after
  -- one it is what a comma adds to the list.
  induction nodes generalizing expectItem with
  | nil => cases h
  | cons node rest ih =>
    rw [List.forall_mem_cons] at hnodes
    obtain ⟨⟨here, hshaped⟩, hrest⟩ := hnodes
    obtain ⟨next, hcount, hmore, hnode⟩ := listSpan_cons_of_pos h
    rw [hcount, List.take_succ_cons]
    rcases hnode with ⟨hblank, rfl⟩ | ⟨hitem, rfl, rfl⟩ | ⟨hcomma, rfl, rfl⟩
    · obtain ⟨blanks, items, hblanks, hitems, hcases⟩ := ih hrest next (hmore (.inr hblank))
      rcases hcases with ⟨hexpect, htake⟩ | ⟨others, hexpect, hothers, htake⟩
      · refine ⟨node :: blanks, items, List.forall_mem_cons.2 ⟨hblank, hblanks⟩, hitems, .inl ?_⟩
        exact ⟨hexpect, by rw [htake, List.cons_append]⟩
      · refine ⟨blanks, items, hblanks, hitems, .inr ⟨node :: others, hexpect, ?_, ?_⟩⟩
        · exact List.forall_mem_cons.2 ⟨hblank, hothers⟩
        · rw [htake, List.cons_append]
    · rcases Nat.eq_zero_or_pos (listSpan false rest) with hzero | hpositive
      · refine ⟨[], [node], nofun, .one hitem, .inl ⟨rfl, ?_⟩⟩
        rw [hzero, List.take_zero, List.nil_append]
      · obtain ⟨blanks, items, hblanks, hitems, hcases⟩ := ih hrest false hpositive
        rcases hcases with ⟨hexpect, -⟩ | ⟨others, -, hothers, htake⟩
        · cases hexpect
        · refine ⟨[], _, nofun, .more hitem hothers hblanks hitems, .inl ⟨rfl, ?_⟩⟩
          rw [htake, List.nil_append]
    · obtain ⟨blanks, items, hblanks, hitems, hcases⟩ := ih hrest true (hmore (.inl rfl))
      rcases hcases with ⟨-, htake⟩ | ⟨others, hexpect, -, -⟩
      · refine ⟨blanks, items, hblanks, hitems, .inr ⟨[], rfl, nofun, ?_⟩⟩
        rw [htake, hshaped.eq_of_isPunctuation hcomma, List.nil_append]
      · cases hexpect

private theorem form_list {node : Node} {rest : List Node} (hitem : isListItem node = true)
    (h : 0 < listSpan false rest) (hrest : ∀ node ∈ rest, ∃ atEnd, Shaped atEnd node)
    (atEnd : Bool) : Form atEnd .identifierList (node :: rest.take (listSpan false rest)) := by
  obtain ⟨blanks, items, hblanks, hitems, hcases⟩ := items_take hrest false h
  rcases hcases with ⟨hexpect, -⟩ | ⟨others, -, hothers, htake⟩
  · cases hexpect
  · rw [htake]
    exact .list hitem hothers hblanks hitems

/-- A value without an alias is a leaf. -/
def IsBareValue (node : Node) : Prop := node.kind = .literal → node.children = []

private theorem form_aliased {node : Node} {rest : List Node} {kindOf : String → Kind Node}
    {aliasName : String} {count : Nat} (hkind : aliasedKind? node = some kindOf)
    (h : aliasAfter? rest = some (aliasName, count)) (hbare : IsBareValue node)
    (hnode : ∃ atEnd, Shaped atEnd node) (hrest : ∀ node ∈ rest, ∃ atEnd, Shaped atEnd node)
    (atEnd : Bool) : Form atEnd (kindOf aliasName) (node :: rest.take count) := by
  have htail := aliasTail_take h hrest
  obtain ⟨here, hshaped⟩ := hnode
  unfold aliasedKind? at hkind
  split at hkind
  · next name qualifier hname =>
    split at hkind
    · cases hkind
    · next hstar =>
      cases hkind
      obtain ⟨text, rfl⟩ := hshaped.eq_identifier hname
      exact .aliasedName hstar htail
  · next name hname =>
    cases hkind
    exact .aliasedCall hname htail
  · next hvalue =>
    cases hkind
    obtain ⟨kind, text, children⟩ := node
    obtain rfl : kind = .literal := hvalue
    obtain rfl : children = [] := hbare rfl
    exact .aliasedValue htail
  · cases hkind

/-! ### Levels regrouped -/

private theorem Folds.isEmpty_eq {step : Step} {pass : List Node → List Node} (h : Folds step pass)
    (nodes : List Node) : (pass nodes).isEmpty = nodes.isEmpty := by
  cases nodes with
  | nil => rw [h.nil]
  | cons node rest =>
    cases hstep : step node rest with
    | none => rw [h.keep hstep]; rfl
    | some found => rw [h.fold hstep]; rfl

private theorem Folds.row {step : Step} {pass : List Node → List Node} (h : Folds step pass)
    {P : Node → Prop}
    (hform : ∀ {node rest kind count}, step node rest = some (kind, count) → P node →
      (∀ other ∈ node :: rest, ∃ here, Shaped here other) → ∀ atEnd,
        Form atEnd kind (node :: rest.take count))
    {nodes : List Node} (hnodes : ∀ node ∈ nodes, P node) {atEnd : Bool}
    (hrow : Row atEnd nodes) : Row atEnd (pass nodes) := by
  induction nodes using h.induction with
  | nil =>
    rw [h.nil]
    exact .nil
  | keep hstep ih =>
    obtain ⟨hnode, hrest⟩ := Row.cons_iff.1 hrow
    rw [List.forall_mem_cons] at hnodes
    rw [h.keep hstep]
    refine .cons ?_ (ih hnodes.2 hrest)
    rwa [h.isEmpty_eq]
  | @fold node rest kind count hstep ih =>
    rw [List.forall_mem_cons] at hnodes
    have hsplit := List.take_append_drop count rest
    have hform := hform hstep hnodes.1 hrow.exists_shaped
    rw [← hsplit, ← List.cons_append, Row.append_iff] at hrow
    rw [h.fold hstep]
    refine .cons (.mk (hform _) ?_) (ih ?_ hrow.2)
    · rw [h.isEmpty_eq]
      exact hrow.1
    · exact fun other hmem ↦ hnodes.2 other (List.mem_of_mem_drop hmem)

/-- A level that follows the grammar still does once it is grouped. -/
theorem row_regroup {nodes : List Node} {atEnd : Bool} (hbare : ∀ node ∈ nodes, IsBareValue node)
    (hrow : Row atEnd nodes) : Row atEnd (regroup nodes) := by
  have haliases : Row atEnd (groupAliases nodes) := by
    refine folds_groupAliases.row ?_ hbare hrow
    intro node rest kind count hstep hvalue hshaped
    obtain ⟨kindOf, aliasName, hkind, halias, rfl⟩ := aliasStep_eq_some hstep
    rw [List.forall_mem_cons] at hshaped
    exact form_aliased hkind halias hvalue hshaped.1 hshaped.2
  have hcomparisons : Row atEnd (groupComparisons (groupAliases nodes)) := by
    refine folds_groupComparisons.row (P := fun _ ↦ True) ?_ (fun _ _ ↦ trivial) haliases
    intro left rest kind count hstep _ hshaped
    obtain ⟨operator, right, hleft, hafter, rfl⟩ := comparisonStep_eq_some hstep
    rw [List.forall_mem_cons] at hshaped
    exact form_comparison hleft hafter hshaped.2
  refine folds_groupLists.row (P := fun _ ↦ True) ?_ (fun _ _ ↦ trivial) hcomparisons
  intro node rest kind count hstep _ hshaped
  obtain ⟨hitem, hspan, rfl, rfl⟩ := listStep_eq_some hstep
  rw [List.forall_mem_cons] at hshaped
  exact form_list hitem hspan hshaped.2

/-! ### Levels and statements -/

/-- The values of a level have no aliases yet. -/
theorem Reads.isBareValue {last : Option Node} {depth : Nat} {tokens left : List Token}
    {nodes : List Node} (h : Reads last depth tokens nodes left) :
    ∀ node ∈ nodes, IsBareValue node := by
  induction h with
  | done => exact nofun
  | stop => exact nofun
  | skip _ ih => exact ih
  | leaf hnode _ _ ih =>
    obtain ⟨-, kind, rfl, -⟩ := tokenNode?_eq_leaf hnode
    exact List.forall_mem_cons.2 ⟨fun _ ↦ rfl, ih⟩
  | name _ _ _ ih => exact List.forall_mem_cons.2 ⟨fun _ ↦ rfl, ih⟩
  | call _ _ _ _ hnode _ _ ih =>
    subst hnode
    exact List.forall_mem_cons.2 ⟨nofun, ih⟩
  | openCall _ _ _ _ hnode _ =>
    subst hnode
    exact List.forall_mem_cons.2 ⟨nofun, nofun⟩

/-- The nodes of a level close no parenthesis that was opened outside, and where it stops at one
they have closed all that they opened. -/
theorem Reads.exists_node_nesting? {last : Option Node} {depth : Nat} {tokens left : List Token}
    {nodes : List Node} (h : Reads last depth tokens nodes left) :
    ∃ inner, Node.nesting? depth nodes = some inner ∧ (left ≠ [] → inner = 0) := by
  induction h with
  | @done _ depth => exact ⟨depth, rfl, fun hne ↦ absurd rfl hne⟩
  | stop => exact ⟨0, rfl, fun _ ↦ rfl⟩
  | skip _ ih => exact ih
  | leaf hnode hnest _ ih =>
    rw [Node.nesting?_cons, nestAfter?_of_tokenNode? hnode hnest]
    exact ih
  | name _ _ _ ih =>
    rw [Node.nesting?_cons, Node.nestAfter?_of_not_isParen rfl]
    exact ih
  | call _ _ _ _ hnode _ _ ih =>
    subst hnode
    rw [Node.nesting?_cons, Node.nestAfter?_of_not_isParen rfl]
    exact ih
  | @openCall _ depth _ _ _ _ _ _ _ _ _ _ hnode _ =>
    subst hnode
    rw [Node.nesting?_cons, Node.nestAfter?_of_not_isParen rfl]
    exact ⟨depth, rfl, fun hne ↦ absurd rfl hne⟩

private theorem shaped_callNode {name : DottedName} {blanks : List Token} {arguments : List Node}
    {closed : Bool} {inner : Nat} (hblanks : ∀ blank ∈ blanks, blank.isBlank = true)
    (hnesting : Node.nesting? 0 arguments = some inner) (hclosed : closed = true → inner = 0)
    {atEnd : Bool} (hend : closed = false → atEnd = true) (hrow : Row (!closed) arguments) :
    Shaped atEnd (callNode name blanks arguments closed) := by
  have hnodes : ∀ node ∈ blanks.map plainNode, ∃ text, node = .leaf .blank text := by
    rw [List.forall_mem_map]
    exact fun blank hmem ↦ ⟨_, by rw [plainNode, if_pos (hblanks blank hmem)]⟩
  have hisBlank : ∀ node ∈ blanks.map plainNode, node.isBlank = true := by
    intro node hmem
    obtain ⟨text, rfl⟩ := hnodes node hmem
    rfl
  have hgap (here : Bool) : Row here (blanks.map plainNode) := by
    refine .of_leaves fun node hmem ↦ ?_
    obtain ⟨text, rfl⟩ := hnodes node hmem
    exact ⟨_, text, rfl, rfl⟩
  have hname {here : Bool} : Shaped here name.node := .leaf rfl
  cases closed with
  | true =>
    obtain rfl := hclosed rfl
    have hchildren : Row atEnd (name.node ::
        (blanks.map plainNode ++ .punctuation "(" :: (arguments ++ [.punctuation ")"]))) := by
      refine .cons hname (Row.append_iff.2 ⟨hgap _, .cons (.punctuation _) ?_⟩)
      rw [Row.append_iff, List.isEmpty_cons, Bool.and_false]
      exact ⟨hrow, .cons (.punctuation _) .nil⟩
    rw [callNode_eq, if_pos rfl]
    exact .mk (.call hisBlank hnesting) hchildren
  | false =>
    obtain rfl := hend rfl
    have hchildren : Row true (name.node ::
        (blanks.map plainNode ++ .punctuation "(" :: arguments)) :=
      .cons hname (Row.append_iff.2 ⟨hgap _, .cons (.punctuation _) hrow⟩)
    have hsome : (Node.nesting? 0 arguments).isSome = true := by rw [hnesting, Option.isSome_some]
    rw [callNode_eq, if_neg Bool.false_ne_true, List.append_nil]
    exact .mk (.openCall rfl hisBlank hsome) hchildren

/-- The nodes of a level follow the grammar, and the level ends with the statement only where no
parenthesis stops it. -/
theorem Reads.row {last : Option Node} {depth : Nat} {tokens left : List Token}
    {nodes : List Node} (h : Reads last depth tokens nodes left) : Row left.isEmpty nodes := by
  induction h with
  | done => exact .nil
  | stop => exact .nil
  | skip _ ih => exact ih
  | leaf hnode _ _ ih =>
    obtain ⟨-, kind, rfl, hkind⟩ := tokenNode?_eq_leaf hnode
    exact .cons (.leaf hkind) ih
  | name _ _ _ ih => exact .cons (.leaf rfl) ih
  | call _ _ hgap hinside hnode _ ihArguments ih =>
    subst hnode
    obtain ⟨inner, hnesting, hinner⟩ := hinside.exists_node_nesting?
    rw [← nesting?_regroup] at hnesting
    refine .cons ?_ ih
    exact shaped_callNode (isBlank_of_callGap? hgap) hnesting
      (fun _ ↦ hinner (List.cons_ne_nil _ _)) Bool.noConfusion
      (row_regroup hinside.isBareValue ihArguments)
  | openCall _ _ hgap hinside hnode ihArguments =>
    subst hnode
    obtain ⟨inner, hnesting, -⟩ := hinside.exists_node_nesting?
    rw [← nesting?_regroup] at hnesting
    refine .cons ?_ .nil
    exact shaped_callNode (isBlank_of_callGap? hgap) hnesting Bool.noConfusion (fun _ ↦ rfl)
      (row_regroup hinside.isBareValue ihArguments)

/-- The nodes of a statement follow the grammar. -/
theorem row_statementNodes (tokens : List Token) : Row true (statementNodes tokens) := by
  refine statementNodes_induction (motive := fun _ nodes ↦ Row true nodes) ?_ ?_ tokens
  · intro tokens nodes hreads
    exact row_regroup hreads.isBareValue hreads.row
  · intro tokens nodes more hreads ih
    rw [Row.append_iff, List.isEmpty_cons, Bool.and_false]
    exact ⟨row_regroup hreads.isBareValue hreads.row, .cons (.punctuation _) ih⟩

end Grouping

/-- Every node of a grouped statement has the form of its kind, whatever the tokens are; a call
without the parenthesis that closes it stands at the end of the statement. -/
theorem row_groupStatement (tokens : List Token) : Node.Row true (groupStatement tokens).nodes := by
  rw [nodes_groupStatement]
  exact Grouping.row_statementNodes tokens

end SqlFootprint
