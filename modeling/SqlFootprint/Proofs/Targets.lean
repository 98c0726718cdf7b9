import SqlFootprint.Analysis.Columns
import SqlFootprint.Proofs.Items

/-!
# Assignment targets and lists

The targets of assignments are searched among nodes whose lists are grouped. `looseTargets` searches
the same nodes before that, and `targetsOfAll_groupLists` says that it finds the same: a name is
lost to a list exactly if it follows a comma that follows an item, since its equals sign then
stands outside the list.
-/

namespace SqlFootprint

namespace Node

/-- The first node that is no blank has the property. -/
def meets (p : Node → Bool) (nodes : List Node) : Bool :=
  (significant? nodes).any fun found ↦ p found.1

variable {p : Node → Bool} {node : Node}

/-- Blanks are passed over. -/
theorem meets_blank (hblank : node.isBlank = true) (rest : List Node) :
    meets p (node :: rest) = meets p rest := by
  rw [meets, significant?, if_pos hblank, Option.any_map]
  rfl

/-- A node that is no blank has the property or not. -/
theorem meets_cons (hblank : node.isBlank = false) (rest : List Node) :
    meets p (node :: rest) = p node := by
  rw [meets, significant?, hblank]
  rfl

/-- Before a node without the property, the first node has it as it does there. -/
theorem meets_append_cons (hblank : node.isBlank = false) (hp : p node = false)
    (nodes rest : List Node) : meets p (nodes ++ node :: rest) = meets p nodes := by
  rw [meets, meets, significant?_append_cons nodes rest hblank]
  cases significant? nodes with
  | none => exact hp
  | some found => rfl

/-- What does not come first does not come first in a part from the front. -/
theorem meets_take {nodes : List Node} (h : meets p nodes = false) (count : Nat) :
    meets p (nodes.take count) = false := by
  induction nodes generalizing count with
  | nil => rw [List.take_nil, h]
  | cons node rest ih =>
    cases count with
    | zero => rfl
    | succ count =>
      cases hblank : node.isBlank with
      | true =>
        rw [meets_blank hblank] at h
        rw [List.take_succ_cons, meets_blank hblank, ih h]
      | false =>
        rw [meets_cons hblank] at h
        rw [List.take_succ_cons, meets_cons hblank, h]

end Node

namespace Grouping

private theorem Folds.meets {step : Step} {pass : List Node → List Node} (h : Folds step pass)
    {p : Node → Bool}
    (hgroup : ∀ {node rest kind count}, step node rest = some (kind, count) →
      node.isBlank = false ∧ ∀ children, (Node.group kind children).isBlank = false ∧
        p (.group kind children) = p node)
    (nodes : List Node) : Node.meets p (pass nodes) = Node.meets p nodes := by
  induction nodes using h.induction with
  | nil => rw [h.nil]
  | @keep node rest hstep ih =>
    rw [h.keep hstep]
    cases hblank : node.isBlank with
    | true => rw [Node.meets_blank hblank, Node.meets_blank hblank, ih]
    | false => rw [Node.meets_cons hblank, Node.meets_cons hblank]
  | @fold node rest kind count hstep ih =>
    obtain ⟨hblank, hchildren⟩ := hgroup hstep
    obtain ⟨hgroupBlank, hp⟩ := hchildren (node :: rest.take count)
    rw [h.fold hstep, Node.meets_cons hgroupBlank, Node.meets_cons hblank, hp]

/-- No mark is a blank. -/
theorem isBlank_of_isAnyPunctuation {node : Node} (h : node.isAnyPunctuation = true) :
    node.isBlank = false := by
  cases node with
  | mk kind text children =>
    cases kind with
    | blank => cases h
    | _ => rfl

/-- No mark is a blank. -/
theorem isBlank_of_isPunctuation {node : Node} {text : String}
    (h : node.isPunctuation text = true) : node.isBlank = false :=
  isBlank_of_isAnyPunctuation (Bool.and_eq_true_iff.1 h).1

end Grouping

namespace Columns

open Grouping

/-- The node is an equals sign. -/
def isEquals (node : Node) : Bool := node.isPunctuation "="

private theorem isEquals_of_comma {node : Node} (h : node.isPunctuation "," = true) :
    isEquals node = false := by
  rw [Node.isPunctuation, Bool.and_eq_true, beq_iff_eq] at h
  rw [isEquals, Node.isPunctuation, h.2]
  exact Bool.and_false _

private theorem meets_isEquals_groupLists (nodes : List Node) :
    Node.meets isEquals (groupLists nodes) = Node.meets isEquals nodes := by
  apply folds_groupLists.meets
  intro node rest kind count hstep
  obtain ⟨hitem, -, rfl, -⟩ := listStep_eq_some hstep
  have hmark := (of_isListItem hitem).2.1
  have hequals : isEquals node = false := by
    rw [isEquals, Node.isPunctuation, hmark, Bool.false_and]
  exact ⟨(of_isListItem hitem).1, fun children ↦ ⟨rfl, hequals.symm⟩⟩

/-- Where a list goes on, no equals sign comes first. -/
theorem meets_isEquals_of_pos {nodes : List Node} (h : 0 < listSpan false nodes) :
    Node.meets isEquals nodes = false := by
  induction nodes with
  | nil => rfl
  | cons node rest ih =>
    obtain ⟨next, hcount, hrest, hnode⟩ := listSpan_cons_of_pos h
    rcases hnode with ⟨hblank, rfl⟩ | ⟨-, hexpect, -⟩ | ⟨hcomma, -, -⟩
    · rw [Node.meets_blank hblank]
      exact ih (hrest (.inr hblank))
    · cases hexpect
    · rw [Node.meets_cons (isBlank_of_isPunctuation hcomma), isEquals_of_comma hcomma]

/-- In what goes on with a list no equals sign comes first. -/
theorem meets_isEquals_take (nodes : List Node) :
    Node.meets isEquals (nodes.take (listSpan false nodes)) = false := by
  rcases Nat.eq_zero_or_pos (listSpan false nodes) with hzero | hpositive
  · rw [hzero]
    rfl
  · exact Node.meets_take (meets_isEquals_of_pos hpositive) _

/-- Of what stands around a node, its targets depend on `AS` before it and an equals sign after. -/
theorem targetsOf_congr {last last' : Option Node} {rest rest' : List Node}
    (has : last.any (·.isKeyword "AS") = last'.any (·.isKeyword "AS"))
    (hequals : Node.meets isEquals rest = Node.meets isEquals rest') (node : Node) :
    targetsOf last rest node = targetsOf last' rest' node := by
  unfold Node.meets isEquals at hequals
  cases node with
  | mk kind text children =>
    cases kind with
    | identifier identifier => rw [targetsOf, targetsOf, has, hequals]
    | _ => simp only [targetsOf]

/-- A name that no equals sign follows is no target. -/
theorem targetsOf_name {node : Node} (hname : node.identifier?.isSome = true) (last : Option Node)
    {rest : List Node} (hequals : Node.meets isEquals rest = false) :
    targetsOf last rest node = [] := by
  unfold Node.meets isEquals at hequals
  cases node with
  | mk kind text children =>
    cases kind with
    | identifier identifier => rw [targetsOf, hequals, Bool.and_false, if_neg Bool.false_ne_true]
    | _ => cases hname

/-- What is no name has the same targets wherever it stands. -/
theorem targetsOf_of_not_name {node : Node} (hname : node.identifier?.isSome = false)
    (last last' : Option Node) (rest rest' : List Node) :
    targetsOf last rest node = targetsOf last' rest' node := by
  cases node with
  | mk kind text children =>
    cases kind with
    | identifier identifier => cases hname
    | _ => simp only [targetsOf]

/-- Blanks are no targets. -/
theorem targetsOf_blank {node : Node} (hblank : node.isBlank = true) (last : Option Node)
    (rest : List Node) : targetsOf last rest node = [] := by
  cases node with
  | mk kind text children =>
    cases kind with
    | blank => rfl
    | _ => cases hblank

/-- Blanks are passed over. -/
theorem targetsOfAll_blank {node : Node} (hblank : node.isBlank = true) (last : Option Node)
    (rest : List Node) : targetsOfAll last (node :: rest) = targetsOfAll last rest := by
  rw [targetsOfAll, targetsOf_blank hblank, Node.lastSignificant, if_pos hblank, List.nil_append]

/-- What follows a node that is no blank has its targets after the node. -/
theorem targetsOfAll_cons {node : Node} (hblank : node.isBlank = false) (last : Option Node)
    (rest : List Node) :
    targetsOfAll last (node :: rest) =
      targetsOf last rest node ++ targetsOfAll (some node) rest := by
  rw [targetsOfAll, Node.lastSignificant, hblank, if_neg Bool.false_ne_true]

/-- A mark is no target. -/
theorem targetsOf_mark {node : Node} (hmark : node.isAnyPunctuation = true) (last : Option Node)
    (rest : List Node) : targetsOf last rest node = [] := by
  cases node with
  | mk kind text children =>
    cases kind with
    | punctuation => rfl
    | _ => cases hmark

/-- A mark that is no equals sign parts what is searched. -/
theorem targetsOfAll_append_mark {node : Node} (hmark : node.isAnyPunctuation = true)
    (hequals : isEquals node = false) (last : Option Node) (nodes rest : List Node) :
    targetsOfAll last (nodes ++ node :: rest) =
      targetsOfAll last nodes ++ targetsOfAll (some node) rest := by
  have hblank := isBlank_of_isAnyPunctuation hmark
  induction nodes generalizing last with
  | nil =>
    rw [List.nil_append, targetsOfAll_cons hblank, targetsOf_mark hmark]
    rfl
  | cons first nodes ih =>
    have hmeets : Node.meets isEquals (nodes ++ node :: rest) = Node.meets isEquals nodes :=
      Node.meets_append_cons hblank hequals nodes rest
    rw [List.cons_append, targetsOfAll, targetsOfAll, ih, List.append_assoc,
      targetsOf_congr rfl hmeets]

/-- Blanks have no targets. -/
theorem targetsOfAll_blanks {blanks : List Node} (h : ∀ blank ∈ blanks, blank.isBlank = true)
    (last : Option Node) : targetsOfAll last blanks = [] := by
  induction blanks with
  | nil => rfl
  | cons blank blanks ih =>
    rw [List.forall_mem_cons] at h
    rw [targetsOfAll_blank h.1, ih h.2]

/-! ### Targets among nodes whose lists are not grouped -/

/-- The next item belongs to a list that an item before the node has started; `joined` before it. -/
def joins (last : Option Node) (joined : Bool) (node : Node) : Bool :=
  if node.isBlank then joined else node.isPunctuation "," && last.any isListItem

/-- The columns assigned by nodes after `last` whose lists are not grouped; a name that is `joined`
to a list is no target. -/
def looseTargets (last : Option Node) (joined : Bool) : List Node → List String
  | [] => []
  | node :: rest =>
    (if joined && node.identifier?.isSome then [] else targetsOf last rest node) ++
      looseTargets (Node.lastSignificant last node) (joins last joined node) rest

/-- Blanks are passed over. -/
theorem looseTargets_blank {node : Node} (hblank : node.isBlank = true) (last : Option Node)
    (joined : Bool) (rest : List Node) :
    looseTargets last joined (node :: rest) = looseTargets last joined rest := by
  rw [looseTargets, targetsOf_blank hblank, ite_self, List.nil_append, joins, if_pos hblank,
    Node.lastSignificant, if_pos hblank]

/-- After a node that is no blank, an item is joined to a list by a comma that follows an item. -/
theorem looseTargets_cons {node : Node} (hblank : node.isBlank = false) (last : Option Node)
    (joined : Bool) (rest : List Node) :
    looseTargets last joined (node :: rest) =
      (if joined && node.identifier?.isSome then [] else targetsOf last rest node) ++
        looseTargets (some node) (node.isPunctuation "," && last.any isListItem) rest := by
  rw [looseTargets, joins, Node.lastSignificant, hblank]
  rfl

private theorem targetsOf_joined {node : Node} (last inner : Option Node) (rest : List Node)
    {more : List Node} (hequals : Node.meets isEquals more = false) :
    (if true && node.identifier?.isSome then [] else targetsOf last rest node) =
      targetsOf inner more node := by
  cases hname : node.identifier?.isSome with
  | true => exact (targetsOf_name hname inner hequals).symm
  | false => exact targetsOf_of_not_name hname last inner rest more

private theorem looseTargets_listSpan (nodes : List Node) (expectItem : Bool)
    (last inner : Option Node)
    (hlast : expectItem = false → last.any isListItem = true)
    (hspan : expectItem = true → 0 < listSpan expectItem nodes) :
    ∃ last', last'.any isListItem = true ∧
      listSpan false (nodes.drop (listSpan expectItem nodes)) = 0 ∧
      looseTargets last expectItem nodes =
        targetsOfAll inner (nodes.take (listSpan expectItem nodes)) ++
          looseTargets last' false (nodes.drop (listSpan expectItem nodes)) := by
  induction nodes generalizing expectItem last inner with
  | nil =>
    cases expectItem with
    | false => exact ⟨last, hlast rfl, rfl, rfl⟩
    | true => cases hspan rfl
  | cons node rest ih =>
    rcases Nat.eq_zero_or_pos (listSpan expectItem (node :: rest)) with hzero | hpositive
    · rw [hzero] at hspan ⊢
      cases expectItem with
      | false => exact ⟨last, hlast rfl, hzero, rfl⟩
      | true => cases hspan rfl
    · -- The list goes on with a blank, an item or a comma, and the loose scan agrees on each.
      obtain ⟨next, hcount, hrest, hnode⟩ := listSpan_cons_of_pos hpositive
      rw [hcount, List.take_succ_cons, List.drop_succ_cons]
      rcases hnode with ⟨hblank, rfl⟩ | ⟨hitem, rfl, rfl⟩ | ⟨hcomma, rfl, rfl⟩
      · obtain ⟨last', hlast', hend, htargets⟩ := ih next last inner hlast
          fun hnext ↦ hrest (.inl hnext)
        refine ⟨last', hlast', hend, ?_⟩
        rw [looseTargets_blank hblank, targetsOfAll_blank hblank, htargets]
      · obtain ⟨last', hlast', hend, htargets⟩ := ih false (some node) (some node)
          (fun _ ↦ hitem) Bool.noConfusion
        obtain ⟨hblank, hmark, -⟩ := of_isListItem hitem
        refine ⟨last', hlast', hend, ?_⟩
        rw [looseTargets_cons hblank, Node.isPunctuation, hmark, Bool.false_and, Bool.false_and,
          htargets, targetsOf_joined last inner rest (meets_isEquals_take rest),
          targetsOfAll_cons hblank, List.append_assoc]
      · obtain ⟨last', hlast', hend, htargets⟩ := ih true (some node) (some node)
          Bool.noConfusion fun hnext ↦ hrest (.inl hnext)
        have hmark : node.isAnyPunctuation = true := (Bool.and_eq_true_iff.1 hcomma).1
        have hblank := isBlank_of_isPunctuation hcomma
        refine ⟨last', hlast', hend, ?_⟩
        rw [looseTargets_cons hblank, hcomma, hlast rfl, Bool.true_and, htargets,
          targetsOfAll_cons hblank, targetsOf_mark hmark, targetsOf_mark hmark, ite_self,
          List.nil_append, List.nil_append]

private theorem any_isKeyword_of_isListItem {last : Option Node} (h : last.any isListItem = true)
    (word : String) : last.any (·.isKeyword word) = false := by
  cases last with
  | none => rfl
  | some node =>
    have hkeyword : node.isAnyKeyword = false := isAnyKeyword_of_isListItem h
    rw [Option.any_some, Node.isKeyword, hkeyword, Bool.false_and]

private theorem targetsOf_list {node : Node} {rest : List Node} (hitem : isListItem node = true)
    (hspan : 0 < listSpan false rest) (last last' : Option Node) (after : List Node) :
    targetsOf last' after (.group .identifierList (node :: rest.take (listSpan false rest))) =
      targetsOf last rest node ++ targetsOfAll (some node) (rest.take (listSpan false rest)) := by
  have hequals := meets_isEquals_of_pos hspan
  have hnode :
      targetsOf none (rest.take (listSpan false rest)) node = targetsOf last rest node := by
    cases hname : node.identifier?.isSome with
    | true => rw [targetsOf_name hname _ hequals, targetsOf_name hname _ (meets_isEquals_take rest)]
    | false => exact targetsOf_of_not_name hname _ _ _ _
  rw [Node.group, targetsOf, targetsOfAll_cons (of_isListItem hitem).1, hnode]

/-- Where no list goes on after a comma, no item follows that is joined to one. -/
theorem eq_false_of_isListItem {joined : Bool} {node : Node} {rest : List Node}
    (hjoined : joined = true → listSpan true (node :: rest) = 0) (hitem : isListItem node = true) :
    joined = false := by
  cases joined with
  | false => rfl
  | true =>
    have hzero := hjoined rfl
    rw [listSpan_item hitem] at hzero
    cases hzero

private theorem isListItem_of_name {node : Node} (hname : node.identifier?.isSome = true) :
    isListItem node = true := by
  cases node with
  | mk kind text children =>
    cases kind with
    | identifier identifier => rfl
    | _ => cases hname

private theorem targetsOf_before_groupLists {node : Node} {rest : List Node}
    {last last' : Option Node}
    {joined : Bool} (has : last'.any (·.isKeyword "AS") = last.any (·.isKeyword "AS"))
    (hjoined : joined = true → listSpan true (node :: rest) = 0) :
    (if joined && node.identifier?.isSome then [] else targetsOf last rest node) =
      targetsOf last' (groupLists rest) node := by
  rw [targetsOf_congr has (meets_isEquals_groupLists rest)]
  cases hname : node.identifier?.isSome with
  | true =>
    rw [eq_false_of_isListItem hjoined (isListItem_of_name hname)]
    rfl
  | false => rw [Bool.and_false, if_neg Bool.false_ne_true]

private theorem targetsOfAll_groupLists_of (nodes : List Node) (last last' : Option Node)
    (joined : Bool)
    (has : last'.any (·.isKeyword "AS") = last.any (·.isKeyword "AS"))
    (hlast : last.any isListItem = true → listSpan false nodes = 0)
    (hjoined : joined = true → listSpan true nodes = 0) :
    targetsOfAll last' (groupLists nodes) = looseTargets last joined nodes := by
  -- Behind a list, `last'` is the list and `last` its final item: a search for targets asks only
  -- whether they are `AS`.
  induction nodes using groupLists.induct generalizing last last' joined with
  | case1 =>
    rw [groupLists]
    rfl
  | case2 node rest h count ih =>
    rcases h with ⟨hitem, hspan⟩
    obtain ⟨hblank, hmark, -⟩ := of_isListItem hitem
    obtain ⟨next, hnext, hend, htargets⟩ :=
      looseTargets_listSpan rest false (some node) (some node) (fun _ ↦ hitem) Bool.noConfusion
    let list := Node.group .identifierList (node :: rest.take count)
    have hrest := ih next (some list) false (any_isKeyword_of_isListItem hnext "AS").symm
      (fun _ ↦ hend) Bool.noConfusion
    have hcomma : node.isPunctuation "," = false := by
      rw [Node.isPunctuation, hmark, Bool.false_and]
    rw [groupLists, if_pos ⟨hitem, hspan⟩, targetsOfAll_cons rfl, targetsOf_list hitem hspan last,
      hrest, looseTargets_cons hblank, eq_false_of_isListItem hjoined hitem, hcomma, Bool.false_and,
      Bool.false_and, htargets, if_neg Bool.false_ne_true, List.append_assoc]
  | case3 node rest h ih =>
    rw [groupLists, if_neg h]
    cases hblank : node.isBlank with
    | true =>
      have hcount (expectItem : Bool) (hzero : listSpan expectItem (node :: rest) = 0) :
          listSpan expectItem rest = 0 := by
        rw [listSpan.eq_2, if_pos hblank] at hzero
        exact eq_zero_of_countOn hzero
      rw [targetsOfAll_blank hblank, looseTargets_blank hblank]
      exact ih last last' joined has (fun hitem ↦ hcount _ (hlast hitem))
        fun hjoin ↦ hcount _ (hjoined hjoin)
    | false =>
      have hnode := targetsOf_before_groupLists has hjoined
      have hrest := ih (some node) (some node) (node.isPunctuation "," && last.any isListItem) rfl
        ?_ ?_
      · rw [targetsOfAll_cons hblank, looseTargets_cons hblank, hnode, hrest]
      · intro hitem
        exact Nat.eq_zero_of_not_pos fun hpositive ↦ h ⟨hitem, hpositive⟩
      · intro hjoin
        obtain ⟨hcomma, hitem⟩ := Bool.and_eq_true_iff.1 hjoin
        have hzero := hlast hitem
        rw [listSpan.eq_2, hblank, hcomma] at hzero
        exact eq_zero_of_countOn hzero

/-- Grouping lists leaves the targets of assignments. -/
theorem targetsOfAll_groupLists (nodes : List Node) :
    targetsOfAll none (groupLists nodes) = looseTargets none false nodes :=
  targetsOfAll_groupLists_of nodes none none false rfl nofun nofun

/-- Blanks are passed over one after the other. -/
theorem looseTargets_blanks {blanks : List Node} (h : ∀ blank ∈ blanks, blank.isBlank = true)
    (last : Option Node) (joined : Bool) (rest : List Node) :
    looseTargets last joined (blanks ++ rest) = looseTargets last joined rest := by
  induction blanks with
  | nil => rfl
  | cons blank blanks ih =>
    rw [List.forall_mem_cons] at h
    rw [List.cons_append, looseTargets_blank h.1, ih h.2]

end Columns

end SqlFootprint
