import Mathlib.Data.List.Chain
import Mathlib.Data.List.TakeWhile
import SqlFootprint.Proofs.Conditions
import SqlFootprint.Proofs.Values

/-!
# The assignments after `SET`

An assignment is a name, an equals sign and a value. What a search for targets makes of a value is
its `SetOutcome`: whether the name is compared with the value or stands bare before it, what else is
found within the value, whether a `WHERE` in it ends the search, and whether the next comma goes on
with a list. `SetOutcome.targetsOfAll_regroup` says what is found in any number of assignments,
given the outcome of each value, and `SetOutcome.found_eq_map_iff` when that is all the names.
-/

namespace SqlFootprint

open Grouping

/-! ### Up to `WHERE` -/

namespace Columns

/-- The nodes before the first `WHERE`. -/
def untilWhere (nodes : List Node) : List Node :=
  nodes.takeWhile fun node ↦ !node.isKeyword "WHERE"

/-- Nodes without `WHERE` stay before those that are searched behind them. -/
theorem untilWhere_append_of {first : List Node}
    (h : ∀ node ∈ first, node.isKeyword "WHERE" = false) (second : List Node) :
    untilWhere (first ++ second) = first ++ untilWhere second :=
  List.takeWhile_append_of_pos fun node hmem ↦ by rw [h node hmem, Bool.not_false]

/-- Nodes without `WHERE` are searched to their end. -/
theorem untilWhere_eq_self {nodes : List Node}
    (h : ∀ node ∈ nodes, node.isKeyword "WHERE" = false) : untilWhere nodes = nodes :=
  List.takeWhile_eq_self_iff.2 fun node hmem ↦ by rw [h node hmem, Bool.not_false]

/-- A node other than `WHERE` stays before what follows it. -/
theorem untilWhere_cons {node : Node} (h : node.isKeyword "WHERE" = false) (rest : List Node) :
    untilWhere (node :: rest) = node :: untilWhere rest :=
  List.takeWhile_cons_of_pos (by rw [h, Bool.not_false])

/-- Behind nodes with `WHERE` nothing is searched. -/
theorem untilWhere_append_of_any {first : List Node}
    (h : first.any (·.isKeyword "WHERE") = true) (second : List Node) :
    untilWhere (first ++ second) = untilWhere first := by
  rw [untilWhere, List.takeWhile_append, if_neg, untilWhere]
  intro hlength
  have hall := (List.takeWhile_prefix _).eq_of_length hlength
  obtain ⟨node, hmem, hwhere⟩ := List.any_eq_true.1 h
  have hnot := List.takeWhile_eq_self_iff.1 hall node hmem
  rw [hwhere] at hnot
  cases hnot

/-- Nothing is searched from `WHERE` on. -/
theorem untilWhere_append_where (nodes : List Node) (whereWord : Spelled ["WHERE"])
    (rest : List Node) : untilWhere (nodes ++ whereWord.node :: rest) = untilWhere nodes := by
  have hword : whereWord.node.isKeyword "WHERE" = true := whereWord.isKeyword_eq (by decide)
  cases hwhere : nodes.any (·.isKeyword "WHERE") with
  | true => rw [untilWhere_append_of_any hwhere]
  | false =>
    have hnone : ∀ node ∈ nodes, node.isKeyword "WHERE" = false := by simpa using hwhere
    rw [untilWhere_append_of hnone, untilWhere_eq_self hnone, untilWhere,
      List.takeWhile_cons_of_neg (by simp [hword]), List.append_nil]

/-- A semicolon and blanks after it assign nothing. -/
theorem targetsOfAll_semicolon (nodes : List Node) (blanks : List Blank) :
    targetsOfAll none (untilWhere (nodes ++ .punctuation ";" :: Blank.nodes blanks)) =
      targetsOfAll none (untilWhere nodes) := by
  cases hwhere : nodes.any (·.isKeyword "WHERE") with
  | true => rw [untilWhere_append_of_any hwhere]
  | false =>
    have hnone : ∀ node ∈ nodes, node.isKeyword "WHERE" = false := by simpa using hwhere
    have hblanks : ∀ node ∈ Blank.nodes blanks, node.isKeyword "WHERE" = false :=
      Blank.forall_mem_nodes (fun _ ↦ rfl) blanks
    rw [untilWhere_append_of hnone, untilWhere_cons rfl, untilWhere_eq_self hblanks,
      untilWhere_eq_self hnone, targetsOfAll_append_mark rfl rfl,
      targetsOfAll_blanks (Blank.isBlank_nodes blanks), List.append_nil]

/-- What starts with no equals sign does so up to `WHERE`. -/
theorem meets_isEquals_untilWhere {nodes : List Node} (h : Node.meets isEquals nodes = false) :
    Node.meets isEquals (untilWhere nodes) = false := by
  rw [untilWhere, List.prefix_iff_eq_take.1 (List.takeWhile_prefix _)]
  exact Node.meets_take h _

/-- Lists spare the keyword `WHERE`. -/
theorem spares_where : Spares listStep (·.isKeyword "WHERE") :=
  spares_listStep
    (fun _ h ↦ isBarrier_of_isAnyKeyword (Bool.and_eq_true_iff.1 h).1
      (Node.isKeyword_eq_false h (by decide)))
    fun _ h ↦ .inl (Bool.and_eq_true_iff.1 h).1

/-- Up to `WHERE`, grouping lists leaves the targets of assignments. -/
theorem targetsOfAll_untilWhere (nodes : List Node) :
    targetsOfAll none (untilWhere (groupLists nodes)) =
      looseTargets none false (untilWhere nodes) := by
  rw [untilWhere, folds_groupLists.takeWhile_eq spares_where, targetsOfAll_groupLists]
  rfl

private theorem looseTargets_congr {last last' : Option Node}
    (has : last.any (·.isKeyword "AS") = last'.any (·.isKeyword "AS"))
    (hitem : last.any isListItem = last'.any isListItem) (joined : Bool) (nodes : List Node) :
    looseTargets last joined nodes = looseTargets last' joined nodes := by
  induction nodes generalizing last last' joined with
  | nil => rfl
  | cons node rest ih =>
    cases hblank : node.isBlank with
    | true => rw [looseTargets_blank hblank, looseTargets_blank hblank, ih has hitem]
    | false =>
      rw [looseTargets_cons hblank, looseTargets_cons hblank, hitem, targetsOf_congr has rfl]

private theorem looseTargets_append_mark {node : Node} (hmark : node.isAnyPunctuation = true)
    (hcomma : node.isPunctuation "," = false) (hequals : isEquals node = false)
    (last : Option Node) (joined : Bool) (nodes rest : List Node) :
    looseTargets last joined (nodes ++ node :: rest) =
      looseTargets last joined nodes ++ looseTargets (some node) false rest := by
  have hblank := isBlank_of_isAnyPunctuation hmark
  induction nodes generalizing last joined with
  | nil =>
    rw [List.nil_append, looseTargets_cons hblank, targetsOf_mark hmark, ite_self, hcomma,
      Bool.false_and]
    rfl
  | cons first nodes ih =>
    have hmeets : Node.meets isEquals (nodes ++ node :: rest) = Node.meets isEquals nodes :=
      Node.meets_append_cons hblank hequals nodes rest
    rw [List.cons_append, looseTargets, looseTargets, ih, List.append_assoc,
      targetsOf_congr rfl hmeets]

end Columns

/-! ### One assignment -/

/-- The operator between a name and its value. -/
def Assignment.equals : ComparisonOperator := ⟨.equals, by decide⟩

/-- A name that a value is assigned to, up to the equals sign. -/
structure SetTarget where
  /-- The blanks before the name. -/
  before : List Blank
  name : PlainName
  /-- The blanks before the equals sign. -/
  between : List Blank

namespace SetTarget

open Columns (looseTargets)
open Assignment (equals)

/-- The tokens of an assignment, given those of its value. -/
def tokens (target : SetTarget) (value : List Token) : List Token :=
  Blank.tokens target.before ++ (target.name.tokens ++
    (Blank.tokens target.between ++ .symbol equals.symbol :: value))

/-- The nodes of an assignment, given those of its value. -/
def nodes (target : SetTarget) (value : List Node) : List Node :=
  Blank.nodes target.before ++ target.name.node ::
    (Blank.nodes target.between ++ equals.node :: value)

variable (target : SetTarget)

/-- An assignment is read where its value is. -/
theorem front {tokens rest : List Token} {value : List Node} (last : Option Node)
    (hvalue : Front (some equals.node) tokens rest value) :
    Front last (target.tokens tokens) rest (target.nodes value) := by
  have hequals (last : Option Node) (rest : List Token) :
      Front last [.symbol equals.symbol] rest [equals.node] :=
    .leaf rfl Token.noConfusion Token.noConfusion
  have hnext : Apart (Blank.tokens target.between ++ .symbol equals.symbol :: tokens ++ rest) := by
    rw [List.append_assoc]
    exact (apart_cons _ rfl Token.noConfusion Token.noConfusion).append_blanks _
  have hname (last : Option Node) : Front last target.name.tokens _ [target.name.node] :=
    .plainName target.name hnext
  exact (Front.blanks target.before).append
    ((hname _).append ((Front.blanks target.between).append ((hequals _ _).append hvalue)))

private theorem groupAliases_nodes (value : List Node) :
    groupAliases (target.nodes value) = target.nodes (groupAliases value) := by
  have hname : groupAliases (target.name.node :: Blank.nodes target.between) =
      target.name.node :: Blank.nodes target.between := groupAliases_cons_blanks _ _
  have hbars : Bars aliasStep equals.node := bars_aliasStep_punctuation "="
  rw [nodes, folds_groupAliases.append_of_keeps (aliasStep_blanks _), ← List.cons_append,
    folds_groupAliases.append_cons hbars, hname]
  rfl

private theorem groupComparisons_bare {value : List Node} (h : Node.meets isOperand value = false) :
    groupComparisons (target.nodes value) = target.nodes (groupComparisons value) := by
  have hname : comparisonStep target.name.node
      (Blank.nodes target.between ++ equals.node :: value) = none := by
    have hafter : comparisonAfter? (Blank.nodes target.between ++ equals.node :: value) = none := by
      rw [equals.comparisonAfter?_node]
      cases hvalue : Node.significant? value with
      | none => rfl
      | some found =>
        rw [Node.meets, hvalue, Option.any_some] at h
        simp [h]
    rw [comparisonStep, hafter]
    rfl
  have hequals : comparisonStep equals.node value = none := rfl
  rw [nodes, folds_groupComparisons.append_of_keeps (comparisonStep_blanks _),
    folds_groupComparisons.keep hname,
    folds_groupComparisons.append_of_keeps (comparisonStep_blanks _),
    folds_groupComparisons.keep hequals]
  rfl

private theorem groupComparisons_compared {blanks more : List Node} {right : Node}
    (hblanks : ∀ blank ∈ blanks, blank.isBlank = true) (hright : isOperand right = true) :
    ∃ children, groupComparisons (target.nodes (blanks ++ right :: more)) =
      Blank.nodes target.before ++
        .group (.comparison target.name.node "=" right) children :: groupComparisons more := by
  let compared := Blank.nodes target.between ++ equals.node :: (blanks ++ [right])
  have hvalue : Node.significant? (blanks ++ right :: more) = some (right, blanks.length + 1) :=
    Node.significant?_eq_some_iff.2
      ⟨blanks, more, rfl, rfl, hblanks, (of_isListItem (isListItem_of_isOperand hright)).1⟩
  have hafter : Blank.nodes target.between ++ equals.node :: (blanks ++ right :: more) =
      compared ++ more := by
    simp [compared]
  have hfold : comparisonStep target.name.node (compared ++ more) =
      some (.comparison target.name.node "=" right, compared.length) := by
    have hlength : (Blank.nodes target.between ++ [equals.node]).length + (blanks.length + 1) =
        compared.length := by
      simp only [compared, List.length_append, List.length_cons, List.length_nil]
      omega
    rw [← hafter, comparisonStep, equals.comparisonAfter?_node, hvalue, Option.bind_some]
    simp only [hright, ↓reduceIte, hlength]
    rfl
  refine ⟨target.name.node :: compared, ?_⟩
  rw [nodes, folds_groupComparisons.append_of_keeps (comparisonStep_blanks _), hafter,
    folds_groupComparisons.fold hfold, List.take_left, List.drop_left]

private theorem looseTargets_bare {last : Option Node} (has : last.any (·.isKeyword "AS") = false)
    (joined : Bool) (value : List Node) :
    looseTargets last joined (target.nodes value) =
      (if joined then [] else [target.name.lastPart]) ++
        looseTargets (some equals.node) false value := by
  let after := Blank.nodes target.between ++ equals.node :: value
  have hafter : Node.meets Columns.isEquals after = true := by
    rw [Node.meets, Node.significant?_blanks_append target.between equals.node _ rfl]
    rfl
  have htarget : Columns.targetsOf last after target.name.node =
      if !last.any (·.isKeyword "AS") && Node.meets Columns.isEquals after then
        [target.name.lastPart]
      else [] := by
    rw [← target.name.identifier_name]
    rfl
  have hname : target.name.node.identifier?.isSome = true := rfl
  have hcomma : target.name.node.isPunctuation "," = false := rfl
  have hmark : equals.node.isPunctuation "," = false := rfl
  rw [nodes, Columns.looseTargets_blanks (Blank.isBlank_nodes _), Columns.looseTargets_cons rfl,
    hname, hcomma, htarget, has, hafter, Bool.false_and,
    Columns.looseTargets_blanks (Blank.isBlank_nodes _), Columns.looseTargets_cons rfl,
    Columns.targetsOf_mark rfl, ite_self, List.nil_append, hmark, Bool.false_and, Bool.and_true]
  rfl

private theorem looseTargets_compared (last : Option Node) (joined : Bool) (right : Node)
    (children rest : List Node) :
    looseTargets last joined (Blank.nodes target.before ++
        .group (.comparison target.name.node "=" right) children :: rest) =
      target.name.lastPart ::
        looseTargets (some (.group (.comparison target.name.node "=" right) children)) false
          rest := by
  let compared := Node.group (.comparison target.name.node "=" right) children
  have hname : compared.identifier?.isSome = false := rfl
  have htarget (last : Option Node) (rest : List Node) :
      Columns.targetsOf last rest compared = [target.name.lastPart] := by
    rw [← target.name.identifier_name]
    rfl
  have hcomma : compared.isPunctuation "," = false := rfl
  rw [Columns.looseTargets_blanks (Blank.isBlank_nodes _), Columns.looseTargets_cons rfl, hname,
    htarget, hcomma, Bool.false_and, Bool.and_false]
  rfl

end SetTarget

/-! ### What becomes of a value -/

/-- What a search for targets makes of a value. -/
structure SetOutcome where
  /-- The name before the value is compared with it. -/
  compared : Bool
  /-- The columns that are found within the value. -/
  inside : List String
  /-- A `WHERE` in the value ends the search. -/
  cuts : Bool
  /-- The value closes with an item, so that a comma after it goes on with a list. -/
  closes : Bool

open Columns (untilWhere looseTargets isEquals)

/-- The search for targets has the outcome, whatever name stands before the value and whatever
follows it. -/
def Yields (value : List Node) (outcome : SetOutcome) : Prop :=
  ∀ (target : SetTarget) (last : Option Node) (joined : Bool) (rest : List Node),
    last.any (·.isKeyword "AS") = false → Node.meets isEquals rest = false →
    ∃ next : Option Node, next.any isListItem = outcome.closes ∧
      looseTargets last joined (untilWhere (groupComparisons (target.nodes value) ++ rest)) =
        (if joined && !outcome.compared then [] else [target.name.lastPart]) ++
          (outcome.inside ++
            if outcome.cuts then [] else looseTargets next false (untilWhere rest))

namespace Yields

/-- A value that opens with an operand is compared with its name, and nothing more is found. -/
theorem compared {blanks more : List Node} {right : Node}
    (hblanks : ∀ blank ∈ blanks, blank.isBlank = true) (hright : isOperand right = true)
    (hmore : ∀ node ∈ more, isQuiet node = true) :
    Yields (blanks ++ right :: more)
      ⟨true, [], false, (lastOf (some right) more).any isListItem⟩ := by
  intro target last joined rest has hrest
  obtain ⟨children, hgroup⟩ := target.groupComparisons_compared hblanks hright
  let comparison := Node.group (.comparison target.name.node "=" right) children
  have hself : groupComparisons more = more := groupComparisons_eq_self fun node hmem ↦
    (isPunctuation_of_isQuiet (hmore node hmem)).1
  have hitem : (some comparison).any isListItem = (some right).any isListItem :=
    (isListItem_of_isOperand hright).symm
  have huntil : untilWhere (groupComparisons (target.nodes (blanks ++ right :: more)) ++ rest) =
      Blank.nodes target.before ++ comparison :: (more ++ untilWhere rest) := by
    have hbefore : ∀ node ∈ Blank.nodes target.before, node.isKeyword "WHERE" = false :=
      Blank.forall_mem_nodes (fun _ ↦ rfl) target.before
    rw [hgroup, hself, List.append_assoc, Columns.untilWhere_append_of hbefore, List.cons_append,
      Columns.untilWhere_cons rfl,
      Columns.untilWhere_append_of fun node hmem ↦ isKeyword_of_isQuiet (hmore node hmem)]
  refine ⟨lastOf (some comparison) more, any_lastOf_congr hitem more, ?_⟩
  rw [huntil, target.looseTargets_compared,
    looseTargets_quiet hmore _ (Columns.meets_isEquals_untilWhere hrest), Bool.not_true,
    Bool.and_false]
  rfl

/-- The name before a value that opens with no operand stands bare, and the value is searched on its
own. -/
theorem bare {value : List Node} (hvalue : Node.meets isOperand value = false)
    {inside : List String} {cuts closes : Bool}
    (h : ∀ rest, Node.meets isEquals rest = false → ∃ next : Option Node,
      next.any isListItem = closes ∧
        looseTargets (some Assignment.equals.node) false
            (untilWhere (groupComparisons value ++ rest)) =
          inside ++ if cuts then [] else looseTargets next false (untilWhere rest)) :
    Yields value ⟨false, inside, cuts, closes⟩ := by
  intro target last joined rest has hrest
  obtain ⟨next, hnext, htargets⟩ := h rest hrest
  have huntil : untilWhere (groupComparisons (target.nodes value) ++ rest) =
      target.nodes (untilWhere (groupComparisons value ++ rest)) := by
    have hblanks (blanks : List Blank) :
        ∀ node ∈ Blank.nodes blanks, node.isKeyword "WHERE" = false :=
      Blank.forall_mem_nodes (fun _ ↦ rfl) blanks
    rw [target.groupComparisons_bare hvalue, SetTarget.nodes, List.append_assoc,
      Columns.untilWhere_append_of (hblanks _), List.cons_append, Columns.untilWhere_cons rfl,
      List.append_assoc, Columns.untilWhere_append_of (hblanks _), List.cons_append,
      Columns.untilWhere_cons rfl]
    rfl
  refine ⟨next, hnext, ?_⟩
  rw [huntil, target.looseTargets_bare has, htargets, Bool.not_false, Bool.and_true]

/-- In a value that opens with no operand and is grouped to comparisons and quiet nodes, the columns
that are compared are found. -/
theorem settled {value grouped : List Node} (hgroup : groupComparisons value = grouped)
    (hsettled : ∀ node ∈ grouped, isSettled node = true)
    (hvalue : Node.meets isOperand value = false) :
    Yields value
      ⟨false, grouped.flatMap comparedNames, false, (lastOf none grouped).any isListItem⟩ := by
  refine bare hvalue fun rest hrest ↦ ?_
  have hitem : (some Assignment.equals.node).any isListItem = (none : Option Node).any isListItem :=
    rfl
  have hwhere : ∀ node ∈ grouped, node.isKeyword "WHERE" = false :=
    fun node hmem ↦ (of_isSettled (hsettled node hmem)).2.2
  refine ⟨lastOf (some Assignment.equals.node) grouped, any_lastOf_congr hitem grouped, ?_⟩
  rw [hgroup, Columns.untilWhere_append_of hwhere,
    looseTargets_settled hsettled _ (Columns.meets_isEquals_untilWhere hrest),
    if_neg Bool.false_ne_true]

/-- In a value that opens with no operand and has neither comparisons nor lists, nothing is
found. -/
theorem quiet {value : List Node} (hquiet : ∀ node ∈ value, isQuiet node = true)
    (hvalue : Node.meets isOperand value = false) :
    Yields value ⟨false, [], false, (lastOf none value).any isListItem⟩ := by
  have hself : groupComparisons value = value := groupComparisons_eq_self fun node hmem ↦
    (isPunctuation_of_isQuiet (hquiet node hmem)).1
  have hnone : value.flatMap comparedNames = [] :=
    List.flatMap_eq_nil_iff.2 fun node hmem ↦ (of_isQuiet (hquiet node hmem)).2
  rw [← hnone]
  exact settled hself (fun node hmem ↦ (of_isQuiet (hquiet node hmem)).1) hvalue

private theorem groupComparisons_parens (blanks after : List Blank) (inner : List Node) :
    groupComparisons (Blank.nodes blanks ++
        .punctuation "(" :: (inner ++ .punctuation ")" :: Blank.nodes after)) =
      Blank.nodes blanks ++
        .punctuation "(" :: (groupComparisons inner ++ .punctuation ")" :: Blank.nodes after) := by
  have hopen : Bars comparisonStep (.punctuation "(") := bars_comparisonStep rfl rfl rfl
  have hclose : Bars comparisonStep (.punctuation ")") := bars_comparisonStep rfl rfl rfl
  have hself (blanks : List Blank) : groupComparisons (Blank.nodes blanks) = Blank.nodes blanks :=
    folds_groupComparisons.eq_self_of_keeps (comparisonStep_blanks blanks)
  rw [folds_groupComparisons.append_cons hopen, folds_groupComparisons.append_cons hclose, hself,
    hself]

private theorem looseTargets_parens (last : Option Node) (blanks after : List Blank)
    (inner rest : List Node) :
    looseTargets last false (untilWhere (Blank.nodes blanks ++
        .punctuation "(" :: (inner ++ .punctuation ")" :: (Blank.nodes after ++ rest)))) =
      looseTargets (some (.punctuation "(")) false (untilWhere inner) ++
        if inner.any (·.isKeyword "WHERE") then []
        else looseTargets (some (.punctuation ")")) false (untilWhere rest) := by
  have hblanks (blanks : List Blank) :
      ∀ node ∈ Blank.nodes blanks, node.isKeyword "WHERE" = false :=
    Blank.forall_mem_nodes (fun _ ↦ rfl) blanks
  have hcomma : (Node.punctuation "(").isPunctuation "," = false := rfl
  rw [Columns.untilWhere_append_of (hblanks blanks), Columns.untilWhere_cons rfl,
    Columns.looseTargets_blanks (Blank.isBlank_nodes _), Columns.looseTargets_cons rfl,
    Columns.targetsOf_mark rfl, ite_self, List.nil_append, hcomma, Bool.false_and]
  cases hwhere : inner.any (·.isKeyword "WHERE") with
  | true => rw [Columns.untilWhere_append_of_any hwhere, if_pos rfl, List.append_nil]
  | false =>
    have hnone : ∀ node ∈ inner, node.isKeyword "WHERE" = false := by simpa using hwhere
    rw [Columns.untilWhere_append_of hnone, Columns.untilWhere_cons rfl,
      Columns.untilWhere_append_of (hblanks after), Columns.untilWhere_eq_self hnone,
      Columns.looseTargets_append_mark rfl rfl rfl,
      Columns.looseTargets_blanks (Blank.isBlank_nodes _), if_neg Bool.false_ne_true]

/-- In parentheses, what the nodes assign up to their first `WHERE` is found. -/
theorem parens (blanks after : List Blank) (raw : List Node) :
    Yields (Blank.nodes blanks ++
        .punctuation "(" :: (groupAliases raw ++ .punctuation ")" :: Blank.nodes after))
      ⟨false, Columns.targetsOfAll none (untilWhere (regroup raw)),
        (regroup raw).any (·.isKeyword "WHERE"), false⟩ := by
  let inner := groupComparisons (groupAliases raw)
  have hvalue (rest : List Node) :
      Node.meets isOperand (Blank.nodes blanks ++ .punctuation "(" :: rest) = false := by
    rw [Node.meets, Node.significant?_blanks_append blanks (.punctuation "(") rest rfl]
    rfl
  have hinside : Columns.targetsOfAll none (untilWhere (regroup raw)) =
      looseTargets (some (.punctuation "(")) false (untilWhere inner) := by
    rw [regroup, Columns.targetsOfAll_untilWhere]
    apply Columns.looseTargets_congr
    · rfl
    · rfl
  have hwhere : (regroup raw).any (·.isKeyword "WHERE") = inner.any (·.isKeyword "WHERE") :=
    folds_groupLists.any_eq Columns.spares_where inner
  refine bare (hvalue _) fun rest _ ↦ ⟨some (.punctuation ")"), rfl, ?_⟩
  rw [groupComparisons_parens, hinside, hwhere, ← looseTargets_parens _ blanks after inner rest,
    List.append_assoc, List.cons_append, List.append_assoc, List.cons_append]

end Yields

/-! ### All assignments -/

namespace SetOutcome

variable {α : Type} (target : α → SetTarget) (outcome : α → SetOutcome)

/-- What is found in assignments, given what becomes of their values: after a value that closes with
an item, a name that is not compared is taken into a list, and after a `WHERE` nothing is found. -/
def found (afterItem : Bool) : List α → List String
  | [] => []
  | item :: more =>
    (if afterItem && !(outcome item).compared then [] else [(target item).name.lastPart]) ++
      ((outcome item).inside ++
        if (outcome item).cuts then [] else found (outcome item).closes more)

variable {target outcome}

private theorem length_found_le {items : List α}
    (hinside : ∀ item ∈ items, (outcome item).inside = [])
    (afterItem : Bool) : (found target outcome afterItem items).length ≤ items.length := by
  induction items generalizing afterItem with
  | nil => exact Nat.le_refl 0
  | cons item more ih =>
    rw [List.forall_mem_cons] at hinside
    have hmore := ih hinside.2 (outcome item).closes
    have hname : (if afterItem && !(outcome item).compared then []
        else [(target item).name.lastPart]).length ≤ 1 := by
      split
      · exact Nat.zero_le 1
      · exact Nat.le_refl 1
    have hrest : (if (outcome item).cuts then []
        else found target outcome (outcome item).closes more).length ≤ more.length := by
      split
      · exact Nat.zero_le _
      · exact hmore
    rw [found, hinside.1, List.nil_append, List.length_append, List.length_cons]
    omega

/-- Where nothing is found within the values, all names are found behind an item exactly if the
first is compared, after each value that closes with an item the next name is compared, and only the
last value has a `WHERE`. -/
theorem found_eq_map_iff_after {items : List α}
    (hinside : ∀ item ∈ items, (outcome item).inside = []) (afterItem : Bool) :
    found target outcome afterItem items = items.map (fun item ↦ (target item).name.lastPart) ↔
      (afterItem = true → ∀ item ∈ items.head?, (outcome item).compared = true) ∧
        (items.IsChain fun first second ↦
          (outcome first).closes = true → (outcome second).compared = true) ∧
        ∀ item ∈ items.dropLast, (outcome item).cuts = false := by
  induction items generalizing afterItem with
  | nil => simp [found]
  | cons item more ih =>
    rw [List.forall_mem_cons] at hinside
    have hmore := ih hinside.2 (outcome item).closes
    rw [found, hinside.1, List.nil_append, List.map_cons]
    by_cases hlost : (afterItem && !(outcome item).compared) = true
    -- Without the first name there are too few for all assignments.
    · have hlength : (found target outcome (outcome item).closes more).length ≤ more.length :=
        length_found_le hinside.2 _
      rw [if_pos hlost, List.nil_append]
      obtain ⟨rfl, hbare⟩ := Bool.and_eq_true_iff.1 hlost
      constructor
      · intro heq
        have hcount := congrArg List.length heq
        rw [List.length_cons, List.length_map] at hcount
        split at hcount
        · cases hcount
        · omega
      · rintro ⟨hfirst, -⟩
        rw [hfirst rfl item rfl] at hbare
        cases hbare
    · have hfirst : afterItem = true → ∀ other ∈ (item :: more).head?,
          (outcome other).compared = true := by
        rintro rfl other ⟨⟩
        simpa using hlost
      rw [if_neg hlost, List.singleton_append, List.cons_inj_right, and_iff_right hfirst]
      cases more with
      | nil => simp [found]
      | cons next more =>
        rw [List.isChain_cons_cons, List.dropLast_cons_cons, List.forall_mem_cons]
        cases hcuts : (outcome item).cuts with
        | true => simp
        | false =>
          rw [if_neg Bool.false_ne_true, hmore]
          simp [and_assoc]

/-- Where nothing is found within the values, all names are found exactly if after each value that
closes with an item the next name is compared, and only the last value has a `WHERE`. -/
theorem found_eq_map_iff {items : List α} (hinside : ∀ item ∈ items, (outcome item).inside = []) :
    found target outcome false items = items.map (fun item ↦ (target item).name.lastPart) ↔
      (items.IsChain fun first second ↦
          (outcome first).closes = true → (outcome second).compared = true) ∧
        ∀ item ∈ items.dropLast, (outcome item).cuts = false :=
  (found_eq_map_iff_after hinside false).trans
    (and_iff_right fun hafter ↦ absurd hafter Bool.false_ne_true)

private theorem looseTargets_further {value : α → List Node}
    (h : ∀ item, Yields (value item) (outcome item)) (items : List α) (last : Option Node) :
    looseTargets last false (untilWhere (items.flatMap fun item ↦
        .punctuation "," :: groupComparisons ((target item).nodes (value item)))) =
      found target outcome (last.any isListItem) items := by
  induction items generalizing last with
  | nil => rfl
  | cons item items ih =>
    let rest := items.flatMap fun item ↦
      .punctuation "," :: groupComparisons ((target item).nodes (value item))
    have hrest : Node.meets isEquals rest = false := by
      cases items with
      | nil => rfl
      | cons item items => rfl
    have hcomma : (Node.punctuation ",").isPunctuation "," = true := rfl
    have has : (some (Node.punctuation ",")).any (·.isKeyword "AS") = false := rfl
    obtain ⟨next, hnext, htargets⟩ := h item (target item) _ (last.any isListItem) rest has hrest
    rw [List.flatMap_cons, List.cons_append, Columns.untilWhere_cons rfl,
      Columns.looseTargets_cons rfl, Columns.targetsOf_mark rfl, ite_self, List.nil_append, hcomma,
      Bool.true_and, found, ← hnext, ← ih next]
    exact htargets

/-- The targets of assignments are those that are found from the first on. -/
theorem targetsOfAll_regroup {raw : α → List Node}
    (h : ∀ item, Yields (groupAliases (raw item)) (outcome item)) (items : CommaList α) :
    Columns.targetsOfAll none (untilWhere (regroup
        (items.joined (.punctuation ",") fun item ↦ (target item).nodes (raw item)))) =
      found target outcome false items.things := by
  have hcomma : Bars comparisonStep (.punctuation ",") := bars_comparisonStep rfl rfl rfl
  let grouped (item : α) : List Node :=
    groupComparisons ((target item).nodes (groupAliases (raw item)))
  have hgroup : groupComparisons (groupAliases
      (items.joined (.punctuation ",") fun item ↦ (target item).nodes (raw item))) =
        grouped items.first ++ items.more.flatMap fun item ↦ .punctuation "," :: grouped item := by
    rw [folds_groupAliases.joined (bars_aliasStep_punctuation ",")
        fun item ↦ (target item).groupAliases_nodes (raw item),
      folds_groupComparisons.joined hcomma fun _ ↦ rfl]
    rfl
  have has : (none : Option Node).any (·.isKeyword "AS") = false := rfl
  have hrest : Node.meets isEquals (items.more.flatMap fun item ↦
      .punctuation "," :: grouped item) = false := by
    cases items.more with
    | nil => rfl
    | cons item more => rfl
  obtain ⟨next, hnext, htargets⟩ := h items.first (target items.first) none false _ has hrest
  rw [regroup, Columns.targetsOfAll_untilWhere, hgroup, CommaList.things, found, ← hnext,
    ← looseTargets_further h items.more next]
  exact htargets

end SetOutcome

end SqlFootprint
