import SqlFootprint.Proofs.Clauses

/-!
# Lists of items in a statement

An item of a list is a phrase that a level reads on its own and that takes its alias before the list
is grouped (`ItemPhrase`). Items with commas between them are grouped to one node, which has the
items in their order (`ItemPhrase.makes_list`, `items_node`), however many there are and whatever
blanks stand around them.
-/

namespace SqlFootprint

/-! ### Lists with commas -/

/-- Something with blanks around it. -/
structure Padded (α : Type) where
  before : List Blank
  item : α
  after : List Blank

/-- One thing or more with commas between them. -/
structure CommaList (α : Type) where
  first : α
  more : List α

namespace Padded

variable {α : Type}

/-- The tokens, given those of the inner part. -/
def tokens (inner : α → List Token) (cell : Padded α) : List Token :=
  Blank.tokens cell.before ++ (inner cell.item ++ Blank.tokens cell.after)

/-- The nodes, given those of the inner part. -/
def nodes (inner : α → List Node) (cell : Padded α) : List Node :=
  Blank.nodes cell.before ++ (inner cell.item ++ Blank.nodes cell.after)

end Padded

namespace CommaList

variable {α : Type}

/-- The things in the list, one after the other. -/
def things (list : CommaList α) : List α := list.first :: list.more

/-- What the things are in a row, with commas between them. -/
def joined {β : Type} (comma : β) (inner : α → List β) (list : CommaList α) : List β :=
  inner list.first ++ list.more.flatMap fun thing ↦ comma :: inner thing

/-- The things in the list without the blanks around them. -/
def items (list : CommaList (Padded α)) : List α := list.things.map Padded.item

/-- The tokens, given those of each thing. -/
def tokens (inner : α → List Token) (list : CommaList (Padded α)) : List Token :=
  list.joined .comma (·.tokens inner)

/-- The nodes side by side, given those of each thing. -/
def spread (inner : α → List Node) (list : CommaList (Padded α)) : List Node :=
  list.joined (.punctuation ",") (·.nodes inner)

/-- The nodes after the first thing. -/
def following (inner : α → Node) (first : Padded α) : List (Padded α) → List Node
  | [] => Blank.nodes first.after
  | next :: more =>
    Blank.nodes first.after ++
      .punctuation "," :: (Blank.nodes next.before ++ inner next.item :: following inner next more)

/-- The nodes from the first thing to the last. -/
def children (inner : α → Node) (first : Padded α) : List (Padded α) → List Node
  | [] => [inner first.item]
  | next :: more =>
    inner first.item :: (Blank.nodes first.after ++
      .punctuation "," :: (Blank.nodes next.before ++ children inner next more))

/-- The node of the list: a single thing stands for itself. -/
def node (inner : α → Node) (list : CommaList (Padded α)) : Node :=
  if list.more.isEmpty then inner list.first.item
  else .group .identifierList (children inner list.first list.more)

/-- The blanks after the last thing. -/
def lastBlanks (list : CommaList (Padded α)) : List Blank := (list.more.getLastD list.first).after

/-- The nodes of the list with the blanks around it. -/
def nodes (inner : α → Node) (list : CommaList (Padded α)) : List Node :=
  Blank.nodes list.first.before ++ list.node inner :: Blank.nodes list.lastBlanks

/-- What is so for blanks, commas and the nodes of all things is so for all nodes of the list. -/
theorem forall_mem_spread {P : Node → Prop}
    (hblank : ∀ blank : Blank, P (.leaf .blank blank.render)) (hcomma : P (.punctuation ","))
    {inner : α → List Node} {list : CommaList (Padded α)}
    (hinner : ∀ item ∈ list.items, ∀ node ∈ inner item, P node) :
    ∀ node ∈ list.spread inner, P node := by
  have hcell : ∀ cell ∈ list.things, ∀ node ∈ cell.nodes inner, P node := by
    intro cell hmem
    rw [Padded.nodes, List.forall_mem_append, List.forall_mem_append]
    exact ⟨Blank.forall_mem_nodes hblank _, hinner _ (List.mem_map_of_mem hmem),
      Blank.forall_mem_nodes hblank _⟩
  rw [things, List.forall_mem_cons] at hcell
  rw [spread, joined, List.forall_mem_append, List.forall_mem_flatMap]
  exact ⟨hcell.1, fun cell hmem ↦ List.forall_mem_cons.2 ⟨hcomma, hcell.2 cell hmem⟩⟩

end CommaList

namespace Grouping

variable {α : Type}

/-! ### Grouping a list -/

/-- An item is no keyword. -/
theorem isAnyKeyword_of_isListItem {node : Node} (h : isListItem node = true) :
    node.isAnyKeyword = false := by
  cases node with
  | mk kind text children =>
    cases kind with
    | keyword => cases h
    | _ => rfl

/-- An item is no blank, no mark and no list. -/
theorem of_isListItem {node : Node} (h : isListItem node = true) :
    node.isBlank = false ∧ node.isAnyPunctuation = false ∧ node.isList = false := by
  cases node with
  | mk kind text children =>
    cases kind with
    | keyword => cases h
    | identifierList => cases h
    | punctuation => cases h
    | blank => cases h
    | _ => exact ⟨rfl, rfl, rfl⟩

/-- One more node counts where any are counted. -/
theorem countOn_eq {count : Nat} (h : 0 < count) : countOn count = count + 1 := by
  cases count with
  | zero => cases h
  | succ count => rfl

private theorem listSpan_blanks {expectItem : Bool} (blanks : List Blank) {rest : List Node}
    (h : 0 < listSpan expectItem rest) :
    listSpan expectItem (Blank.nodes blanks ++ rest) =
      (Blank.nodes blanks).length + listSpan expectItem rest := by
  induction blanks with
  | nil => simp [Blank.nodes]
  | cons blank blanks ih =>
    have hcons : listSpan expectItem (Blank.nodes (blank :: blanks) ++ rest) =
        countOn (listSpan expectItem (Blank.nodes blanks ++ rest)) := rfl
    have hlength : (Blank.nodes (blank :: blanks)).length = (Blank.nodes blanks).length + 1 := rfl
    rw [hcons, ih, hlength, countOn_eq (by omega)]
    omega

/-- An item after a comma belongs to the list. -/
theorem listSpan_item {node : Node} (h : isListItem node = true) (rest : List Node) :
    listSpan true (node :: rest) = listSpan false rest + 1 := by
  rw [listSpan, (of_isListItem h).1, h, Nat.add_comm]
  rfl

private theorem listSpan_comma {rest : List Node} (h : 0 < listSpan true rest) :
    listSpan false (.punctuation "," :: rest) = listSpan true rest + 1 := countOn_eq h

private theorem following_eq_children (inner : α → Node) (first : Padded α)
    (more : List (Padded α)) :
    inner first.item :: CommaList.following inner first more =
      CommaList.children inner first more ++ Blank.nodes (more.getLastD first).after := by
  induction more generalizing first with
  | nil => rfl
  | cons next more ih =>
    have hnext := ih next
    simp only [CommaList.children, CommaList.following, List.cons_append, List.append_assoc,
      List.getLastD_cons, hnext]

/-- Blanks before what belongs to no list belong to none. -/
theorem listSpan_blanks_eq_zero {expectItem : Bool} (blanks : List Blank) {rest : List Node}
    (h : listSpan expectItem rest = 0) :
    listSpan expectItem (Blank.nodes blanks ++ rest) = 0 := by
  induction blanks with
  | nil => exact h
  | cons blank blanks ih =>
    have hcons : listSpan expectItem (Blank.nodes (blank :: blanks) ++ rest) =
        countOn (listSpan expectItem (Blank.nodes blanks ++ rest)) := rfl
    rw [hcons, ih]
    rfl

private theorem listSpan_following {inner : α → Node}
    (hitem : ∀ item, isListItem (inner item) = true)
    (first : Padded α) (more : List (Padded α)) {tail : List Node}
    (htail : listSpan false tail = 0) :
    listSpan false (CommaList.following inner first more ++ tail) + 1 =
      (CommaList.children inner first more).length := by
  induction more generalizing first with
  | nil =>
    rw [CommaList.following, listSpan_blanks_eq_zero first.after htail]
    rfl
  | cons next more ih =>
    let rest := inner next.item :: (CommaList.following inner next more ++ tail)
    have hnext := ih next
    have hitem : listSpan true rest = _ := listSpan_item (hitem next.item) _
    have hpositive : 0 < listSpan true rest := by omega
    have hbefore := listSpan_blanks next.before hpositive
    have hcomma : listSpan false (.punctuation "," :: (Blank.nodes next.before ++ rest)) = _ :=
      listSpan_comma (by omega)
    have hpositive :
        0 < listSpan false (.punctuation "," :: (Blank.nodes next.before ++ rest)) := by
      omega
    have hafter := listSpan_blanks first.after hpositive
    rw [CommaList.following, CommaList.children, List.append_assoc, List.cons_append,
      List.append_assoc, List.cons_append, hafter]
    simp only [List.length_cons, List.length_append]
    omega

/-- The nodes of a list are its first thing and what follows it, with blanks before. -/
theorem spread_eq (inner : α → Node) (list : CommaList (Padded α)) :
    (list.spread fun item ↦ [inner item]) = Blank.nodes list.first.before ++
      inner list.first.item :: CommaList.following inner list.first list.more := by
  have hfollowing (first : Padded α) (more : List (Padded α)) :
      CommaList.following inner first more = Blank.nodes first.after ++ more.flatMap fun cell ↦
        .punctuation "," :: cell.nodes fun item ↦ [inner item] := by
    induction more generalizing first with
    | nil => simp [CommaList.following]
    | cons next more ih =>
      rw [CommaList.following, ih next]
      simp [Padded.nodes]
  rw [hfollowing]
  simp [CommaList.spread, CommaList.joined, Padded.nodes]

/-- Items with commas between them are grouped to one node, where no comma follows. -/
theorem groupLists_spread_append {inner : α → Node}
    (hitem : ∀ item, isListItem (inner item) = true) (list : CommaList (Padded α))
    {tail : List Node} (htail : listSpan false tail = 0) :
    groupLists ((list.spread fun item ↦ [inner item]) ++ tail) =
      list.nodes inner ++ groupLists tail := by
  have hspan := listSpan_following hitem list.first list.more htail
  have hchildren := following_eq_children inner list.first list.more
  have hblanks := folds_groupLists.append_of_keeps (listStep_blanks list.lastBlanks) tail
  rw [spread_eq, List.append_assoc, folds_groupLists.append_of_keeps (listStep_blanks _),
    CommaList.nodes, CommaList.node, List.append_assoc, List.cons_append, List.cons_append]
  congr 1
  cases hmore : list.more with
  | nil =>
    rw [hmore] at hspan hchildren
    have hkeep : listStep (inner list.first.item)
        (CommaList.following inner list.first [] ++ tail) = none := by
      have hzero : listSpan false (CommaList.following inner list.first [] ++ tail) = 0 :=
        Nat.succ.inj hspan
      rw [listStep, hzero, if_neg (by simp)]
    rw [folds_groupLists.keep hkeep]
    rw [CommaList.lastBlanks, hmore] at hblanks ⊢
    exact congrArg (List.cons _) hblanks
  | cons next more =>
    rw [hmore] at hspan hchildren
    let rest := Blank.nodes list.first.after ++
      .punctuation "," :: (Blank.nodes next.before ++ CommaList.children inner next more)
    have hcount : listSpan false (CommaList.following inner list.first (next :: more) ++ tail) =
        rest.length := Nat.succ.inj hspan
    have hfollowing : CommaList.following inner list.first (next :: more) ++ tail =
        rest ++ (Blank.nodes list.lastBlanks ++ tail) := by
      rw [← List.append_assoc, CommaList.lastBlanks, hmore]
      exact congrArg (· ++ tail) (List.tail_eq_of_cons_eq hchildren)
    have hpositive : 0 < rest.length := by
      simp only [rest, List.length_append, List.length_cons]
      omega
    have hfold : listStep (inner list.first.item)
        (CommaList.following inner list.first (next :: more) ++ tail) =
        some (.identifierList, rest.length) := by
      rw [listStep, hcount, if_pos ⟨hitem _, hpositive⟩]
    rw [folds_groupLists.fold hfold, hfollowing, List.take_left, List.drop_left, hblanks]
    rfl

/-- Items with commas between them are grouped to one node. -/
theorem groupLists_spread {inner : α → Node} (hitem : ∀ item, isListItem (inner item) = true)
    (list : CommaList (Padded α)) :
    groupLists (list.spread fun item ↦ [inner item]) = list.nodes inner := by
  have happend : groupLists ((list.spread fun item ↦ [inner item]) ++ []) =
      list.nodes inner ++ groupLists [] := groupLists_spread_append hitem list rfl
  rwa [List.append_nil, folds_groupLists.nil, List.append_nil] at happend

/-- The items of a list are its things in their order. -/
theorem items_node {inner : α → Node} (hitem : ∀ item, isListItem (inner item) = true)
    (list : CommaList (Padded α)) : (list.node inner).items = list.items.map inner := by
  have hkept (item : α) : (!(inner item).isBlank && !(inner item).isAnyPunctuation) = true := by
    rw [(of_isListItem (hitem item)).1, (of_isListItem (hitem item)).2.1]
    rfl
  have hblanks (blanks : List Blank) :
      (Blank.nodes blanks).filter (fun child ↦ !child.isBlank && !child.isAnyPunctuation) = [] := by
    apply List.filter_eq_nil_iff.2
    intro node hmem
    rw [Blank.isBlank_nodes blanks node hmem]
    nofun
  have hchildren (first : Padded α) (more : List (Padded α)) :
      (CommaList.children inner first more).filter
        (fun child ↦ !child.isBlank && !child.isAnyPunctuation) =
          (first :: more).map fun cell ↦ inner cell.item := by
    induction more generalizing first with
    | nil => simp [CommaList.children, hkept]
    | cons next more ih =>
      have hcomma : (!(Node.punctuation ",").isBlank &&
          !(Node.punctuation ",").isAnyPunctuation) = false := rfl
      simp only [CommaList.children, List.filter_cons, List.filter_append, hkept, hblanks, hcomma,
        ↓reduceIte, List.nil_append, ih, List.map_cons, Bool.false_eq_true]
  rw [CommaList.node, CommaList.items, CommaList.things, List.map_map]
  cases hmore : list.more with
  | nil =>
    rw [List.isEmpty_nil, if_pos rfl, Node.items, (of_isListItem (hitem _)).2.2]
    rfl
  | cons next more =>
    rw [List.isEmpty_cons, if_neg (by nofun)]
    exact hchildren list.first (next :: more)

/-- A name is an item. -/
theorem isListItem_of_identifier? {node : Node} {name : String}
    (h : node.identifier?.map Identifier.name = some name) : isListItem node = true := by
  cases node with
  | mk kind text children =>
    cases kind with
    | identifier => rfl
    | _ => cases h

/-- A list of names is a name or a list, and its names are those of the things in it. -/
theorem isName_node {inner : α → Node} {name : α → String}
    (hname : ∀ item, (inner item).identifier?.map Identifier.name = some (name item))
    (list : CommaList (Padded α)) :
    (list.node inner).isName = true ∧ (list.node inner).realNames = list.items.map name := by
  have hitem (item : α) : isListItem (inner item) = true := isListItem_of_identifier? (hname item)
  constructor
  · rw [CommaList.node]
    split
    · have hidentifier := congrArg Option.isSome (hname list.first.item)
      rw [Option.isSome_map] at hidentifier
      rw [Node.isName, hidentifier]
      rfl
    · rfl
  · rw [Node.realNames, items_node hitem, List.filterMap_map]
    simp only [Function.comp_def, hname, List.filterMap_eq_map']

/-- The node of a list is no keyword. -/
theorem isAnyKeyword_node {inner : α → Node} (hitem : ∀ item, isListItem (inner item) = true)
    (list : CommaList (Padded α)) : (list.node inner).isAnyKeyword = false := by
  rw [CommaList.node]
  split
  · exact isAnyKeyword_of_isListItem (hitem _)
  · rfl

/-! ### Items -/

/-- An item may start after the node: no operand ends there, and it is not `INTO`. -/
def startsItem (last : Option Node) : Bool := !endsOperand last && !follows last "INTO"

/-- Where an item may start, no operand ends and no table is inserted into. -/
theorem startsItem_iff {last : Option Node} :
    startsItem last = true ↔ endsOperand last = false ∧ follows last "INTO" = false := by
  simp [startsItem]

/-- An item may start after a keyword other than `INTO`. -/
theorem startsItem_keyword {words : List String} (word : Spelled words)
    (h : ∀ entry ∈ words, Text.sameWord entry "INTO" = false) :
    startsItem (some word.node) = true := by
  have hinto : word.node.isKeyword "INTO" = false := word.isKeyword_eq h
  exact startsItem_iff.2 ⟨rfl, hinto⟩

section

variable {mark : α → Token} {node : α → Node} {Ends : List Token → Prop}
  (hends : ∀ thing more, Ends (mark thing :: more))

include hends

/-- What ends before every mark and before the rest ends before things with a mark before each. -/
theorem ends_marked (tokens : α → List Token) {rest : List Token} (hrest : Ends rest)
    (things : List α) : Ends (things.flatMap (fun thing ↦ mark thing :: tokens thing) ++ rest) := by
  cases things with
  | nil => exact hrest
  | cons thing things => exact hends thing _

/-- Things with a mark before each are read one after the other, where each is read after its mark
and before what may follow the last. -/
theorem front_marked {tokens : α → List Token} {nodes : α → List Node}
    (hmark : ∀ thing last rest, Front last [mark thing] rest [node thing])
    (hsolid : ∀ thing, (node thing).isBlank = false)
    (hthing : ∀ thing rest, Ends rest →
      Front (some (node thing)) (tokens thing) rest (nodes thing))
    {last : Option Node} {rest : List Token} (hrest : Ends rest) (things : List α) :
    Front last (things.flatMap fun thing ↦ mark thing :: tokens thing) rest
      (things.flatMap fun thing ↦ node thing :: nodes thing) := by
  induction things generalizing last with
  | nil => exact .nil
  | cons thing things ih =>
    have hlast : lastOf last [node thing] = some (node thing) := by
      simp [lastOf, Node.lastSignificant, hsolid thing]
    have hread := hthing thing _ (ends_marked hends tokens hrest things)
    rw [← hlast] at hread
    exact ((hmark thing last _).append hread).append ih

end

/-- Things with commas between them are read one after the other, where each is read after a comma
and after what the first follows, and before a comma and before what follows the last. -/
theorem front_joined {tokens : α → List Token} {nodes : α → List Node}
    (Starts : Option Node → Prop) {Ends : List Token → Prop}
    (hmark : Starts (some (.punctuation ","))) (hcomma : ∀ more, Ends (.comma :: more))
    (hthing : ∀ last rest, Starts last → Ends rest →
      ∀ thing, Front last (tokens thing) rest (nodes thing))
    {last : Option Node} {rest : List Token} (hlast : Starts last) (hrest : Ends rest)
    (list : CommaList α) :
    Front last (list.joined .comma tokens) rest (list.joined (.punctuation ",") nodes) := by
  have hends (_ : α) (more : List Token) : Ends (.comma :: more) := hcomma more
  have hread (_ : α) (last : Option Node) (rest : List Token) :
      Front last [.comma] rest [.punctuation ","] :=
    .leaf rfl Token.noConfusion Token.noConfusion
  have hfirst := hthing _ _ hlast (ends_marked hends tokens hrest list.more) list.first
  exact hfirst.append (front_marked hends hread (fun _ ↦ rfl)
    (fun thing rest hrest ↦ hthing _ rest hmark hrest thing) hrest list.more)

/-- Where marks bar groups, things with a mark before each are grouped one by one. -/
theorem Folds.marked {step : Step} {pass : List Node → List Node} (h : Folds step pass)
    {mark : α → Node} (hbars : ∀ thing, Bars step (mark thing)) {inner grouped : α → List Node}
    (hthing : ∀ thing, pass (inner thing) = grouped thing) (before : List Node)
    (things : List α) :
    pass (before ++ things.flatMap fun thing ↦ mark thing :: inner thing) =
      pass before ++ things.flatMap fun thing ↦ mark thing :: grouped thing := by
  induction things generalizing before with
  | nil => simp
  | cons thing things ih =>
    rw [List.flatMap_cons, List.flatMap_cons, List.cons_append, h.append_cons (hbars thing), ih,
      hthing]
    rfl

/-- Where commas bar groups, things with commas between them are grouped one by one. -/
theorem Folds.joined {step : Step} {pass : List Node → List Node} (h : Folds step pass)
    (hbars : Bars step (.punctuation ",")) {inner grouped : α → List Node}
    (hthing : ∀ thing, pass (inner thing) = grouped thing) (list : CommaList α) :
    pass (list.joined (.punctuation ",") inner) = list.joined (.punctuation ",") grouped := by
  have hmore := h.marked (fun _ ↦ hbars) hthing (inner list.first) list.more
  rw [hthing] at hmore
  exact hmore

/-- A node takes no alias where only blanks follow it. -/
theorem groupAliases_cons_blanks (node : Node) (blanks : List Blank) :
    groupAliases (node :: Blank.nodes blanks) = node :: Blank.nodes blanks := by
  have hkeep : aliasStep node (Blank.nodes blanks) = none := by
    rw [aliasStep, aliasAfter?, Node.significant?_eq_none_iff.2 (Blank.isBlank_nodes blanks)]
    simp
  rw [folds_groupAliases.keep hkeep,
    folds_groupAliases.eq_self_of_keeps (aliasStep_blanks blanks)]

/-- Tokens that make one item of a list wherever an item may start. -/
structure ItemPhrase where
  tokens : List Token
  /-- The nodes that a level reads, aliases not yet folded. -/
  raw : List Node
  node : Node
  isItem : isListItem node = true
  front : ∀ last rest, startsItem last = true → Apart rest → Front last tokens rest raw
  folds : ∀ blanks, groupAliases (raw ++ Blank.nodes blanks) = node :: Blank.nodes blanks

namespace ItemPhrase

variable (phrase : α → ItemPhrase)

/-- An item with blanks around it is read between commas. -/
theorem front_padded {last : Option Node} {rest : List Token} (hlast : startsItem last = true)
    (hrest : Apart rest) (cell : Padded α) :
    Front last (cell.tokens fun item ↦ (phrase item).tokens) rest
      (cell.nodes fun item ↦ (phrase item).raw) := by
  refine (Front.blanks cell.before).append ?_
  rw [lastOf_blanks]
  refine Front.append ?_ (.blanks cell.after)
  exact (phrase cell.item).front last _ hlast (hrest.append_blanks cell.after)

/-- Items with commas between them are read one after the other. -/
theorem front_list {last : Option Node} {rest : List Token} (hlast : startsItem last = true)
    (hrest : Apart rest) (list : CommaList (Padded α)) :
    Front last (list.tokens fun item ↦ (phrase item).tokens) rest
      (list.spread fun item ↦ (phrase item).raw) :=
  front_joined (startsItem · = true) rfl
    (fun more ↦ apart_cons more rfl Token.noConfusion Token.noConfusion)
    (fun _ _ hlast hrest ↦ front_padded phrase hlast hrest) hlast hrest list

/-- Aliases are folded in every item of a list. -/
theorem groupAliases_list (list : CommaList (Padded α)) :
    groupAliases (list.spread fun item ↦ (phrase item).raw) =
      list.spread fun item ↦ [(phrase item).node] := by
  apply folds_groupAliases.joined (bars_aliasStep_punctuation ",")
  intro cell
  rw [Padded.nodes, folds_groupAliases.append_of_keeps (aliasStep_blanks _),
    (phrase cell.item).folds]
  rfl

/-- There is no operator that compares in a list. -/
theorem isComparisonOperator_list (list : CommaList (Padded α)) :
    ∀ node ∈ list.spread fun item ↦ [(phrase item).node], isComparisonOperator node = false := by
  refine CommaList.forall_mem_spread (P := (isComparisonOperator · = false)) (fun _ ↦ rfl) rfl
    fun item _ ↦ ?_
  rw [List.forall_mem_singleton, isComparisonOperator, (of_isListItem (phrase item).isItem).2.1,
    Bool.false_and]

/-- Items with commas between them are grouped to one node, with the blanks around them. -/
theorem regroup_list (list : CommaList (Padded α)) :
    regroup (list.spread fun item ↦ (phrase item).raw) =
      list.nodes fun item ↦ (phrase item).node := by
  rw [regroup, groupAliases_list, groupComparisons_eq_self (isComparisonOperator_list phrase list),
    groupLists_spread fun item ↦ (phrase item).isItem]

/-- Items with commas between them make one node, with the blanks around them. -/
theorem makes_list {last : Option Node} (hlast : startsItem last = true)
    (list : CommaList (Padded α)) :
    Makes last (list.tokens fun item ↦ (phrase item).tokens)
      (list.nodes fun item ↦ (phrase item).node) :=
  fun _ hrest ↦ ⟨_, front_list phrase hlast hrest list, regroup_list phrase list⟩

/-- An item makes one node, with the blanks around it. -/
theorem makes {last : Option Node} (hlast : startsItem last = true) (cell : Padded α) :
    Makes last (cell.tokens fun item ↦ (phrase item).tokens)
      (cell.nodes fun item ↦ [(phrase item).node]) := by
  have hlist := makes_list phrase hlast ⟨cell, []⟩
  rwa [CommaList.tokens, CommaList.joined, List.flatMap_nil, List.append_nil] at hlist

end ItemPhrase

/-! ### Items with aliases -/

/-- Tokens that make one node, which takes an alias, wherever an item may start. -/
structure AliasedPhrase where
  tokens : List Token
  node : Node
  /-- The kind of the node with an alias. -/
  kind : String → Kind Node
  takesAlias : aliasedKind? node = some kind
  front : ∀ last rest, startsItem last = true → Apart rest → Front last tokens rest [node]

/-- An operand is an item. -/
theorem isListItem_of_isOperand {node : Node} (h : isOperand node = true) :
    isListItem node = true := by
  cases node with
  | mk kind text children =>
    cases kind with
    | identifier => rfl
    | function => rfl
    | literal => rfl
    | _ => cases h

namespace AliasedPhrase

/-- The node with its alias, if there is one. -/
def aliasedNode (base : AliasedPhrase) : Option Alias → Node
  | none => base.node
  | some phrase => .group (base.kind phrase.name.word.value) (base.node :: phrase.nodes)

/-- The item with its alias, if there is one. -/
def item (base : AliasedPhrase) (aliasPhrase : Option Alias) : ItemPhrase where
  tokens := base.tokens ++ aliasPhrase.elim [] Alias.tokens
  raw := base.node :: aliasPhrase.elim [] Alias.nodes
  node := base.aliasedNode aliasPhrase
  isItem := by
    obtain ⟨hbase, halias⟩ := isOperand_of_aliasedKind? base.takesAlias
    apply isListItem_of_isOperand
    cases aliasPhrase with
    | none => exact hbase
    | some phrase => exact halias _ _
  front last rest hlast hrest := by
    cases aliasPhrase with
    | none =>
      rw [Option.elim, Option.elim, List.append_nil]
      exact base.front last rest hlast hrest
    | some phrase => exact (base.front last _ hlast (phrase.apart rest)).append (phrase.front hrest)
  folds blanks := by
    have hblanks := folds_groupAliases.eq_self_of_keeps (aliasStep_blanks blanks)
    cases aliasPhrase with
    | none => exact groupAliases_cons_blanks base.node blanks
    | some phrase =>
      have hfold : aliasStep base.node (phrase.nodes ++ Blank.nodes blanks) =
          some (base.kind phrase.name.word.value, phrase.nodes.length) := by
        rw [aliasStep, base.takesAlias, phrase.aliasAfter?_nodes]
        rfl
      have hgroup := folds_groupAliases.fold hfold
      rw [List.take_left, List.drop_left, hblanks] at hgroup
      exact hgroup

end AliasedPhrase

end Grouping

/-- A dotted name as an item of a list. -/
def NamePath.item (name : NamePath) : Grouping.ItemPhrase where
  tokens := name.tokens
  raw := [name.node]
  node := name.node
  isItem := rfl
  front _ _ _ hrest := .path name hrest
  folds := Grouping.groupAliases_cons_blanks name.node

/-- A dotted name as what takes an alias. -/
def PlainName.phrase (name : PlainName) : Grouping.AliasedPhrase where
  tokens := name.tokens
  node := name.node
  kind aliasName := .identifier { name.dotted.identifier with aliasName := some aliasName }
  takesAlias := by
    have hstar := name.lastPart_ne_star
    rw [← name.identifier_name] at hstar
    exact if_neg hstar
  front _ _ _ hrest := .plainName name hrest

/-- A token that stands for a value. -/
structure LiteralToken where
  token : Token
  isLiteral : token.isLiteral = true

/-- A value is read as a literal. -/
theorem LiteralToken.front (literal : LiteralToken) {last : Option Node} {rest : List Token} :
    Grouping.Front last [literal.token] rest [.leaf .literal literal.token.render] := by
  rcases literal with ⟨token, hliteral⟩
  have hnode : Grouping.plainNode token = .leaf .literal token.render := by
    have hblank : token.isBlank = false := by
      cases token with
      | blank => cases hliteral
      | _ => rfl
    rw [Grouping.plainNode, hblank, if_pos hliteral]
    rfl
  rw [← hnode]
  cases token with
  | number => exact .leaf rfl Token.noConfusion Token.noConfusion
  | string => exact .leaf rfl Token.noConfusion Token.noConfusion
  | dollarString => exact .leaf rfl Token.noConfusion Token.noConfusion
  | placeholder => exact .leaf rfl Token.noConfusion Token.noConfusion
  | _ => cases hliteral

/-- A value as what takes an alias. -/
def LiteralToken.phrase (literal : LiteralToken) : Grouping.AliasedPhrase where
  tokens := [literal.token]
  node := .leaf .literal literal.token.render
  kind _ := .literal
  takesAlias := rfl
  front _ _ _ _ := literal.front

end SqlFootprint
