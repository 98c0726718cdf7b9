import Mathlib.Data.List.Chain
import SqlFootprint.Proofs.Updates

/-!
# The assignments of an update

An `UPDATE .. SET ..` has as its columns the targets of its assignments, in their order, except
those that a list before them has taken (`Update.columnCandidates_eq`): a target that no operand
follows after its equals sign is lost after a value that closes with an item.
-/

namespace SqlFootprint

/-! ### Assignments -/

/-- A name with the value that is assigned to it. -/
structure Assignment where
  /-- The blanks before the name. -/
  before : List Blank
  target : NameWord
  /-- The blanks before the equals sign. -/
  between : List Blank
  /-- The tokens after the equals sign. -/
  value : List Token
  assignable : ∀ token ∈ value, token.isAssignable = true

namespace Assignment

open Grouping

/-- The tokens of an assignment. -/
def tokens (assignment : Assignment) : List Token :=
  Blank.tokens assignment.before ++ .word assignment.target.word ::
    (Blank.tokens assignment.between ++ .symbol equals.symbol :: assignment.value)

/-- The nodes of the value, aliases folded. -/
def valueNodes (assignment : Assignment) : List Node :=
  groupAliases (level (some equals.node) 0 assignment.value).1

/-- The value opens with an operand, so that it is compared with the name. -/
def opensOperand (assignment : Assignment) : Bool := Node.meets isOperand assignment.valueNodes

/-- The value closes with an item, so that a comma after it goes on with a list. -/
def closesItem (assignment : Assignment) : Bool :=
  (lastOf none assignment.valueNodes).any isListItem

/-- The targets that are found: after a value that closes with an item, a target is taken into its
list unless it is compared. -/
def found (afterItem : Bool) : List Assignment → List String
  | [] => []
  | assignment :: more =>
    (if afterItem && !assignment.opensOperand then [] else [assignment.target.word.value]) ++
      found assignment.closesItem more

end Assignment

/-- An update of a table. -/
structure Update where
  /-- The blanks before the update. -/
  before : List Blank
  updateWord : Spelled ["UPDATE"]
  table : Padded TableReference
  setWord : Spelled ["SET"]
  assignments : CommaList Assignment

namespace Update

/-- The tokens of an update. -/
def tokens (update : Update) : List Token :=
  Blank.tokens update.before ++ update.updateWord.token ::
    (update.table.tokens (·.phrase.tokens) ++ update.setWord.token ::
      update.assignments.joined .comma Assignment.tokens)

/-- The update with one assignment only. -/
def single (update : Update) (assignment : Assignment) : Update :=
  { update with assignments := ⟨assignment, []⟩ }

end Update

/-! ### What is found -/

namespace Assignment

open Grouping

variable (assignment : Assignment)

/-- The name that the value is assigned to. -/
def setTarget : SetTarget := ⟨assignment.before, assignment.target.plain, assignment.between⟩

/-- The nodes of the value that a level reads. -/
def raw : List Node := (level (some equals.node) 0 assignment.value).1

/-- What a search for targets makes of the value. -/
def outcome : SetOutcome := ⟨assignment.opensOperand, [], false, assignment.closesItem⟩

/-- The value is read to its end. -/
theorem reads_value :
    Reads (some equals.node) 0 assignment.value assignment.raw [] ∧
      Token.nesting? 0 assignment.value = some 0 := by
  have hnesting : Token.nesting? 0 assignment.value = some 0 := by
    apply Token.nesting?_eq_some
    intro token hmem
    have htoken := assignment.assignable token hmem
    constructor
    · rintro rfl
      cases htoken
    · rintro rfl
      cases htoken
  obtain ⟨nodes, hreads⟩ := exists_reads_of_nesting (some equals.node) hnesting
  rw [raw, hreads.level_eq]
  exact ⟨hreads, hnesting⟩

/-- An assignment is read before its end or a comma. -/
theorem front {rest : List Token} (hapart : Apart rest) (hname : continuesName rest = false)
    (last : Option Node) :
    Front last assignment.tokens rest (assignment.setTarget.nodes assignment.raw) := by
  obtain ⟨hreads, hnesting⟩ := assignment.reads_value
  exact assignment.setTarget.front last (.of_reads hreads hnesting ⟨hapart, fun _ ↦ hname⟩)

private theorem yields : Yields (groupAliases assignment.raw) assignment.outcome := by
  have hquiet : ∀ node ∈ assignment.valueNodes, isQuiet node = true :=
    isQuiet_groupAliases (assignment.reads_value.1.isQuiet assignment.assignable)
  rw [outcome]
  cases hopens : assignment.opensOperand with
  | false => exact .quiet hquiet hopens
  | true =>
    obtain ⟨⟨right, count⟩, hvalue, hright⟩ := (Option.any_eq_true _ _).1 hopens
    obtain ⟨blanks, rest, hsplit, rfl, hblanks, hblank⟩ := Node.significant?_eq_some_iff.1 hvalue
    have hrest : ∀ node ∈ rest, isQuiet node = true :=
      fun node hmem ↦ hquiet node (by simp [hsplit, hmem])
    have hcloses : assignment.closesItem = (lastOf (some right) rest).any isListItem := by
      rw [closesItem, hsplit, lastOf_append, lastOf_of_isBlank hblanks, lastOf, List.foldl_cons,
        Node.lastSignificant, hblank]
      rfl
    have hnodes : groupAliases assignment.raw = blanks ++ right :: rest := hsplit
    rw [hcloses, hnodes]
    exact .compared hblanks hright hrest

/-- The targets that are found are those that the values leave to find. -/
theorem found_eq (afterItem : Bool) (assignments : List Assignment) :
    SetOutcome.found setTarget outcome afterItem assignments = found afterItem assignments := by
  induction assignments generalizing afterItem with
  | nil => rfl
  | cons assignment more ih =>
    rw [SetOutcome.found, found, ih]
    rfl

end Assignment

namespace Update

open Grouping

/-- The update up to its assignments. -/
def head (update : Update) : UpdateHead :=
  ⟨update.before, update.updateWord, update.table, update.setWord⟩

private theorem statementNodes_eq (update : Update) :
    statementNodes update.tokens = update.head.lead ++ update.setWord.node ::
      regroup (update.assignments.joined (.punctuation ",") fun assignment ↦
        assignment.setTarget.nodes assignment.raw) := by
  have hassignments : Front (some update.setWord.node)
      (update.assignments.joined .comma Assignment.tokens) []
      (update.assignments.joined (.punctuation ",") fun assignment ↦
        assignment.setTarget.nodes assignment.raw) := by
    let ends (rest : List Token) : Prop := Apart rest ∧ continuesName rest = false
    have hcomma (more : List Token) : ends (.comma :: more) :=
      ⟨apart_cons more rfl Token.noConfusion Token.noConfusion, rfl⟩
    have hend : ends [] := ⟨apart_nil, rfl⟩
    refine front_joined (fun _ ↦ True) trivial hcomma ?_ trivial hend _
    intro last rest _ hrest assignment
    exact assignment.front hrest.1 hrest.2 last
  have hnodes := update.head.makes_lead.statementNodes_append_clause update.setWord (by decide)
    hassignments
  rw [← hnodes, UpdateHead.leadTokens, List.append_assoc, List.cons_append]
  rfl

/-- The columns of an update are the targets that are found. -/
theorem columnCandidates_eq (update : Update) :
    (groupStatement update.tokens).columnCandidates =
      Assignment.found false update.assignments.things := by
  rw [update.head.columnCandidates_eq update.statementNodes_eq,
    SetOutcome.targetsOfAll_regroup Assignment.yields, Assignment.found_eq]

end Update

/-- The columns of an update are those of its assignments one by one exactly if no assignment that
closes with an item stands before one whose value opens with none. -/
theorem columnCandidates_update_iff (update : Update) :
    (groupStatement update.tokens).columnCandidates =
        update.assignments.things.flatMap (fun assignment ↦
          (groupStatement (update.single assignment).tokens).columnCandidates) ↔
      update.assignments.things.IsChain fun first second ↦
        first.closesItem = true → second.opensOperand = true := by
  have hsingle (assignment : Assignment) :
      (groupStatement (update.single assignment).tokens).columnCandidates =
        [assignment.target.word.value] := (update.single assignment).columnCandidates_eq
  have hcuts : ∀ assignment ∈ update.assignments.things.dropLast,
      assignment.outcome.cuts = false := fun _ _ ↦ rfl
  rw [update.columnCandidates_eq, ← Assignment.found_eq]
  simp only [hsingle]
  rw [← List.map_eq_flatMap]
  exact (SetOutcome.found_eq_map_iff fun _ _ ↦ rfl).trans (and_iff_left hcuts)

/-- A value of one blank and one more token has the nodes of the two. -/
theorem Assignment.valueNodes_pair (assignment : Assignment) {token : Token} {node : Node}
    (hvalue : assignment.value = [.blank .space, token])
    (hnode : Grouping.tokenNode? (some Assignment.equals.node) [] token = some node)
    (hnest : token.nestAfter? 0 = some 0) (hstep : Grouping.aliasStep node [] = none) :
    assignment.valueNodes = [.leaf .blank " ", node] := by
  have hreads : Grouping.Reads (some equals.node) 0 [.blank .space, token]
      [.leaf .blank " ", node] [] := .leaf rfl rfl (.leaf hnode hnest .done)
  rw [valueNodes, hvalue, hreads.level_eq, Grouping.folds_groupAliases.keep rfl,
    Grouping.folds_groupAliases.keep hstep, Grouping.folds_groupAliases.nil]

/-- `UPDATE t SET a = 1, b = DEFAULT`. -/
def Update.defaultAfterValue : Update where
  before := []
  updateWord := ⟨"UPDATE", by decide⟩
  table := ⟨[.space], ⟨NameWord.plain ⟨⟨"t", none⟩, .inr (by decide), by decide⟩, none⟩, [.space]⟩
  setWord := ⟨"SET", by decide⟩
  assignments := ⟨
    ⟨[.space], ⟨⟨"a", none⟩, .inr (by decide), by decide⟩, [.space],
      [.blank .space, .number "1" false], by decide⟩,
    [⟨[.space], ⟨⟨"b", none⟩, .inr (by decide), by decide⟩, [.space],
      [.blank .space, .word ⟨"DEFAULT", none⟩], by decide⟩]⟩

/-- The name `b` is taken into a list with `1`, and is found where it is assigned alone. -/
theorem columnCandidates_defaultAfterValue :
    Update.defaultAfterValue.tokens =
        [.word ⟨"UPDATE", none⟩, .blank .space, .word ⟨"t", none⟩, .blank .space,
          .word ⟨"SET", none⟩, .blank .space, .word ⟨"a", none⟩, .blank .space,
          .symbol ⟨"=", by decide⟩, .blank .space, .number "1" false, .comma, .blank .space,
          .word ⟨"b", none⟩, .blank .space, .symbol ⟨"=", by decide⟩, .blank .space,
          .word ⟨"DEFAULT", none⟩] ∧
      (groupStatement Update.defaultAfterValue.tokens).columnCandidates = ["a"] ∧
      Update.defaultAfterValue.assignments.things.flatMap (fun assignment ↦
        (groupStatement (Update.defaultAfterValue.single assignment).tokens).columnCandidates) =
          ["a", "b"] := by
  refine ⟨rfl, ?_, ?_⟩
  · have hcloses (first : Assignment) (h : first.value = [.blank .space, .number "1" false]) :
        first.closesItem = true := by
      rw [Assignment.closesItem, first.valueNodes_pair h rfl rfl rfl]
      rfl
    have hopens (second : Assignment)
        (h : second.value = [.blank .space, .word ⟨"DEFAULT", none⟩]) :
        second.opensOperand = false := by
      rw [Assignment.opensOperand, second.valueNodes_pair h rfl rfl rfl]
      rfl
    rw [Update.columnCandidates_eq, Update.defaultAfterValue, CommaList.things, Assignment.found,
      Bool.false_and, Assignment.found, hcloses _ rfl, hopens _ rfl]
    rfl
  · simp only [Update.columnCandidates_eq]
    rfl

end SqlFootprint
