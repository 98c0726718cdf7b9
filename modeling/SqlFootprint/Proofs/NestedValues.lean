import SqlFootprint.Proofs.Nesting
import SqlFootprint.Proofs.Updates

/-!
# Values with conditions in them

A value may be tokens in parentheses or a `CASE`. Neither makes a node of its own, so what stands in
it is searched for assignments like what stands around it: a column that is compared there is taken
for one that is assigned to, and a `WHERE` in parentheses ends the search. `columnCandidates_nested`
says for every update with such values what its columns are and, where nothing is found within the
values, when they are the names that values are assigned to. `columnCandidates_choiceAndQuery` is an
update with a column too many and one too few.
-/

namespace SqlFootprint

open Grouping
open Columns (untilWhere)

/-! ### Choices -/

/-- The words of a `CASE`. -/
def caseWords : List String := ["CASE", "WHEN", "THEN", "ELSE", "END"]

/-- The words of a `CASE` start clauses. -/
theorem startsClause_caseWords : ∀ entry ∈ caseWords, Keyword.startsClause entry = true := by
  decide

/-- What follows a word of a `CASE`. -/
inductive CasePart where
  | nothing (blanks : List Blank)
  | value (cell : Padded Term)
  | condition (cell : Padded TermComparison)

namespace CasePart

/-- The tokens of the part. -/
def tokens : CasePart → List Token
  | nothing blanks => Blank.tokens blanks
  | value cell => cell.tokens (·.item.tokens)
  | condition cell => cell.tokens TermComparison.tokens

/-- The nodes that a level reads. -/
def raw : CasePart → List Node
  | nothing blanks => Blank.nodes blanks
  | value cell => cell.nodes fun term ↦ [term.item.node]
  | condition cell => cell.nodes TermComparison.raw

/-- The nodes with the comparison grouped. -/
def nodes : CasePart → List Node
  | nothing blanks => Blank.nodes blanks
  | value cell => cell.nodes fun term ↦ [term.item.node]
  | condition cell => cell.nodes fun comparison ↦ [comparison.node]

/-- The column on the left of a condition. -/
def names : CasePart → List String
  | nothing _ => []
  | value _ => []
  | condition cell => cell.item.left.names

end CasePart

/-- A word of a `CASE` with what follows it. -/
structure CaseClause where
  word : Spelled caseWords
  part : CasePart

/-- A condition of a `CASE` with the value for it. -/
structure CaseBranch where
  whenWord : Spelled ["WHEN"]
  condition : Padded TermComparison
  thenWord : Spelled ["THEN"]
  result : Padded Term

/-- A `CASE` with one condition or more. -/
structure Choice where
  caseWord : Spelled ["CASE"]
  /-- The blanks after `CASE`. -/
  between : List Blank
  branch : CaseBranch
  more : List CaseBranch
  /-- `ELSE` with the value for all other cases. -/
  otherwise : Option (Spelled ["ELSE"] × Padded Term)
  endWord : Spelled ["END"]

/-- The condition and the value as clauses. -/
def CaseBranch.clauses (branch : CaseBranch) : List CaseClause :=
  [⟨branch.whenWord.widen (by decide), .condition branch.condition⟩,
    ⟨branch.thenWord.widen (by decide), .value branch.result⟩]

namespace Choice

/-- The clauses of a `CASE` before `END`. -/
def leading (choice : Choice) : List CaseClause :=
  ⟨choice.caseWord.widen (by decide), .nothing choice.between⟩ ::
    ((choice.branch :: choice.more).flatMap CaseBranch.clauses ++
      choice.otherwise.toList.map fun (word, result) ↦ ⟨word.widen (by decide), .value result⟩)

/-- The clauses of a `CASE`, given the blanks after it. -/
def clauses (choice : Choice) (after : List Blank) : List CaseClause :=
  choice.leading ++ [⟨choice.endWord.widen (by decide), .nothing after⟩]

/-- The columns on the left of the conditions. -/
def names (choice : Choice) : List String :=
  (choice.branch :: choice.more).flatMap fun branch ↦ branch.condition.item.left.names

end Choice

/-! ### Reading and grouping a choice -/

namespace CasePart

variable (part : CasePart)

/-- A part is read where an item may start. -/
theorem front {last : Option Node} {rest : List Token} (hlast : startsItem last = true)
    (hrest : Apart rest) : Front last part.tokens rest part.raw := by
  cases part with
  | nothing blanks => exact .blanks blanks
  | value cell =>
    have hvalue := ItemPhrase.front_padded Term.item hlast hrest cell
    simp only [Term.raw_item] at hvalue
    exact hvalue
  | condition cell => exact TermComparison.front_padded cell hlast hrest

/-- No alias is folded in a part. -/
theorem groupAliases_raw : groupAliases part.raw = part.raw := by
  cases part with
  | nothing blanks => exact folds_groupAliases.eq_self_of_keeps (aliasStep_blanks blanks)
  | value cell =>
    rw [raw, Padded.nodes, folds_groupAliases.append_of_keeps (aliasStep_blanks _),
      List.singleton_append, groupAliases_cons_blanks]
  | condition cell => exact groupAliases_compared _ _ _ cell.before cell.after

/-- A value and blanks are quiet. -/
theorem isQuiet_padded (cell : Padded Term) :
    ∀ node ∈ cell.nodes fun term ↦ [term.item.node], isQuiet node = true := by
  have hblanks (blanks : List Blank) : ∀ node ∈ Blank.nodes blanks, isQuiet node = true :=
    Blank.forall_mem_nodes (fun _ ↦ rfl) blanks
  rw [Padded.nodes, List.forall_mem_append, List.singleton_append, List.forall_mem_cons]
  exact ⟨hblanks _, isQuiet_of_isOperand cell.item.isOperand_item, hblanks _⟩

private theorem groupComparisons_raw : groupComparisons part.raw = part.nodes := by
  cases part with
  | nothing blanks => exact folds_groupComparisons.eq_self_of_keeps (comparisonStep_blanks blanks)
  | value cell =>
    exact groupComparisons_eq_self fun node hmem ↦
      (isPunctuation_of_isQuiet (isQuiet_padded cell node hmem)).1
  | condition cell =>
    exact groupComparisons_compared _ _ _ cell.item.left.isOperand_item
      cell.item.right.isOperand_item cell.before cell.after

private theorem settled_nodes :
    (∀ node ∈ part.nodes, isSettled node = true) ∧
      part.nodes.flatMap comparedNames = part.names := by
  have hquiet {nodes : List Node} (h : ∀ node ∈ nodes, isQuiet node = true) :
      (∀ node ∈ nodes, isSettled node = true) ∧ nodes.flatMap comparedNames = [] :=
    ⟨fun node hmem ↦ (of_isQuiet (h node hmem)).1,
      List.flatMap_eq_nil_iff.2 fun node hmem ↦ (of_isQuiet (h node hmem)).2⟩
  have hblanks (blanks : List Blank) := hquiet (Blank.forall_mem_nodes (fun _ ↦ rfl) blanks)
  cases part with
  | nothing blanks => exact hblanks blanks
  | value cell => exact hquiet (isQuiet_padded cell)
  | condition cell =>
    have hname : comparedNames cell.item.node = cell.item.left.names :=
      cell.item.left.names_node
    rw [nodes, Padded.nodes, List.forall_mem_append, List.singleton_append, List.forall_mem_cons,
      List.flatMap_append, List.flatMap_cons, (hblanks _).2, (hblanks _).2, hname]
    exact ⟨⟨(hblanks _).1, rfl, (hblanks _).1⟩, List.append_nil _⟩

end CasePart

namespace CaseClause

/-- The tokens of the word and what follows it. -/
def tokens (clause : CaseClause) : List Token := clause.word.token :: clause.part.tokens

/-- The nodes of the word and what follows it, as a level reads them. -/
def raw (clause : CaseClause) : List Node := clause.word.node :: clause.part.raw

/-- The nodes of the word and what follows it. -/
def nodes (clause : CaseClause) : List Node := clause.word.node :: clause.part.nodes

/-- Clauses are read one after the other. -/
theorem front (clauses : List CaseClause) {last : Option Node} {rest : List Token}
    (hrest : Apart rest) : Front last (clauses.flatMap tokens) rest (clauses.flatMap raw) := by
  have hends (clause : CaseClause) (more : List Token) : Apart (clause.word.token :: more) :=
    apart_keyword clause.word more
  refine front_marked hends ?_ (fun _ ↦ rfl) ?_ hrest clauses
  · exact fun clause last rest ↦ .clause clause.word startsClause_caseWords last rest
  · exact fun clause rest hrest ↦
      clause.part.front (startsItem_keyword clause.word (by decide)) hrest

private theorem group_raw (before : List Blank) (clauses : List CaseClause) :
    groupAliases (Blank.nodes before ++ clauses.flatMap raw) =
        Blank.nodes before ++ clauses.flatMap raw ∧
      groupComparisons (Blank.nodes before ++ clauses.flatMap raw) =
        Blank.nodes before ++ clauses.flatMap nodes := by
  have hbarrier (clause : CaseClause) : IsBarrier clause.word.node :=
    isBarrier_clause clause.word startsClause_caseWords
  have haliases := folds_groupAliases.marked (fun clause ↦ (hbarrier clause).aliases)
    (fun clause ↦ clause.part.groupAliases_raw) (Blank.nodes before) clauses
  have hcomparisons := folds_groupComparisons.marked (fun clause ↦ (hbarrier clause).comparisons)
    (fun clause ↦ clause.part.groupComparisons_raw) (Blank.nodes before) clauses
  rw [folds_groupAliases.eq_self_of_keeps (aliasStep_blanks before)] at haliases
  rw [folds_groupComparisons.eq_self_of_keeps (comparisonStep_blanks before)] at hcomparisons
  exact ⟨haliases, hcomparisons⟩

private theorem settled_nodes (clauses : List CaseClause) :
    (∀ node ∈ clauses.flatMap nodes, isSettled node = true) ∧
      (clauses.flatMap nodes).flatMap comparedNames = clauses.flatMap (·.part.names) := by
  have hword (clause : CaseClause) : isQuiet clause.word.node = true := by
    have hwhere : Text.sameWord clause.word.text "WHERE" = false :=
      clause.word.sameWord_eq (by decide)
    simp [isQuiet, Spelled.node, hwhere]
  constructor
  · rw [List.forall_mem_flatMap]
    intro clause _
    rw [nodes, List.forall_mem_cons]
    exact ⟨(of_isQuiet (hword clause)).1, clause.part.settled_nodes.1⟩
  · rw [List.flatMap_assoc]
    refine List.flatMap_congr fun clause _ ↦ ?_
    rw [nodes, List.flatMap_cons, (of_isQuiet (hword clause)).2, clause.part.settled_nodes.2]
    rfl

end CaseClause

namespace Choice

variable (choice : Choice) (before after : List Blank)

private theorem names_clauses : (choice.clauses after).flatMap (·.part.names) = choice.names := by
  have hbranch (branch : CaseBranch) : branch.clauses.flatMap (·.part.names) =
      branch.condition.item.left.names := List.append_nil _
  have hother : (choice.otherwise.toList.map fun (word, result) ↦
      (⟨word.widen (by decide), .value result⟩ : CaseClause)).flatMap (·.part.names) = [] := by
    cases choice.otherwise with
    | none => rfl
    | some found => rfl
  have hend : CasePart.names (.nothing after) = [] := rfl
  have hstart : CasePart.names (.nothing choice.between) = [] := rfl
  rw [clauses, leading, List.flatMap_append, List.flatMap_cons, List.flatMap_append,
    List.flatMap_assoc, hother, List.flatMap_singleton, hstart, hend]
  simp only [hbranch, List.nil_append, List.append_nil]
  rfl

private theorem closes_clauses (nodes : List Node) :
    (lastOf none (nodes ++ (choice.clauses after).flatMap CaseClause.nodes)).any isListItem =
      false := by
  have hend (last : Option Node) :
      lastOf last (choice.endWord.node :: Blank.nodes after) = some choice.endWord.node :=
    lastOf_blanks _ after
  rw [clauses, List.flatMap_append, List.flatMap_singleton, ← List.append_assoc, lastOf_append]
  exact congrArg (Option.any isListItem) (hend _)

private theorem yields :
    Yields (groupAliases (Blank.nodes before ++ (choice.clauses after).flatMap CaseClause.raw))
      ⟨false, choice.names, false, false⟩ := by
  obtain ⟨haliases, hcomparisons⟩ := CaseClause.group_raw before (choice.clauses after)
  obtain ⟨hsettled, hnames⟩ := CaseClause.settled_nodes (choice.clauses after)
  have hblanks : (Blank.nodes before).flatMap comparedNames = [] :=
    List.flatMap_eq_nil_iff.2 (Blank.forall_mem_nodes (fun _ ↦ rfl) before)
  have hvalue : Node.meets isOperand
      (Blank.nodes before ++ (choice.clauses after).flatMap CaseClause.raw) = false := by
    obtain ⟨rest, hrest⟩ : ∃ rest, (choice.clauses after).flatMap CaseClause.raw =
        choice.caseWord.node :: rest := ⟨_, rfl⟩
    rw [hrest, Node.meets, Node.significant?_blanks_append before choice.caseWord.node rest rfl]
    rfl
  have hbefore : ∀ node ∈ Blank.nodes before, isSettled node = true :=
    Blank.forall_mem_nodes (fun _ ↦ rfl) before
  have hyields := Yields.settled hcomparisons (List.forall_mem_append.2 ⟨hbefore, hsettled⟩) hvalue
  rw [List.flatMap_append, hblanks, hnames, choice.names_clauses, choice.closes_clauses] at hyields
  rw [haliases]
  exact hyields

end Choice

/-! ### Nested values -/

/-- Tokens with as many parentheses closed as opened. -/
structure Balanced where
  tokens : List Token
  closed : Token.nesting? 0 tokens = some 0

namespace Balanced

/-- The nodes of the tokens alone. -/
def nodes (inside : Balanced) : List Node := (groupStatement inside.tokens).nodes

/-- The columns that the tokens alone assign up to their first `WHERE`. -/
def targets (inside : Balanced) : List String :=
  Columns.targetsOfAll none (untilWhere inside.nodes)

/-- The tokens alone have a `WHERE` outside calls. -/
def filters (inside : Balanced) : Bool := inside.nodes.any (·.isKeyword "WHERE")

end Balanced

/-- A value that is a constant, tokens in parentheses, or a `CASE`. -/
inductive NestedValue where
  | constant (cell : Padded Constant)
  | parens (before : List Blank) (inside : Balanced) (after : List Blank)
  | choose (before : List Blank) (choice : Choice) (after : List Blank)

namespace NestedValue

/-- The tokens of the value. -/
def tokens : NestedValue → List Token
  | constant cell => cell.tokens (·.phrase.tokens)
  | parens before inside after =>
    Blank.tokens before ++ .openParen :: (inside.tokens ++ .closeParen :: Blank.tokens after)
  | choose before choice after =>
    Blank.tokens before ++ (choice.clauses after).flatMap CaseClause.tokens

/-- The nodes that a level reads. -/
def raw : NestedValue → List Node
  | constant cell => cell.nodes fun constant ↦ [constant.phrase.node]
  | parens before inside after =>
    Blank.nodes before ++
      .punctuation "(" :: ((level none 0 inside.tokens).1 ++ .punctuation ")" :: Blank.nodes after)
  | choose before choice after =>
    Blank.nodes before ++ (choice.clauses after).flatMap CaseClause.raw

/-- What a search for targets makes of the value. -/
def outcome : NestedValue → SetOutcome
  | constant _ => ⟨true, [], false, true⟩
  | parens _ inside _ => ⟨false, inside.targets, inside.filters, false⟩
  | choose _ choice _ => ⟨false, choice.names, false, false⟩

/-- The value is read after an equals sign. -/
theorem front (value : NestedValue) (rest : List Token) (hrest : Apart rest) :
    Front (some Assignment.equals.node) value.tokens rest value.raw := by
  cases value with
  | constant cell =>
    refine (Front.blanks cell.before).append ?_
    rw [lastOf_blanks]
    exact (cell.item.phrase.front _ _ rfl (hrest.append_blanks cell.after)).append
      (.blanks cell.after)
  | parens before inside after =>
    exact .enclosed (.within inside.closed _) (.blanks after) before
  | choose before choice after =>
    exact (Front.blanks before).append (CaseClause.front _ hrest)

private theorem yields (value : NestedValue) : Yields (groupAliases value.raw) value.outcome := by
  cases value with
  | constant cell =>
    let node := cell.item.phrase.node
    have hoperand : isOperand node = true := cell.item.phrase.isOperand_node
    have hself : groupAliases (NestedValue.constant cell).raw =
        Blank.nodes cell.before ++ node :: Blank.nodes cell.after := by
      rw [raw, Padded.nodes, folds_groupAliases.append_of_keeps (aliasStep_blanks _),
        List.singleton_append, groupAliases_cons_blanks]
    have hcloses : (lastOf (some node) (Blank.nodes cell.after)).any isListItem = true := by
      rw [lastOf_blanks]
      exact isListItem_of_isOperand hoperand
    have hyields := Yields.compared (Blank.isBlank_nodes cell.before) hoperand
      (Blank.forall_mem_nodes (fun _ ↦ rfl) cell.after)
    rw [hcloses] at hyields
    rw [hself]
    exact hyields
  | parens before inside after =>
    have hopen : Bars aliasStep (.punctuation "(") := bars_aliasStep_punctuation "("
    have hclose : Bars aliasStep (.punctuation ")") := bars_aliasStep_punctuation ")"
    have hblanks (blanks : List Blank) : groupAliases (Blank.nodes blanks) = Blank.nodes blanks :=
      folds_groupAliases.eq_self_of_keeps (aliasStep_blanks blanks)
    have hnodes : inside.nodes = regroup (level none 0 inside.tokens).1 := by
      rw [Balanced.nodes, nodes_groupStatement, statementNodes_of_nesting inside.closed]
    rw [raw, folds_groupAliases.append_cons hopen, folds_groupAliases.append_cons hclose, hblanks,
      hblanks, outcome, Balanced.targets, Balanced.filters, hnodes]
    exact .parens before after _
  | choose before choice after => exact choice.yields before after

end NestedValue

/-! ### Updates -/

/-- The columns of an update are the names that values are assigned to, with those that are found
within the values and without those that are lost. Where nothing is found within the values, they
are just the names exactly if after each constant the next value is a constant and only the last
value has a `WHERE`. -/
theorem columnCandidates_nested (update : SetUpdate NestedValue) :
    (groupStatement (update.tokens NestedValue.tokens)).columnCandidates =
        SetOutcome.found SetItem.target (·.value.outcome) false update.items.things ∧
      ((∀ item ∈ update.items.things, item.value.outcome.inside = []) →
        ((groupStatement (update.tokens NestedValue.tokens)).columnCandidates = update.names ↔
          update.items.things.IsChain (fun first second ↦
            first.value.outcome.closes = true → second.value.outcome.compared = true) ∧
          ∀ item ∈ update.items.things.dropLast, item.value.outcome.cuts = false)) := by
  have hfound := SetUpdate.columnCandidates_eq NestedValue.front NestedValue.yields update
  refine ⟨hfound, fun hinside ↦ ?_⟩
  rw [hfound]
  exact SetOutcome.found_eq_map_iff hinside

/-- `UPDATE t SET a = (SELECT m FROM u), b = 2`. -/
def SetUpdate.queryAndConstant : SetUpdate NestedValue where
  head := .updateT
  items := ⟨
    ⟨.spaced (.bare "a" (.refl false)),
      .parens [.space]
        ⟨[.word ⟨"SELECT", none⟩, .blank .space, .word ⟨"m", none⟩, .blank .space,
          .word ⟨"FROM", none⟩, .blank .space, .word ⟨"u", none⟩], by decide⟩ []⟩,
    [⟨.spaced (.bare "b" (.refl false)),
      .constant ⟨[.space], .number "2", []⟩⟩]⟩
  ending := .nothing

/-- A query without conditions, and a constant behind it: the columns are the names. -/
theorem columnCandidates_queryAndConstant :
    (∀ item ∈ SetUpdate.queryAndConstant.items.things, item.value.outcome.inside = []) ∧
      (groupStatement (SetUpdate.queryAndConstant.tokens NestedValue.tokens)).columnCandidates =
        ["a", "b"] := by
  have hinside : ∀ item ∈ SetUpdate.queryAndConstant.items.things,
      item.value.outcome.inside = [] := by decide +kernel
  have hcuts : ∀ item ∈ SetUpdate.queryAndConstant.items.things.dropLast,
      item.value.outcome.cuts = false := by decide +kernel
  have hchain : SetUpdate.queryAndConstant.items.things.IsChain fun first second ↦
      first.value.outcome.closes = true → second.value.outcome.compared = true :=
    .cons_cons (fun hcloses ↦ absurd hcloses Bool.false_ne_true) (.singleton _)
  exact ⟨hinside, ((columnCandidates_nested SetUpdate.queryAndConstant).2 hinside).2
    ⟨hchain, hcuts⟩⟩

/-- `UPDATE t SET a = CASE WHEN x = 1 THEN 2 ELSE 3 END, b = (SELECT y FROM u WHERE z = 4),
c = 5`. -/
def SetUpdate.choiceAndQuery : SetUpdate NestedValue where
  head := .updateT
  items := ⟨
    ⟨.spaced (.bare "a" (.refl false)),
      .choose [.space]
        { caseWord := ⟨"CASE", .refl true⟩
          between := [.space]
          branch :=
            { whenWord := ⟨"WHEN", .refl true⟩
              condition := ⟨[.space],
                ⟨.column (NameWord.bare "x" (.refl false)).plain.path, [.space],
                  Assignment.equals, [.space], .value (.number "1")⟩, [.space]⟩
              thenWord := ⟨"THEN", .refl true⟩
              result := ⟨[.space], .value (.number "2"), [.space]⟩ }
          more := []
          otherwise := some (⟨"ELSE", .refl true⟩, ⟨[.space], .value (.number "3"), [.space]⟩)
          endWord := ⟨"END", .refl true⟩ } []⟩,
    [⟨.spaced (.bare "b" (.refl false)),
      .parens [.space]
        ⟨[.word ⟨"SELECT", none⟩, .blank .space, .word ⟨"y", none⟩, .blank .space,
          .word ⟨"FROM", none⟩, .blank .space, .word ⟨"u", none⟩, .blank .space,
          .word ⟨"WHERE", none⟩, .blank .space, .word ⟨"z", none⟩, .blank .space,
          .symbol .equals, .blank .space, .number "4" false], by decide⟩ []⟩,
    ⟨.spaced (.bare "c" (.refl false)),
      .constant ⟨[.space], .number "5", []⟩⟩]⟩
  ending := .nothing

/-- The column of the condition is found though nothing is assigned to it, and the name behind the
query is lost. -/
theorem columnCandidates_choiceAndQuery :
    SetUpdate.choiceAndQuery.tokens NestedValue.tokens =
        [.word ⟨"UPDATE", none⟩, .blank .space, .word ⟨"t", none⟩, .blank .space,
          .word ⟨"SET", none⟩, .blank .space, .word ⟨"a", none⟩, .blank .space, .symbol .equals,
          .blank .space, .word ⟨"CASE", none⟩, .blank .space, .word ⟨"WHEN", none⟩, .blank .space,
          .word ⟨"x", none⟩, .blank .space, .symbol .equals, .blank .space, .number "1" false,
          .blank .space, .word ⟨"THEN", none⟩, .blank .space, .number "2" false, .blank .space,
          .word ⟨"ELSE", none⟩, .blank .space, .number "3" false, .blank .space,
          .word ⟨"END", none⟩, .comma, .blank .space, .word ⟨"b", none⟩, .blank .space,
          .symbol .equals, .blank .space, .openParen, .word ⟨"SELECT", none⟩, .blank .space,
          .word ⟨"y", none⟩, .blank .space, .word ⟨"FROM", none⟩, .blank .space,
          .word ⟨"u", none⟩, .blank .space, .word ⟨"WHERE", none⟩, .blank .space,
          .word ⟨"z", none⟩, .blank .space, .symbol .equals, .blank .space, .number "4" false,
          .closeParen, .comma, .blank .space, .word ⟨"c", none⟩, .blank .space, .symbol .equals,
          .blank .space, .number "5" false] ∧
      (groupStatement (SetUpdate.choiceAndQuery.tokens NestedValue.tokens)).columnCandidates =
        ["a", "x", "b"] ∧
      SetUpdate.choiceAndQuery.names = ["a", "b", "c"] := by
  refine ⟨rfl, ?_, rfl⟩
  decide +kernel

end SqlFootprint
