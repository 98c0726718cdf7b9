import SqlFootprint.Proofs.ProjectionItems
import SqlFootprint.Proofs.Updates

/-!
# Arithmetic values

Of a value such as `a + f(b) * 2`, only the first operand is compared with the name that it is
assigned to; the others stand loose between the assignments, the last one in a list with the next.
`columnCandidates_arithmetic` says that the columns of an update with such values are all the same
the names that they are assigned to, and no operand.
-/

namespace SqlFootprint

open Grouping

/-! ### Values -/

/-- An operator between operands: a star or one of five symbols. -/
inductive ArithmeticOperator where
  | star
  | symbol (mark : Symbol) (listed : mark.text ∈ ["+", "-", "/", "%", "||"])

namespace ArithmeticOperator

/-- The token of the operator. -/
def token : ArithmeticOperator → Token
  | star => .star
  | symbol mark _ => .symbol mark

/-- The text of the operator. -/
def text : ArithmeticOperator → String
  | star => "*"
  | symbol mark _ => mark.text

/-- The node of the operator behind an operand. -/
def node (operator : ArithmeticOperator) : Node := .punctuation operator.text

private theorem text_of_forall (operator : ArithmeticOperator) {P : String → Prop}
    (h : ∀ text ∈ ["*", "+", "-", "/", "%", "||"], P text) : P operator.text := by
  cases operator with
  | star => exact h "*" List.mem_cons_self
  | symbol mark listed => exact h mark.text (List.mem_cons_of_mem _ listed)

/-- The operator is quiet, and an item may start after it. -/
theorem isQuiet_node (operator : ArithmeticOperator) :
    isQuiet operator.node = true ∧ startsItem (some operator.node) = true := by
  have hquiet : ∀ text ∈ ["*", "+", "-", "/", "%", "||"],
      isQuiet (.punctuation text) = true ∧ startsItem (some (.punctuation text)) = true := by
    decide
  exact operator.text_of_forall
    (P := fun text ↦ isQuiet (.punctuation text) = true ∧
      startsItem (some (.punctuation text)) = true) hquiet

/-- Behind an operand, the operator is read as a mark, be it a star. -/
theorem front (operator : ArithmeticOperator) {last : Option Node}
    (hlast : endsOperand last = true) (rest : List Token) :
    Front last [operator.token] rest [operator.node] := by
  cases operator with
  | star =>
    have hstar : starNode last = .punctuation "*" := if_pos hlast
    have hnode : tokenNode? last rest .star = some (.punctuation "*") := congrArg some hstar
    exact .leaf hnode Token.noConfusion Token.noConfusion
  | symbol mark listed => exact .leaf rfl Token.noConfusion Token.noConfusion

end ArithmeticOperator

/-- An operand of an arithmetic value. -/
inductive ArithmeticOperand where
  | value (constant : Constant)
  | column (name : PlainName)
  | call (function : Call)

/-- The operand as a phrase. -/
def ArithmeticOperand.phrase : ArithmeticOperand → AliasedPhrase
  | value constant => constant.phrase
  | column name => name.phrase
  | call function => function.phrase

/-- An operator, and the operand behind it. -/
structure FurtherOperand where
  /-- The blanks before the operator. -/
  before : List Blank
  operator : ArithmeticOperator
  /-- The blanks after the operator. -/
  between : List Blank
  operand : ArithmeticOperand

namespace FurtherOperand

/-- The tokens from the blanks before the operator on. -/
def tokens (further : FurtherOperand) : List Token :=
  Blank.tokens further.before ++ further.operator.token ::
    (Blank.tokens further.between ++ further.operand.phrase.tokens)

/-- The nodes from the blanks before the operator on. -/
def nodes (further : FurtherOperand) : List Node :=
  Blank.nodes further.before ++ further.operator.node ::
    (Blank.nodes further.between ++ [further.operand.phrase.node])

end FurtherOperand

/-- An operand, and further ones behind operators. -/
structure Arithmetic where
  /-- The blanks before the first operand. -/
  before : List Blank
  first : ArithmeticOperand
  more : List FurtherOperand
  /-- The blanks after the last operand. -/
  after : List Blank

namespace Arithmetic

/-- The tokens of the value. -/
def tokens (value : Arithmetic) : List Token :=
  Blank.tokens value.before ++ (value.first.phrase.tokens ++
    (value.more.flatMap FurtherOperand.tokens ++ Blank.tokens value.after))

/-- The nodes behind the first operand. -/
def loose (value : Arithmetic) : List Node :=
  value.more.flatMap FurtherOperand.nodes ++ Blank.nodes value.after

/-- The nodes of the value. -/
def nodes (value : Arithmetic) : List Node :=
  Blank.nodes value.before ++ value.first.phrase.node :: value.loose

/-! ### Reading and grouping a value -/

/-- Further operands stand apart from an operand before them. -/
theorem apart_more (more : List FurtherOperand) {rest : List Token} (hrest : Apart rest) :
    Apart (more.flatMap FurtherOperand.tokens ++ rest) := by
  cases more with
  | nil => exact hrest
  | cons further more =>
    have hoperator (rest : List Token) : Apart (further.operator.token :: rest) := by
      cases further.operator with
      | star => exact apart_cons rest rfl Token.noConfusion Token.noConfusion
      | symbol mark listed => exact apart_cons rest rfl Token.noConfusion Token.noConfusion
    rw [List.flatMap_cons, FurtherOperand.tokens, List.append_assoc, List.append_assoc]
    exact (hoperator _).append_blanks further.before

/-- An operand ends behind the node of a phrase. -/
theorem endsOperand_phrase (phrase : AliasedPhrase) : endsOperand (some phrase.node) = true := by
  have hnode : isOperand phrase.node = true := phrase.isOperand_node
  rw [endsOperand, Option.any_some, hnode, Bool.true_or]

/-- The last node after an operand is the operand. -/
theorem lastOf_concat_phrase (phrase : AliasedPhrase) (last : Option Node) (before : List Node) :
    lastOf last (before ++ [phrase.node]) = some phrase.node := by
  have hblank := (of_isListItem (isListItem_of_isOperand phrase.isOperand_node)).1
  rw [lastOf_append]
  simp [lastOf, Node.lastSignificant, hblank]

private theorem front_more (more : List FurtherOperand) {last : Option Node}
    (hlast : endsOperand last = true) {rest : List Token} (hrest : Apart rest) :
    Front last (more.flatMap FurtherOperand.tokens) rest
      (more.flatMap FurtherOperand.nodes) := by
  induction more generalizing last with
  | nil => exact .nil
  | cons further more ih =>
    let phrase := further.operand.phrase
    have hoperand := phrase.front _ _ further.operator.isQuiet_node.2 (apart_more more hrest)
    have hbehind : lastOf last further.nodes = some phrase.node := by
      rw [FurtherOperand.nodes, ← List.cons_append, ← List.append_assoc]
      exact lastOf_concat_phrase phrase last _
    have hfurther : Front last further.tokens (more.flatMap FurtherOperand.tokens ++ rest)
        further.nodes := by
      refine (Front.blanks further.before).append ?_
      rw [lastOf_blanks]
      refine (further.operator.front hlast _).append ((Front.blanks further.between).append ?_)
      rw [lastOf_blanks]
      exact hoperand
    refine hfurther.append ?_
    rw [hbehind]
    exact ih (endsOperand_phrase phrase)

/-- The value is read after an equals sign. -/
theorem front (value : Arithmetic) {rest : List Token} (hrest : Apart rest) :
    Front (some Assignment.equals.node) value.tokens rest value.nodes := by
  have hafter := hrest.append_blanks value.after
  have hfirst := value.first.phrase.front (some Assignment.equals.node) _ rfl
    (apart_more value.more hafter)
  have hbehind : lastOf (some Assignment.equals.node) [value.first.phrase.node] =
      some value.first.phrase.node := lastOf_concat_phrase value.first.phrase _ []
  have hmore := front_more value.more (endsOperand_phrase value.first.phrase) hafter
  rw [← List.append_assoc] at hfirst
  refine (Front.blanks value.before).append ?_
  rw [lastOf_blanks]
  refine hfirst.append ?_
  rw [hbehind]
  exact hmore.append (.blanks value.after)

private theorem groupAliases_more (node : Node) (more : List FurtherOperand) (after : List Blank) :
    groupAliases (node :: (more.flatMap FurtherOperand.nodes ++ Blank.nodes after)) =
      node :: (more.flatMap FurtherOperand.nodes ++ Blank.nodes after) := by
  induction more generalizing node with
  | nil => exact groupAliases_cons_blanks node after
  | cons further more ih =>
    have hbars : Bars aliasStep further.operator.node := bars_aliasStep_punctuation _
    have hsplit : node :: ((further :: more).flatMap FurtherOperand.nodes ++ Blank.nodes after) =
        node :: Blank.nodes further.before ++ further.operator.node ::
          (Blank.nodes further.between ++ further.operand.phrase.node ::
            (more.flatMap FurtherOperand.nodes ++ Blank.nodes after)) := by
      simp [FurtherOperand.nodes]
    rw [hsplit, folds_groupAliases.append_cons hbars, groupAliases_cons_blanks,
      folds_groupAliases.append_of_keeps (aliasStep_blanks _), ih]

private theorem isQuiet_loose (value : Arithmetic) : ∀ node ∈ value.loose, isQuiet node = true := by
  have hblanks (blanks : List Blank) : ∀ node ∈ Blank.nodes blanks, isQuiet node = true :=
    Blank.forall_mem_nodes (fun _ ↦ rfl) blanks
  rw [loose, List.forall_mem_append, List.forall_mem_flatMap]
  refine ⟨fun further _ ↦ ?_, hblanks _⟩
  rw [FurtherOperand.nodes, List.forall_mem_append, List.forall_mem_cons, List.forall_mem_append,
    List.forall_mem_singleton]
  exact ⟨hblanks _, further.operator.isQuiet_node.1, hblanks _,
    isQuiet_of_isOperand further.operand.phrase.isOperand_node⟩

/-- What a search for targets makes of the value. -/
def outcome (value : Arithmetic) : SetOutcome :=
  ⟨true, [], false, (lastOf (some value.first.phrase.node) value.loose).any isListItem⟩

/-- The name before an arithmetic value is compared with its first operand. -/
theorem yields (value : Arithmetic) : Yields (groupAliases value.nodes) value.outcome := by
  have hself : groupAliases value.nodes = value.nodes := by
    rw [nodes, folds_groupAliases.append_of_keeps (aliasStep_blanks _), loose, groupAliases_more]
  rw [hself]
  exact .compared (Blank.isBlank_nodes value.before) value.first.phrase.isOperand_node
    value.isQuiet_loose

end Arithmetic

/-- The columns of an update with arithmetic values are the names that they are assigned to, by
their last parts and in their order. -/
theorem columnCandidates_arithmetic (update : SetUpdate Arithmetic) :
    (groupStatement (update.tokens Arithmetic.tokens)).columnCandidates = update.names := by
  rw [SetUpdate.columnCandidates_eq (fun value _ ↦ value.front) Arithmetic.yields]
  have hcompared (first second : SetItem Arithmetic) :
      first.value.outcome.closes = true → second.value.outcome.compared = true := fun _ ↦ rfl
  exact (SetOutcome.found_eq_map_iff fun _ _ ↦ rfl).2
    ⟨(List.pairwise_of_forall hcompared).isChain, fun _ _ ↦ rfl⟩

/-- `UPDATE t SET a = x + f(y, 2) * 3, b = c || d;`. -/
def SetUpdate.sumAndJoin : SetUpdate Arithmetic where
  head := .updateT
  items := ⟨
    ⟨.spaced (.bare "a" (.refl false)), [.space], .column (NameWord.bare "x" (.refl false)).plain,
      [⟨[.space], .symbol ⟨"+", by decide⟩ (by decide), [.space],
          .call ⟨(NameWord.bare "f" (.refl false)).plain, by decide,
            [.word ⟨"y", none⟩, .comma, .blank .space, .number "2" false], by decide⟩⟩,
        ⟨[.space], .star, [.space], .value (.number "3")⟩], []⟩,
    [⟨.spaced (.bare "b" (.refl false)), [.space],
      .column (NameWord.bare "c" (.refl false)).plain,
      [⟨[.space], .symbol ⟨"||", by decide⟩ (by decide), [.space],
        .column (NameWord.bare "d" (.refl false)).plain⟩], []⟩]⟩
  ending := .semicolon []

/-- The operands behind the first are no columns, be they a call or the item before a comma. -/
theorem columnCandidates_sumAndJoin :
    Token.shown (SetUpdate.sumAndJoin.tokens Arithmetic.tokens) =
        "UPDATE t SET a = x + f(y, 2) * 3, b = c || d;" ∧
      (groupStatement (SetUpdate.sumAndJoin.tokens Arithmetic.tokens)).columnCandidates =
        ["a", "b"] := by
  constructor
  · decide +kernel
  · exact columnCandidates_arithmetic SetUpdate.sumAndJoin

end SqlFootprint
