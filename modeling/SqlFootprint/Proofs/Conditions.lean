import SqlFootprint.Proofs.Items

/-!
# Comparisons in a statement

Two phrases with an operator between them are grouped to one comparison
(`ComparisonPhrase.makes`), whatever blanks stand around the three. In conditions the two are terms,
names or values.
-/

namespace SqlFootprint.Grouping

/-- A symbol that compares. -/
structure ComparisonOperator where
  symbol : Symbol
  compares : symbol.text ∈ comparisonOperators

/-- The operator as a mark. -/
def ComparisonOperator.node (operator : ComparisonOperator) : Node :=
  .punctuation operator.symbol.text

/-- Two phrases that are compared. -/
structure ComparisonPhrase where
  left : AliasedPhrase
  /-- The blanks before the operator. -/
  before : List Blank
  operator : ComparisonOperator
  /-- The blanks after the operator. -/
  after : List Blank
  right : AliasedPhrase

private theorem ComparisonOperator.isComparisonOperator_node (operator : ComparisonOperator) :
    isComparisonOperator operator.node = true := by
  rw [isComparisonOperator]
  exact List.elem_eq_true_of_mem operator.compares

/-- Behind an operator that compares, an operand is searched. -/
theorem ComparisonOperator.comparisonAfter?_node (operator : ComparisonOperator)
    (blanks : List Blank) (rest : List Node) :
    comparisonAfter? (Blank.nodes blanks ++ operator.node :: rest) =
      (Node.significant? rest).bind fun (right, count) ↦
        if isOperand right then
          some (operator.symbol.text, right,
            (Blank.nodes blanks ++ [operator.node]).length + count)
        else none := by
  have hoperator := Node.significant?_blanks_append blanks operator.node rest rfl
  have hcompares := operator.isComparisonOperator_node
  rw [isComparisonOperator] at hcompares
  rw [comparisonAfter?, hoperator]
  simp only [hcompares, ↓reduceIte]
  rw [Blank.drop_nodes_append]
  rfl

/-- What takes an alias can be compared. -/
theorem AliasedPhrase.isOperand_node (phrase : AliasedPhrase) : isOperand phrase.node = true :=
  (isOperand_of_aliasedKind? phrase.takesAlias).1

/-- The nodes of two operands with an operator between them. -/
def comparedNodes (left : Node) (before : List Blank) (operator : ComparisonOperator)
    (after : List Blank) (right : Node) : List Node :=
  left :: (Blank.nodes before ++ operator.node :: (Blank.nodes after ++ [right]))

section

variable {left right : Node} (before : List Blank) (operator : ComparisonOperator)
  (after : List Blank)

/-- Two operands are read with the operator between them. -/
theorem Front.compared {last : Option Node} {leftTokens rightTokens rest : List Token}
    (hleft : ∀ rest, Apart rest → Front last leftTokens rest [left])
    (hright : ∀ last rest, startsItem last = true → Apart rest →
      Front last rightTokens rest [right]) (hrest : Apart rest) :
    Front last (leftTokens ++ (Blank.tokens before ++ .symbol operator.symbol ::
      (Blank.tokens after ++ rightTokens))) rest
      (comparedNodes left before operator after right) := by
  have hoperator (last : Option Node) (rest : List Token) :
      Front last [.symbol operator.symbol] rest [operator.node] :=
    .leaf rfl Token.noConfusion Token.noConfusion
  have hstarts : startsItem (some operator.node) = true := by
    have hclose : operator.symbol.text ≠ ")" := by
      intro heq
      have hmem := operator.compares
      rw [heq] at hmem
      exact absurd hmem (by decide)
    simp [startsItem, endsOperand, follows, isOperand, ComparisonOperator.node, Node.punctuation,
      Node.isPunctuation, Node.isKeyword, Node.isAnyKeyword, hclose]
  have hbehind : Front (lastOf (some operator.node) (Blank.nodes after)) rightTokens rest
      [right] := by
    rw [lastOf_blanks]
    exact hright _ _ hstarts hrest
  have hapart : Apart (Blank.tokens before ++ .symbol operator.symbol ::
      (Blank.tokens after ++ rightTokens) ++ rest) := by
    rw [List.append_assoc]
    exact (apart_cons _ rfl Token.noConfusion Token.noConfusion).append_blanks before
  refine (hleft _ hapart).append ((Front.blanks before).append ?_)
  exact (hoperator _ _).append ((Front.blanks after).append hbehind)

/-- No alias is folded around an operator. -/
theorem groupAliases_compared (outside behind : List Blank) :
    groupAliases (Blank.nodes outside ++
        (comparedNodes left before operator after right ++ Blank.nodes behind)) =
      Blank.nodes outside ++
        (comparedNodes left before operator after right ++ Blank.nodes behind) := by
  have hoperand (operand : Node) (outside behind : List Blank) :
      groupAliases (Blank.nodes outside ++ operand :: Blank.nodes behind) =
        Blank.nodes outside ++ operand :: Blank.nodes behind := by
    rw [folds_groupAliases.append_of_keeps (aliasStep_blanks _), groupAliases_cons_blanks]
  have hsplit : Blank.nodes outside ++
        (comparedNodes left before operator after right ++ Blank.nodes behind) =
      (Blank.nodes outside ++ left :: Blank.nodes before) ++
        operator.node :: (Blank.nodes after ++ right :: Blank.nodes behind) := by
    simp [comparedNodes]
  have hbars : Bars aliasStep operator.node := bars_aliasStep_punctuation _
  rw [hsplit, folds_groupAliases.append_cons hbars, hoperand, hoperand]

variable (hleft : isOperand left = true) (hright : isOperand right = true)

include hright

private theorem comparisonAfter?_compared (rest : List Node) :
    comparisonAfter? (Blank.nodes before ++ operator.node ::
        (Blank.nodes after ++ right :: rest)) =
      some (operator.symbol.text, right,
        (Blank.nodes before ++ operator.node :: (Blank.nodes after ++ [right])).length) := by
  have hblank : right.isBlank = false :=
    (of_isListItem (isListItem_of_isOperand hright)).1
  rw [operator.comparisonAfter?_node, Node.significant?_blanks_append after right rest hblank]
  simp only [Option.bind_some, hright, ↓reduceIte, List.length_append, List.length_cons,
    List.length_nil, Option.some.injEq, Prod.mk.injEq, true_and]
  omega

include hleft

/-- Two operands and the operator between them make a comparison. -/
theorem groupComparisons_compared (outside behind : List Blank) :
    groupComparisons (Blank.nodes outside ++
        (comparedNodes left before operator after right ++ Blank.nodes behind)) =
      Blank.nodes outside ++ .group (.comparison left operator.symbol.text right)
        (comparedNodes left before operator after right) :: Blank.nodes behind := by
  let following := Blank.nodes before ++ operator.node :: (Blank.nodes after ++ [right])
  have hfold : comparisonStep left (following ++ Blank.nodes behind) =
      some (.comparison left operator.symbol.text right, following.length) := by
    have hafter := comparisonAfter?_compared before operator after hright (Blank.nodes behind)
    have hsplit : following ++ Blank.nodes behind = Blank.nodes before ++
        operator.node :: (Blank.nodes after ++ right :: Blank.nodes behind) := by
      simp [following]
    rw [comparisonStep, if_pos hleft, hsplit, hafter]
    rfl
  have hgroup := folds_groupComparisons.fold hfold
  rw [List.take_left, List.drop_left,
    folds_groupComparisons.eq_self_of_keeps (comparisonStep_blanks _)] at hgroup
  rw [folds_groupComparisons.append_of_keeps (comparisonStep_blanks _)]
  exact congrArg _ hgroup

/-- Two operands with an operator between them, and blanks around the three, make one node. -/
theorem regroup_compared (outside behind : List Blank) :
    regroup (Blank.nodes outside ++
        (comparedNodes left before operator after right ++ Blank.nodes behind)) =
      Blank.nodes outside ++ .group (.comparison left operator.symbol.text right)
        (comparedNodes left before operator after right) :: Blank.nodes behind := by
  have hcomma (blanks : List Blank) :
      ∀ node ∈ Blank.nodes blanks, node.isPunctuation "," = false :=
    Blank.forall_mem_nodes (fun _ ↦ rfl) blanks
  rw [regroup, groupAliases_compared,
    groupComparisons_compared before operator after hleft hright, groupLists_eq_self]
  rw [List.forall_mem_append, List.forall_mem_cons]
  exact ⟨hcomma _, rfl, hcomma _⟩

end

namespace ComparisonPhrase

/-- The tokens of the comparison. -/
def tokens (phrase : ComparisonPhrase) : List Token :=
  phrase.left.tokens ++ (Blank.tokens phrase.before ++ .symbol phrase.operator.symbol ::
    (Blank.tokens phrase.after ++ phrase.right.tokens))

/-- The nodes that a level reads. -/
def raw (phrase : ComparisonPhrase) : List Node :=
  phrase.left.node :: (Blank.nodes phrase.before ++ phrase.operator.node ::
    (Blank.nodes phrase.after ++ [phrase.right.node]))

/-- The comparison as one node. -/
def node (phrase : ComparisonPhrase) : Node :=
  .group (.comparison phrase.left.node phrase.operator.symbol.text phrase.right.node) phrase.raw

/-- The two phrases are read with the operator between them. -/
theorem front (phrase : ComparisonPhrase) {last : Option Node} {rest : List Token}
    (hlast : startsItem last = true) (hrest : Apart rest) :
    Front last phrase.tokens rest phrase.raw :=
  .compared _ _ _ (fun rest hrest ↦ phrase.left.front last rest hlast hrest) phrase.right.front
    hrest

/-- A comparison with blanks around it makes one node. -/
theorem makes {α : Type} (phrase : α → ComparisonPhrase) (cell : Padded α) {last : Option Node}
    (hlast : startsItem last = true) :
    Makes last (cell.tokens fun item ↦ (phrase item).tokens)
      (cell.nodes fun item ↦ [(phrase item).node]) := by
  intro rest hrest
  refine ⟨cell.nodes fun item ↦ (phrase item).raw, ?_, ?_⟩
  · refine (Front.blanks cell.before).append ?_
    rw [lastOf_blanks]
    exact ((phrase cell.item).front hlast (hrest.append_blanks cell.after)).append
      (.blanks cell.after)
  · exact regroup_compared _ _ _ (phrase cell.item).left.isOperand_node
      (phrase cell.item).right.isOperand_node cell.before cell.after

end ComparisonPhrase

end SqlFootprint.Grouping

namespace SqlFootprint

open Grouping

/-! ### Terms -/

/-- A word that is a value, as a phrase. -/
def Spelled.literalPhrase (word : Spelled Keyword.literalWords) : AliasedPhrase where
  tokens := [word.token]
  node := .leaf .literal word.text
  kind _ := .literal
  takesAlias := rfl
  front last rest _ _ := by
    have hrole : wordRole ⟨word.text, none⟩ rest = .value := by
      have hliteral : Keyword.isLiteral word.text = true := word.listed_eq (by decide)
      rw [wordRole, if_neg (by simp), if_pos hliteral]
    refine .leaf ?_ Token.noConfusion Token.noConfusion
    simp only [Spelled.token, tokenNode?, hrole]

/-- A value: a number, a string or one of the words that are values. -/
inductive Constant where
  | token (literal : LiteralToken)
  | word (spelled : Spelled Keyword.literalWords)

/-- A number as a value. -/
def Constant.number (text : String) : Constant := .token ⟨.number text false, rfl⟩

/-- A value as a phrase. -/
def Constant.phrase : Constant → AliasedPhrase
  | token literal => literal.phrase
  | word spelled => spelled.literalPhrase

/-- A value is a literal. -/
theorem Constant.kind_node (value : Constant) : value.phrase.node.kind = .literal := by
  cases value with
  | token => rfl
  | word => rfl

/-- A name or a value. -/
inductive Term where
  | column (name : NamePath)
  | value (constant : Constant)

namespace Term

/-- The term as an item. -/
def item : Term → ItemPhrase
  | column name => name.item
  | value constant => constant.phrase.item none

/-- The name that the term is, if it is one, by its last part. -/
def names : Term → List String
  | column name => [name.lastPart]
  | value _ => []

/-- A term is read as one node. -/
theorem raw_item (term : Term) : term.item.raw = [term.item.node] := by
  cases term with
  | column => rfl
  | value => rfl

/-- A term can be compared. -/
theorem isOperand_item (term : Term) : isOperand term.item.node = true := by
  cases term with
  | column => rfl
  | value constant => exact constant.phrase.isOperand_node

/-- The name of a term is that of its node. -/
theorem names_node (term : Term) :
    term.item.node.identifier?.toList.map Identifier.name = term.names := by
  cases term with
  | column name => exact congrArg (fun name ↦ [name]) name.identifier_name
  | value constant =>
    have hkind : constant.phrase.node.kind = .literal := constant.kind_node
    have hnone : constant.phrase.node.identifier? = none := by rw [Node.identifier?, hkind]
    exact congrArg (fun found ↦ found.toList.map Identifier.name) hnone

/-- A term is read before what stands apart. -/
theorem front (term : Term) {last : Option Node} {rest : List Token}
    (hlast : startsItem last = true) (hrest : Apart rest) :
    Front last term.item.tokens rest [term.item.node] := by
  rw [← term.raw_item]
  exact term.item.front last rest hlast hrest

end Term

/-- Two terms that are compared. -/
structure TermComparison where
  left : Term
  /-- The blanks before the operator. -/
  before : List Blank
  operator : ComparisonOperator
  /-- The blanks after the operator. -/
  after : List Blank
  right : Term

/-- The tokens of the comparison. -/
def TermComparison.tokens (comparison : TermComparison) : List Token :=
  comparison.left.item.tokens ++
    (Blank.tokens comparison.before ++ .symbol comparison.operator.symbol ::
      (Blank.tokens comparison.after ++ comparison.right.item.tokens))

/-- The comparison as one node. -/
def TermComparison.node (comparison : TermComparison) : Node :=
  .group (.comparison comparison.left.item.node comparison.operator.symbol.text
      comparison.right.item.node)
    (comparedNodes comparison.left.item.node comparison.before comparison.operator
      comparison.after comparison.right.item.node)

namespace TermComparison

/-- The nodes that a level reads. -/
def raw (comparison : TermComparison) : List Node :=
  comparedNodes comparison.left.item.node comparison.before comparison.operator comparison.after
    comparison.right.item.node

/-- A comparison is read before what stands apart. -/
theorem front (comparison : TermComparison) {last : Option Node} {rest : List Token}
    (hlast : startsItem last = true) (hrest : Apart rest) :
    Front last comparison.tokens rest comparison.raw :=
  .compared _ _ _ (fun _ hrest ↦ comparison.left.front hlast hrest)
    (fun _ _ hlast hrest ↦ comparison.right.front hlast hrest) hrest

/-- A comparison is read with the blanks around it. -/
theorem front_padded (cell : Padded TermComparison) {last : Option Node} {rest : List Token}
    (hlast : startsItem last = true) (hrest : Apart rest) :
    Front last (cell.tokens tokens) rest (cell.nodes raw) := by
  refine (Front.blanks cell.before).append ?_
  rw [lastOf_blanks]
  exact (cell.item.front hlast (hrest.append_blanks cell.after)).append (.blanks cell.after)

/-- A comparison with blanks around it makes one node. -/
theorem makes (cell : Padded TermComparison) {last : Option Node} (hlast : startsItem last = true) :
    Makes last (cell.tokens tokens) (cell.nodes fun comparison ↦ [comparison.node]) :=
  fun _ hrest ↦ ⟨cell.nodes raw, front_padded cell hlast hrest,
    regroup_compared _ _ _ cell.item.left.isOperand_item cell.item.right.isOperand_item cell.before
      cell.after⟩

end TermComparison

end SqlFootprint
