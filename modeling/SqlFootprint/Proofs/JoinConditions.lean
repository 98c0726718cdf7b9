import SqlFootprint.Proofs.Conditions
import SqlFootprint.Proofs.SingleReferences

/-!
# Conditions of a join

`ON` keeps a list of tables going, so what a condition starts with may be taken for a table. A
condition is made of comparisons, tests and single terms with `NOT`, `AND`, `OR` and parentheses.
`tableCandidates_joined` says what the tables of a join under any such condition are: the two tables
and, behind them, the column that the condition starts with, unless it is compared.
-/

namespace SqlFootprint

open Grouping

/-! ### Terms -/

namespace Term

private theorem scanLists_node (term : Term) {last : Option Node}
    (hlast : Tables.isAliasPlace last = false)
    (blanks : List Blank) :
    Tables.scanLists .inList last (term.item.node :: Blank.nodes blanks) = term.names := by
  cases term with
  | column name =>
    have hname : name.item.node.identifier?.map Identifier.name = some name.lastPart :=
      congrArg some name.identifier_name
    rw [item, Tables.scanLists_item hname, hlast, Tables.scanLists_blanks_nil]
    rfl
  | value constant =>
    have hkeyword : constant.phrase.node.isAnyKeyword = false := by
      rw [Node.isAnyKeyword, constant.kind_node]
    have hname : constant.phrase.node.isName = false := by
      rw [Node.isName, Node.identifier?, Node.isList, constant.kind_node]
      rfl
    exact (Tables.scanLists_skip hkeyword (by simp [hname]) last _).trans
      (Tables.scanLists_blanks_nil _ _ blanks)

end Term

/-! ### Conditions -/

/-- The words between the parts of a condition. -/
def conditionWords : List String := ["AND", "OR", "NOT", "IS", "LIKE", "BETWEEN", "IN"]

/-- What follows a word of a test. -/
inductive TestPart where
  | nothing (blanks : List Blank)
  | term (cell : Padded Term)
  | list (before : List Blank) (values : CommaList (Padded Constant)) (after : List Blank)

/-- The tokens of the part. -/
def TestPart.tokens : TestPart → List Token
  | nothing blanks => Blank.tokens blanks
  | term cell => cell.tokens (·.item.tokens)
  | list before values after =>
    Blank.tokens before ++ .openParen :: (values.tokens (fun constant ↦
      (constant.phrase.item none).tokens) ++ .closeParen :: Blank.tokens after)

/-- The nodes of the part. -/
def TestPart.nodes : TestPart → List Node
  | nothing blanks => Blank.nodes blanks
  | term cell => cell.nodes fun term ↦ [term.item.node]
  | list before values after =>
    Blank.nodes before ++ .punctuation "(" :: (values.nodes (fun constant ↦
      (constant.phrase.item none).node) ++ .punctuation ")" :: Blank.nodes after)

/-- A word of a test with what follows it. -/
structure TestClause where
  word : Spelled conditionWords
  part : TestPart

/-- The tokens of the word and what follows it. -/
def TestClause.tokens (clause : TestClause) : List Token := clause.word.token :: clause.part.tokens

/-- The nodes of the word and what follows it. -/
def TestClause.nodes (clause : TestClause) : List Node := clause.word.node :: clause.part.nodes

/-- What a term is tested for. -/
inductive Test where
  /-- `IS [NOT] NULL`; the blanks are those before `NOT`. -/
  | isNull (word : Spelled ["IS"]) (negation : Option (List Blank × Spelled ["NOT"]))
    (null : Padded (Spelled ["NULL"]))
  /-- `[NOT] LIKE` a pattern; the blanks are those after `NOT`. -/
  | like (negation : Option (Spelled ["NOT"] × List Blank)) (word : Spelled ["LIKE"])
    (pattern : Padded Constant)
  /-- `[NOT] BETWEEN` two terms; the blanks are those after `NOT`. -/
  | between (negation : Option (Spelled ["NOT"] × List Blank)) (word : Spelled ["BETWEEN"])
    (low : Padded Term) (andWord : Spelled ["AND"]) (high : Padded Term)
  /-- `[NOT] IN` a list of values; the blanks are those after `NOT`. -/
  | among (negation : Option (Spelled ["NOT"] × List Blank)) (word : Spelled ["IN"])
    (before : List Blank) (values : CommaList (Padded Constant)) (after : List Blank)

namespace Test

/-- The clause of a `NOT`, if there is one. -/
def negated (negation : Option (Spelled ["NOT"] × List Blank)) : List TestClause :=
  negation.toList.map fun (word, blanks) ↦ ⟨word.widen (by decide), .nothing blanks⟩

/-- A test as a row of words with what follows each. -/
def clauses : Test → List TestClause
  | isNull word negation null =>
    let value : Padded Term :=
      ⟨null.before, .value (.word (null.item.widen (by decide))), null.after⟩
    match negation with
    | none => [⟨word.widen (by decide), .term value⟩]
    | some (blanks, notWord) =>
      [⟨word.widen (by decide), .nothing blanks⟩, ⟨notWord.widen (by decide), .term value⟩]
  | like negation word pattern =>
    negated negation ++
      [⟨word.widen (by decide), .term ⟨pattern.before, .value pattern.item, pattern.after⟩⟩]
  | between negation word low andWord high =>
    negated negation ++
      [⟨word.widen (by decide), .term low⟩, ⟨andWord.widen (by decide), .term high⟩]
  | among negation word before values after =>
    negated negation ++ [⟨word.widen (by decide), .list before values after⟩]

end Test

/-- A condition with the blanks around it. -/
inductive Predicate where
  | compare (cell : Padded TermComparison)
  | term (cell : Padded Term)
  | tested (subject : Padded Term) (test : Test)
  | negate (before : List Blank) (word : Spelled ["NOT"]) (inner : Predicate)
  | both (left : Predicate) (word : Spelled ["AND", "OR"]) (right : Predicate)
  | parens (before : List Blank) (inner : Predicate) (after : List Blank)

namespace Predicate

/-- The tokens of the condition. -/
def tokens : Predicate → List Token
  | compare cell => cell.tokens TermComparison.tokens
  | term cell => cell.tokens (·.item.tokens)
  | tested subject test =>
    subject.tokens (·.item.tokens) ++ test.clauses.flatMap TestClause.tokens
  | negate before word inner => Blank.tokens before ++ word.token :: inner.tokens
  | both left word right => left.tokens ++ word.token :: right.tokens
  | parens before inner after =>
    Blank.tokens before ++ .openParen :: (inner.tokens ++ .closeParen :: Blank.tokens after)

/-- The nodes of the condition. -/
def nodes : Predicate → List Node
  | compare cell => cell.nodes fun comparison ↦ [comparison.node]
  | term cell => cell.nodes fun term ↦ [term.item.node]
  | tested subject test =>
    (subject.nodes fun term ↦ [term.item.node]) ++ test.clauses.flatMap TestClause.nodes
  | negate before word inner => Blank.nodes before ++ word.node :: inner.nodes
  | both left word right => left.nodes ++ word.node :: right.nodes
  | parens before inner after =>
    Blank.nodes before ++ .punctuation "(" :: (inner.nodes ++ .punctuation ")" :: Blank.nodes after)

/-- The column that the condition starts with, by its last part, unless it is compared: it may stand
behind parentheses, but not behind `NOT`. -/
def opening : Predicate → List String
  | compare _ => []
  | term cell => cell.item.names
  | tested subject _ => subject.item.names
  | negate _ _ _ => []
  | both left _ _ => left.opening
  | parens _ inner _ => inner.opening

end Predicate

/-! ### What a condition starts with -/

/-- The tokens make the nodes wherever an item may start, and no list of tables starts there. -/
structure Passes (tokens : List Token) (nodes : List Node) : Prop where
  makes : ∀ last, startsItem last = true → Makes last tokens nodes
  opens : ∀ node ∈ nodes, Tables.opensNoList node = true

/-- Moreover, in a list of tables, where no alias stands, the nodes give the names. -/
structure Leads (tokens : List Token) (nodes : List Node) (names : List String) : Prop
    extends Passes tokens nodes where
  scan : ∀ last, Tables.isAliasPlace last = false → Tables.scanLists .inList last nodes = names

/-- A part of a test starts no list of tables. -/
theorem TestPart.passes (part : TestPart) : Passes part.tokens part.nodes := by
  cases part with
  | nothing blanks => exact ⟨fun _ _ ↦ .blanks blanks, Tables.opensNoList_blanks blanks⟩
  | term cell =>
    refine ⟨fun last hlast ↦ ItemPhrase.makes Term.item hlast cell, ?_⟩
    exact Tables.opensNoList_padded (·.item.node) cell (of_isOperand cell.item.isOperand_item).1
  | list before values after =>
    have hlist : Makes (some (.punctuation "("))
        (values.tokens fun constant ↦ (constant.phrase.item none).tokens)
        (values.nodes fun constant ↦ (constant.phrase.item none).node) :=
      ItemPhrase.makes_list _ rfl values
    refine ⟨fun last _ ↦ hlist.within.parens before (.blanks after), ?_⟩
    simp only [TestPart.nodes, List.forall_mem_append, List.forall_mem_cons]
    exact ⟨Tables.opensNoList_blanks before, rfl,
      Tables.opensNoList_list (fun constant ↦ (constant.phrase.item none).isItem) values, rfl,
      Tables.opensNoList_blanks after⟩

namespace Leads

variable {tokens more : List Token} {nodes others : List Node} {names : List String}

private theorem blanks (blanks : List Blank) : Leads (Blank.tokens blanks) (Blank.nodes blanks)
    [] where
  makes _ _ := .blanks blanks
  opens := Tables.opensNoList_blanks blanks
  scan last _ := Tables.scanLists_blanks_nil .inList last blanks

private theorem term (cell : Padded Term) :
    Leads (cell.tokens (·.item.tokens)) (cell.nodes fun term ↦ [term.item.node])
      cell.item.names where
  toPasses := (TestPart.term cell).passes
  scan last hlast := by
    rw [Padded.nodes, Tables.scanLists_blanks]
    exact cell.item.scanLists_node hlast cell.after

private theorem compare (cell : Padded TermComparison) :
    Leads (cell.tokens TermComparison.tokens) (cell.nodes fun comparison ↦ [comparison.node])
      [] where
  makes _ hlast := TermComparison.makes cell hlast
  opens := Tables.opensNoList_padded TermComparison.node cell rfl
  scan last _ := by
    have hname : cell.item.node.isName = false := rfl
    rw [Padded.nodes, Tables.scanLists_blanks, List.singleton_append,
      Tables.scanLists_skip rfl (by simp [hname]), Tables.scanLists_blanks_nil]

/-- A word of a condition ends the search for the column that it starts with. -/
theorem append_keyword (h : Leads tokens nodes names) (word : Spelled conditionWords)
    (hmore : Passes more others) :
    Leads (tokens ++ word.token :: more) (nodes ++ word.node :: others) names where
  makes last hlast := (h.makes last hlast).append_clause word (by decide)
    (hmore.makes _ (startsItem_keyword word (by decide)))
  opens := by
    have hword := Tables.opensNoList_spelled word (by decide) (by decide)
    rw [List.forall_mem_append, List.forall_mem_cons]
    exact ⟨h.opens, hword, hmore.opens⟩
  scan last hlast := by
    have hends : Tables.Scan.inList.onKeyword word.text = .outside :=
      Tables.Scan.onKeyword_spelled word (by decide)
    have hword : word.node.isKeyword word.text = true := Text.sameWord_self word.text
    rw [Tables.scanLists_append, h.scan last hlast,
      Tables.scanLists_restart hword hends (word.sameWord_eq (by decide))
        (word.sameWord_eq (by decide)),
      (Tables.scanLists_outside hmore.opens none).1, List.append_nil]

private theorem parens (h : Leads tokens nodes names) (before after : List Blank) :
    Leads (Blank.tokens before ++ .openParen :: (tokens ++ .closeParen :: Blank.tokens after))
      (Blank.nodes before ++ .punctuation "(" :: (nodes ++ .punctuation ")" :: Blank.nodes after))
      names where
  makes last _ := (h.makes _ rfl).within.parens before (.blanks after)
  opens := by
    simp only [List.forall_mem_append, List.forall_mem_cons]
    exact ⟨Tables.opensNoList_blanks before, rfl, h.opens, rfl, Tables.opensNoList_blanks after⟩
  scan last _ := by
    have hmark (text : String) : (Node.punctuation text).isName = false := rfl
    have hopen : Node.lastSignificant last (.punctuation "(") = some (.punctuation "(") := rfl
    rw [Tables.scanLists_blanks, Tables.scanLists_skip rfl (by simp [hmark]), hopen,
      Tables.scanLists_append, h.scan _ rfl, Tables.scanLists_skip rfl (by simp [hmark]),
      Tables.scanLists_blanks_nil, List.append_nil]

private theorem append_clauses (h : Leads tokens nodes names) (clauses : List TestClause) :
    Leads (tokens ++ clauses.flatMap TestClause.tokens) (nodes ++ clauses.flatMap TestClause.nodes)
      names := by
  induction clauses generalizing tokens nodes with
  | nil => simpa using h
  | cons clause clauses ih =>
    have hclause := ih (h.append_keyword clause.word clause.part.passes)
    rwa [List.append_assoc, List.append_assoc] at hclause

end Leads

/-- A condition makes its nodes, and in a list of tables they give what it starts with. -/
theorem Predicate.leads (condition : Predicate) :
    Leads condition.tokens condition.nodes condition.opening := by
  induction condition with
  | compare cell => exact .compare cell
  | term cell => exact .term cell
  | tested subject test => exact (Leads.term subject).append_clauses test.clauses
  | negate before word inner ih =>
    exact (Leads.blanks before).append_keyword (word.widen (by decide)) ih.toPasses
  | both left word right ihLeft ihRight =>
    exact ihLeft.append_keyword (word.widen (by decide)) ihRight.toPasses
  | parens before inner after ih => exact ih.parens before after

/-! ### Joins under a condition -/

/-- A query of one column from two tables that are joined on a condition. -/
structure JoinedQuery where
  head : QueryHead
  left : Padded SingleReference
  joinWord : Spelled ["JOIN"]
  right : Padded SingleReference
  onWord : Spelled ["ON"]
  condition : Predicate

/-- The tokens of the query. -/
def JoinedQuery.tokens (query : JoinedQuery) : List Token :=
  query.head.tokens (query.left.tokens SingleReference.tokens ++ query.joinWord.token ::
    (query.right.tokens SingleReference.tokens ++ query.onWord.token :: query.condition.tokens))

/-- The tables of a join are the two that are joined, and behind them the column that the condition
starts with, if it is not compared. -/
theorem tableCandidates_joined (query : JoinedQuery) :
    (groupStatement query.tokens).tableCandidates =
      query.left.item.name.word.value :: query.right.item.name.word.value ::
        query.condition.opening := by
  have hon : Makes (some query.onWord.node) query.condition.tokens query.condition.nodes :=
    query.condition.leads.makes _ (startsItem_keyword query.onWord (by decide))
  have hmakes : Makes (some query.head.fromWord.node) _ _ :=
    (SingleReference.makes query.left).append_clause query.joinWord (by decide)
      ((SingleReference.makes query.right).append_clause query.onWord (by decide) hon)
  have hscan : Tables.Scan.inList.onKeyword query.onWord.text = .inList :=
    Tables.Scan.onKeyword_spelled query.onWord (by decide)
  have hplace := Tables.isAliasPlace_spelled query.onWord (by decide) (by decide)
  let fromWord : Spelled ["FROM", "JOIN"] := query.head.fromWord.widen (by decide)
  let joinWord : Spelled ["FROM", "JOIN"] := query.joinWord.widen (by decide)
  have hleft := Tables.scanLists_reference .outside none fromWord query.left query.joinWord
    (query.right.nodes SingleReference.grouped ++ query.onWord.node :: query.condition.nodes)
  have hright := Tables.scanLists_reference .inList none joinWord query.right query.onWord
    query.condition.nodes
  have hcondition : Tables.scanLists .inList none (query.onWord.node :: query.condition.nodes) =
      query.condition.opening := by
    rw [Tables.scanLists_keyword, hscan]
    exact query.condition.leads.scan _ hplace
  rw [JoinedQuery.tokens, query.head.tableCandidates_eq hmakes]
  exact hleft.trans (congrArg _ (hright.trans (congrArg _ hcondition)))

/-- The query `SELECT c FROM t JOIN u ON a IS NULL`. -/
def JoinedQuery.onNull : JoinedQuery where
  head := .selectC
  left := ⟨[.space], ⟨.bare "t" (.refl false), none⟩, [.space]⟩
  joinWord := ⟨"JOIN", .refl true⟩
  right := ⟨[.space], ⟨.bare "u" (.refl false), none⟩, [.space]⟩
  onWord := ⟨"ON", .refl true⟩
  condition := .tested ⟨[.space], .column (SingleWord.bare "a" (.refl false)).path, [.space]⟩
    (.isNull ⟨"IS", .refl true⟩ none ⟨[.space], ⟨"NULL", .refl true⟩, []⟩)

/-- A column that is tested for `NULL` right after `ON` is taken for a table. -/
theorem tableCandidates_onNull :
    JoinedQuery.onNull.tokens =
        [.word ⟨"SELECT", none⟩, .blank .space, .word ⟨"c", none⟩, .blank .space,
          .word ⟨"FROM", none⟩, .blank .space, .word ⟨"t", none⟩, .blank .space,
          .word ⟨"JOIN", none⟩, .blank .space, .word ⟨"u", none⟩, .blank .space,
          .word ⟨"ON", none⟩, .blank .space, .word ⟨"a", none⟩, .blank .space, .word ⟨"IS", none⟩,
          .blank .space, .word ⟨"NULL", none⟩] ∧
      (groupStatement JoinedQuery.onNull.tokens).tableCandidates = ["t", "u", "a"] ∧
      (groupStatement JoinedQuery.onNull.tokens).tableCandidates ≠
        [JoinedQuery.onNull.left.item.name.word.value,
          JoinedQuery.onNull.right.item.name.word.value] := by
  have hfound : (groupStatement JoinedQuery.onNull.tokens).tableCandidates = ["t", "u", "a"] := by
    decide +kernel
  refine ⟨rfl, hfound, ?_⟩
  rw [hfound]
  decide

end SqlFootprint
