import SqlFootprint.Proofs.Items
import SqlFootprint.Proofs.Scans

/-!
# The columns of a projection

The columns of `SELECT .. FROM ..` are what its items stand for, in their order
(`columnCandidates_projection`): a name for itself, a call for its text, a star for itself and a
value for nothing. No alias counts, nothing within the arguments of a call, and nothing after
`FROM`.
-/

namespace SqlFootprint

/-! ### Calls -/

/-- A name with arguments in parentheses. -/
structure Call where
  name : PlainName
  notStar : name.lastPart.toList.getLast? ≠ some '*'
  arguments : List Token
  balanced : Token.nesting? 0 arguments = some 0

namespace Call

open Grouping

/-- The tokens of the call. -/
def tokens (call : Call) : List Token :=
  call.name.tokens ++ .openParen :: call.arguments ++ [.closeParen]

/-- The node of the call. -/
def node (call : Call) : Node :=
  callNode call.name.dotted [] (regroup (level none 0 call.arguments).1) true

/-- The text of the call: its tokens as they are shown. -/
def text (call : Call) : String := Token.shown (call.tokens.filter (· ≠ .endOfInput))

/-- The call is read as one node where it does not follow `INTO`. -/
theorem front (call : Call) {last : Option Node} (hinto : follows last "INTO" = false)
    (rest : List Token) : Front last call.tokens rest [call.node] := by
  obtain ⟨nodes, hreads⟩ := exists_reads_of_nesting none call.balanced
  have hlevel := congrArg Prod.fst hreads.level_eq
  rw [node, hlevel]
  exact .call call.name hinto call.notStar hreads call.balanced

private theorem text_node (call : Call) : call.node.text = call.text := by
  have hreads : Reads none 0 (call.tokens ++ []) ([call.node] ++ []) [] :=
    call.front rfl [] 0 [] [] .done
  obtain ⟨consumed, htokens, hconserve⟩ := hreads.conserve
  have htext := hconserve.textOf_eq hreads.formed
  rw [List.append_nil, List.append_nil] at htokens
  rw [List.append_nil, Node.textOf_cons, Node.textOf_nil, String.append_empty, ← htokens] at htext
  exact htext

/-- The call as what takes an alias. -/
def phrase (call : Call) : AliasedPhrase where
  tokens := call.tokens
  node := call.node
  kind aliasName := .function call.name.dotted.identifier.fullName (some aliasName)
  takesAlias := rfl
  front _ rest hlast _ := call.front (startsItem_iff.1 hlast).2 rest

end Call

/-! ### Items of a projection -/

/-- An item of a projection. -/
inductive ProjectionItem where
  | column (name : PlainName) (aliasPhrase : Option Alias)
  | call (function : Call) (aliasPhrase : Option Alias)
  | star
  | qualifiedStar (name : PlainName)
  | value (literal : LiteralToken) (aliasPhrase : Option Alias)

namespace Grouping

/-- Tokens that make one node, which takes no alias. -/
def ItemPhrase.single (tokens : List Token) (node : Node) (isItem : isListItem node = true)
    (noAlias : aliasedKind? node = none)
    (front : ∀ last rest, startsItem last = true → Front last tokens rest [node]) :
    ItemPhrase where
  tokens := tokens
  raw := [node]
  node := node
  isItem := isItem
  front last rest hlast _ := front last rest hlast
  folds blanks := by
    have hkeeps : ∀ child ∈ node :: Blank.nodes blanks, ∀ rest, aliasStep child rest = none := by
      refine List.forall_mem_cons.2 ⟨fun rest ↦ ?_, aliasStep_blanks blanks⟩
      rw [aliasStep, noAlias]
      rfl
    exact folds_groupAliases.eq_self_of_keeps hkeeps

/-- A star that no operand stands before is one for all columns. -/
def starPhrase : ItemPhrase :=
  .single [.star] (.leaf .wildcard "*") rfl rfl (by
    intro last rest hlast
    have hstar : starNode last = .leaf .wildcard "*" := by
      rw [starNode, (startsItem_iff.1 hlast).1]
      rfl
    rw [← hstar]
    exact .leaf rfl Token.noConfusion Token.noConfusion)

end Grouping

namespace PlainName

open Grouping

/-- The name with a star as one more part. -/
def starred (name : PlainName) : DottedName :=
  ⟨.ofWord name.first.word, name.further.map .ofWord ++ [⟨"*", "*", false⟩]⟩

/-- A star after a name is its last part. -/
theorem identifier_starred (name : PlainName) :
    name.starred.identifier.name = "*" ∧
      name.starred.identifier.fullName = name.fullName ++ ".*" := by
  constructor
  · simp [DottedName.identifier, DottedName.last, starred, List.getLastD_eq_getLast?]
  · have hvalues : name.starred.parts.map NamePart.value =
        (name.first.word :: name.further).map Word.value ++ ["*"] := by
      simp [DottedName.parts, starred, NamePart.ofWord, Function.comp_def]
    have hstar : "." ++ "*" = ".*" := rfl
    rw [DottedName.identifier_fullName, DottedName.joined, hvalues, fullName,
      String.intercalate_append_of_ne_nil (by simp) (by simp), String.intercalate_singleton,
      String.append_assoc, hstar]

private theorem front_starred (name : PlainName) (last : Option Node) (rest : List Token) :
    Front last (name.tokens ++ [.period, .star]) rest [name.starred.node] := by
  intro depth more left h
  let tokens := name.furtherTokens ++ .period :: .star :: rest
  have hread : DottedName.read name.first.word tokens = name.starred := by
    have hfurther : furtherParts tokens = name.starred.further :=
      furtherParts_words name.notStar (.period :: .star :: rest)
    rw [DottedName.read, hfurther]
    rfl
  have hafter : afterName name.first.word tokens = rest := by
    have hlength : name.starred.furtherTokens =
        (name.furtherTokens ++ [Token.period, Token.star]).length := by
      simp [furtherTokens, DottedName.furtherTokens, starred, List.map_const']
      omega
    have hsplit : tokens = (name.furtherTokens ++ [.period, .star]) ++ rest := by simp [tokens]
    rw [afterName, hread, hlength, hsplit, List.drop_left]
  have hgap : callGap? last name.starred rest = none := by
    have hstar : name.starred.identifier.fullName.toList.getLast? = some '*' := by
      rw [name.identifier_starred.2, String.toList_append, List.getLast?_append]
      rfl
    simp [callGap?, hstar]
  have htokens : name.tokens ++ [.period, .star] ++ rest = .word name.first.word :: tokens := by
    simp [PlainName.tokens, tokens]
  rw [htokens, List.singleton_append, ← hread]
  refine .name (wordRole_nameWord name.first _) ?_ ?_
  · rw [hread, hafter, hgap]
  · rw [hread, hafter]
    exact h

/-- A name with a star is an item, which takes no alias. -/
def starPhrase (name : PlainName) : ItemPhrase :=
  .single (name.tokens ++ [.period, .star]) name.starred.node rfl
    (if_pos name.identifier_starred.1) fun last rest _ ↦ name.front_starred last rest

end PlainName

namespace ProjectionItem

/-- The item as a phrase. -/
def phrase : ProjectionItem → Grouping.ItemPhrase
  | column name aliasPhrase => name.phrase.item aliasPhrase
  | call function aliasPhrase => function.phrase.item aliasPhrase
  | star => Grouping.starPhrase
  | qualifiedStar name => name.starPhrase
  | value literal aliasPhrase => literal.phrase.item aliasPhrase

/-- The columns that the item stands for. -/
def columns : ProjectionItem → List String
  | column name _ => [name.fullName]
  | call function _ => [Columns.derived function.text]
  | star => ["*"]
  | qualifiedStar name => [name.fullName ++ ".*"]
  | value _ _ => []

private theorem columnsOf_node (item : ProjectionItem) :
    Columns.columnsOf item.phrase.node = item.columns := by
  cases item with
  | column name aliasPhrase =>
    rw [columns, ← name.identifier_fullName]
    cases aliasPhrase with
    | none => rfl
    | some aliasPhrase => rfl
  | call function aliasPhrase =>
    rw [columns, ← function.text_node]
    cases aliasPhrase with
    | none => rfl
    | some aliasPhrase => rfl
  | star => rfl
  | qualifiedStar name =>
    rw [columns, ← name.identifier_starred.2]
    rfl
  | value literal aliasPhrase =>
    cases aliasPhrase with
    | none => rfl
    | some aliasPhrase => rfl

end ProjectionItem

/-! ### Projections -/

/-- A selection up to `FROM`, and whatever tokens follow it. -/
structure Projection where
  /-- The blanks before the selection. -/
  before : List Blank
  selectWord : Spelled ["SELECT"]
  /-- The blanks before a quantifier, and the quantifier. -/
  quantifier : Option (List Blank × Spelled ["DISTINCT", "ALL"])
  items : CommaList (Padded ProjectionItem)
  fromWord : Spelled ["FROM"]
  rest : List Token

namespace Projection

open Grouping

/-- The tokens of a projection. -/
def tokens (projection : Projection) : List Token :=
  Blank.tokens projection.before ++ projection.selectWord.token ::
    ((projection.quantifier.elim [] fun (blanks, word) ↦ Blank.tokens blanks ++ [word.token]) ++
      (projection.items.tokens (·.phrase.tokens) ++ projection.fromWord.token :: projection.rest))

/-- The nodes between `SELECT` and `FROM`. -/
def clause (projection : Projection) : List Node :=
  (projection.quantifier.elim [] fun (blanks, word) ↦ Blank.nodes blanks ++ [word.node]) ++
    projection.items.nodes (·.phrase.node)

/-- A projection is grouped up to `FROM` whatever follows. -/
theorem exists_statementNodes_eq (projection : Projection) :
    ∃ after, statementNodes projection.tokens =
      Blank.nodes projection.before ++ projection.selectWord.node ::
        (projection.clause ++ projection.fromWord.node :: after) := by
  rcases projection with ⟨before, selectWord, quantifier, items, fromWord, rest⟩
  have hbefore : Makes none (Blank.tokens before) (Blank.nodes before) := .blanks before
  cases quantifier with
  | none =>
    have hitems := ItemPhrase.makes_list ProjectionItem.phrase
      (startsItem_keyword selectWord (by decide)) items
    have hmakes := hbefore.append_clause selectWord (by decide) hitems
    obtain ⟨after, hafter⟩ := hmakes.exists_statementNodes_eq fromWord (by decide) rest
    refine ⟨after, ?_⟩
    simpa [tokens, clause] using hafter
  | some quantifier =>
    rcases quantifier with ⟨blanks, word⟩
    have hitems := ItemPhrase.makes_list ProjectionItem.phrase
      (startsItem_keyword word (by decide)) items
    have hselect := hbefore.append_clause selectWord (by decide) (.blanks blanks)
    have hmakes := hselect.append_clause word (by decide) hitems
    obtain ⟨after, hafter⟩ := hmakes.exists_statementNodes_eq fromWord (by decide) rest
    refine ⟨after, ?_⟩
    simpa [tokens, clause] using hafter

end Projection

/-! ### Scanning a projection -/

/-- A list gives the columns of its items up to `FROM`, but for a first one that is an alias. -/
theorem Columns.scanItems_listed {α : Type} {inner : α → Node}
    (hitem : ∀ item, Grouping.isListItem (inner item) = true) (list : CommaList (Padded α))
    (fromWord : Spelled ["FROM"]) (last : Option Node) (after : List Node) :
    scanItems .items last (list.nodes inner ++ fromWord.node :: after) =
      (if Node.introducesAlias last then list.items.drop 1 else list.items).flatMap
        fun item ↦ columnsOf (inner item) := by
  have hkeyword (word : String) : (list.node inner).isKeyword word = false := by
    rw [Node.isKeyword, Grouping.isAnyKeyword_node hitem, Bool.false_and]
  have hfrom (last : Option Node) : scanItems .items last (fromWord.node :: after) = [] := by
    have hword : fromWord.node.isKeyword "FROM" = true := fromWord.isKeyword_eq (by decide)
    rw [scanItems, hword, if_pos rfl]
  rw [CommaList.nodes, List.append_assoc, scanItems_blanks, List.cons_append,
    scanItems_items (hkeyword "FROM") (hkeyword "CASE"), scanItems_blanks, hfrom, List.append_nil,
    Node.itemsAfterAlias, Grouping.items_node hitem, ← List.map_drop]
  split
  · rw [List.flatMap_map]
  · rw [List.flatMap_map]

private theorem Columns.scanItems_list (items : CommaList (Padded ProjectionItem))
    (fromWord : Spelled ["FROM"]) {last : Option Node}
    (hlast : Node.introducesAlias last = false) (after : List Node) :
    scanItems .items last (items.nodes (·.phrase.node) ++ fromWord.node :: after) =
      items.items.flatMap ProjectionItem.columns := by
  rw [scanItems_listed fun item ↦ item.phrase.isItem, hlast, if_neg Bool.false_ne_true]
  simp only [ProjectionItem.columnsOf_node]

/-- The clause of a projection gives what its items stand for, up to `FROM`. -/
theorem Projection.scanItems_clause (projection : Projection) (after : List Node) :
    Columns.scanItems .items none (projection.clause ++ projection.fromWord.node :: after) =
      projection.items.items.flatMap ProjectionItem.columns := by
  rcases projection with ⟨before, selectWord, quantifier, items, fromWord, rest⟩
  cases quantifier with
  | none => exact Columns.scanItems_list items fromWord rfl after
  | some quantifier =>
    rcases quantifier with ⟨blanks, word⟩
    have halias : Node.introducesAlias (some word.node) = false := by
      have has : word.node.isKeyword "AS" = false := word.isKeyword_eq (by decide)
      have hend : word.node.isKeyword "END" = false := word.isKeyword_eq (by decide)
      rw [Node.introducesAlias, Option.any_some, has, hend]
      rfl
    simp only [clause, Option.elim_some, List.append_assoc, List.cons_append, List.nil_append]
    rw [Columns.scanItems_blanks, Columns.scanItems_keyword word (by decide) (by decide)]
    exact Columns.scanItems_list items fromWord halias after

/-- The columns of a projection are what its items stand for, in their order. -/
theorem columnCandidates_projection (projection : Projection) :
    (groupStatement projection.tokens).columnCandidates =
      projection.items.items.flatMap ProjectionItem.columns := by
  have hkind : ∀ entry ∈ ["SELECT"], StatementKind.ofKeyword? entry = some .select := by decide
  obtain ⟨after, hnodes⟩ := projection.exists_statementNodes_eq
  rw [columnCandidates_groupStatement hnodes, StatementKind.ofNodes_keyword _ hkind,
    Columns.candidates, Columns.projection, Node.afterKeyword?_blanks,
    Node.afterKeyword?_keyword _ (by decide)]
  exact projection.scanItems_clause after

end SqlFootprint
