import SqlFootprint.Proofs.Conditions
import SqlFootprint.Proofs.Scans

/-!
# The tables of a selection

A `SELECT` of columns from tables and joins has as its tables exactly the references after `FROM`
and `JOIN`, in their order and by their last parts (`tableCandidates_select`). Aliases, columns and
the names in conditions are none of them, however many references, joins and conjuncts there are.
-/

namespace SqlFootprint

/-! ### Selections -/

/-- A table with or without an alias. -/
structure TableReference where
  name : PlainName
  aliasPhrase : Option Alias

/-- The reference as an item of a list. -/
def TableReference.phrase (reference : TableReference) : Grouping.ItemPhrase :=
  reference.name.phrase.item reference.aliasPhrase

/-- A column or a value in a condition. -/
inductive Operand where
  | column (name : PlainName)
  | value (literal : LiteralToken)

/-- The operand as a phrase. -/
def Operand.phrase : Operand → Grouping.AliasedPhrase
  | column name => name.phrase
  | value literal => literal.phrase

/-- Two operands that are compared. -/
structure Comparison where
  left : Operand
  /-- The blanks before the operator. -/
  before : List Blank
  operator : Grouping.ComparisonOperator
  /-- The blanks after the operator. -/
  after : List Blank
  right : Operand

/-- The comparison as a phrase. -/
def Comparison.phrase (comparison : Comparison) : Grouping.ComparisonPhrase :=
  ⟨comparison.left.phrase, comparison.before, comparison.operator, comparison.after,
    comparison.right.phrase⟩

/-- One comparison or more with `AND` between them. -/
structure Condition where
  first : Padded Comparison
  more : List (Spelled ["AND"] × Padded Comparison)

/-- The tokens of a condition. -/
def Condition.tokens (condition : Condition) : List Token :=
  condition.first.tokens (·.phrase.tokens) ++
    condition.more.flatMap fun (word, comparison) ↦
      word.token :: comparison.tokens (·.phrase.tokens)

/-- A table that is joined, with the words that say how and the condition, if there is one. -/
structure Join where
  modifiers : List (Spelled Keyword.joinModifierWords × List Blank)
  joinWord : Spelled ["JOIN"]
  reference : Padded TableReference
  on : Option (Spelled ["ON"] × Condition)

/-- The tokens of a join. -/
def Join.tokens (join : Join) : List Token :=
  (join.modifiers.flatMap fun (word, blanks) ↦ word.token :: Blank.tokens blanks) ++
    join.joinWord.token :: (join.reference.tokens (·.phrase.tokens) ++
      join.on.elim [] fun (word, condition) ↦ word.token :: condition.tokens)

/-- A selection of columns from tables and joins. -/
structure Selection where
  /-- The blanks before the selection. -/
  before : List Blank
  selectWord : Spelled ["SELECT"]
  columns : CommaList (Padded PlainName)
  fromWord : Spelled ["FROM"]
  tables : CommaList (Padded TableReference)
  joins : List Join
  condition : Option (Spelled ["WHERE"] × Condition)
  /-- The blanks after the semicolon, if there is one. -/
  semicolon : Option (List Blank)

/-- The tokens of a selection. -/
def Selection.tokens (selection : Selection) : List Token :=
  Blank.tokens selection.before ++ selection.selectWord.token ::
    (selection.columns.tokens PlainName.tokens ++ selection.fromWord.token ::
      (selection.tables.tokens (·.phrase.tokens) ++ selection.joins.flatMap Join.tokens ++
        (selection.condition.elim [] fun (word, condition) ↦ word.token :: condition.tokens) ++
        selection.semicolon.elim [] fun blanks ↦ .semicolon :: Blank.tokens blanks))

/-- The table references of a selection, in their order. -/
def Selection.references (selection : Selection) : List TableReference :=
  selection.tables.items ++ selection.joins.map fun join ↦ join.reference.item

/-! ### Clauses of a selection -/

/-- A keyword with what follows it in a selection. -/
inductive Piece where
  | tables (word : Spelled ["FROM", "JOIN"]) (tables : CommaList (Padded TableReference))
  | modifier (word : Spelled Keyword.joinModifierWords) (blanks : List Blank)
  | condition (word : Spelled ["ON", "WHERE", "AND"]) (comparison : Padded Comparison)

namespace Piece

open Grouping

/-- The tokens of a piece. -/
def tokens : Piece → List Token
  | tables word list => word.token :: list.tokens (·.phrase.tokens)
  | modifier word blanks => word.token :: Blank.tokens blanks
  | condition word comparison => word.token :: comparison.tokens (·.phrase.tokens)

/-- The nodes of a piece. -/
def nodes : Piece → List Node
  | tables word list => word.node :: list.nodes (·.phrase.node)
  | modifier word blanks => word.node :: Blank.nodes blanks
  | condition word comparison => word.node :: comparison.nodes fun item ↦ [item.phrase.node]

/-- The tables of a piece, by their last parts. -/
def names : Piece → List String
  | tables _ list => list.items.map fun reference ↦ reference.name.lastPart
  | modifier _ _ | condition _ _ => []

private theorem makes_append {last : Option Node} {tokens : List Token} {nodes : List Node}
    (h : Makes last tokens nodes) (pieces : List Piece) :
    Makes last (tokens ++ pieces.flatMap Piece.tokens) (nodes ++ pieces.flatMap Piece.nodes) := by
  induction pieces generalizing tokens nodes with
  | nil => simpa using h
  | cons piece pieces ih =>
    rw [List.flatMap_cons, List.flatMap_cons, ← List.append_assoc, ← List.append_assoc]
    apply ih
    cases piece with
    | tables word list =>
      apply h.append_clause word (by decide)
      exact ItemPhrase.makes_list _ (startsItem_keyword word (by decide)) list
    | modifier word blanks =>
      apply h.append_keyword word (by decide) (by decide)
      · exact fun rest hrest hparen ↦ absurd hparen (hrest.append_blanks blanks).head?_ne
      · exact .blanks blanks
    | condition word comparison =>
      apply h.append_clause word (by decide)
      exact ComparisonPhrase.makes _ comparison (startsItem_keyword word (by decide))

/-- A reference has the last part of its name, with an alias and without. -/
theorem identifier?_reference (reference : TableReference) :
    reference.phrase.node.identifier?.map Identifier.name = some reference.name.lastPart := by
  rcases reference with ⟨name, aliasPhrase⟩
  rw [← name.identifier_name]
  cases aliasPhrase with
  | none => rfl
  | some phrase => rfl

/-- The tables of pieces are those of each piece, wherever the scan stands before them. -/
theorem scanLists_pieces {ending : List Node}
    (hending : ∀ scan last, Tables.scanLists scan last ending = []) (pieces : List Piece)
    (scan : Tables.Scan) (last : Option Node) :
    Tables.scanLists scan last (pieces.flatMap nodes ++ ending) = pieces.flatMap names := by
  induction pieces generalizing scan last with
  | nil => exact hending scan last
  | cons piece pieces ih =>
    rw [List.flatMap_cons, List.flatMap_cons, List.append_assoc]
    cases piece with
    | tables word list =>
      have hkeyword := isAnyKeyword_node (fun reference ↦ reference.phrase.isItem) list
      obtain ⟨hname, hnames⟩ := isName_node identifier?_reference list
      rw [nodes, CommaList.nodes, List.cons_append, List.append_assoc, List.cons_append,
        Tables.scanLists_tables hkeyword hname, Tables.scanLists_blanks, ih, hnames]
      rfl
    | modifier word blanks =>
      rw [nodes, List.cons_append, Tables.scanLists_keyword, Tables.scanLists_blanks, ih]
      rfl
    | condition word comparison =>
      have hname : comparison.item.phrase.node.isName = false := rfl
      rw [nodes, Padded.nodes, List.cons_append, Tables.scanLists_keyword, List.append_assoc,
        Tables.scanLists_blanks, List.append_assoc, List.singleton_append,
        Tables.scanLists_skip rfl (by simp [hname]), Tables.scanLists_blanks, ih]
      rfl

end Piece

/-! ### A selection as pieces -/

/-- A condition after a keyword, as pieces. -/
def Condition.pieces (word : Spelled ["ON", "WHERE", "AND"]) (condition : Condition) : List Piece :=
  .condition word condition.first ::
    condition.more.map fun (word, comparison) ↦ .condition (word.widen (by decide)) comparison

/-- A join as pieces. -/
def Join.pieces (join : Join) : List Piece :=
  (join.modifiers.map fun (word, blanks) ↦ .modifier word blanks) ++
    .tables (join.joinWord.widen (by decide)) ⟨join.reference, []⟩ ::
      join.on.elim [] fun (word, condition) ↦ condition.pieces (word.widen (by decide))

/-- What follows the columns of a selection, as pieces. -/
def Selection.pieces (selection : Selection) : List Piece :=
  .tables (selection.fromWord.widen (by decide)) selection.tables ::
    (selection.joins.flatMap Join.pieces ++
      selection.condition.elim [] fun (word, condition) ↦
        condition.pieces (word.widen (by decide)))

/-- The pieces of a condition have its tokens. -/
theorem Condition.tokens_pieces {words : List String} (word : Spelled words)
    (h : ∀ entry ∈ words, entry ∈ ["ON", "WHERE", "AND"]) (condition : Condition) :
    (condition.pieces (word.widen h)).flatMap Piece.tokens = word.token :: condition.tokens := by
  rw [pieces, List.flatMap_cons, List.flatMap_map]
  rfl

private theorem Join.tokens_pieces (join : Join) :
    join.pieces.flatMap Piece.tokens = join.tokens := by
  rcases join with ⟨modifiers, joinWord, reference, on⟩
  rw [pieces, List.flatMap_append, List.flatMap_map, List.flatMap_cons, tokens]
  cases on with
  | none => simp [Piece.tokens, CommaList.tokens, CommaList.joined]
  | some on => simp [Piece.tokens, CommaList.tokens, CommaList.joined, Condition.tokens_pieces]

/-- The pieces of a condition have no tables. -/
theorem Condition.names_pieces (word : Spelled ["ON", "WHERE", "AND"]) (condition : Condition) :
    (condition.pieces word).flatMap Piece.names = [] := by
  rw [pieces, List.flatMap_cons, List.flatMap_map]
  simp [Piece.names]

private theorem Join.names_pieces (join : Join) :
    join.pieces.flatMap Piece.names = [join.reference.item.name.lastPart] := by
  rcases join with ⟨modifiers, joinWord, reference, on⟩
  rw [pieces, List.flatMap_append, List.flatMap_map, List.flatMap_cons]
  cases on with
  | none => simp [Piece.names, CommaList.items, CommaList.things]
  | some on => simp [Piece.names, CommaList.items, CommaList.things, Condition.names_pieces]

private theorem Selection.tokens_pieces (selection : Selection) :
    selection.tokens = Blank.tokens selection.before ++ selection.selectWord.token ::
      (selection.columns.tokens PlainName.tokens ++ selection.pieces.flatMap Piece.tokens ++
        selection.semicolon.elim [] fun blanks ↦ .semicolon :: Blank.tokens blanks) := by
  have hjoins : (selection.joins.flatMap Join.pieces).flatMap Piece.tokens =
      selection.joins.flatMap Join.tokens := by
    rw [List.flatMap_assoc]
    simp only [Join.tokens_pieces]
  rw [pieces, List.flatMap_cons, List.flatMap_append, hjoins, tokens]
  cases selection.condition with
  | none => simp [Piece.tokens]
  | some condition => simp [Piece.tokens, Condition.tokens_pieces]

/-- The tables of the pieces of a selection are its references. -/
theorem Selection.names_pieces (selection : Selection) :
    selection.pieces.flatMap Piece.names =
      selection.references.map fun reference ↦ reference.name.lastPart := by
  have hjoins : (selection.joins.flatMap Join.pieces).flatMap Piece.names =
      selection.joins.map fun join ↦ join.reference.item.name.lastPart := by
    rw [List.flatMap_assoc]
    simp only [Join.names_pieces]
    exact List.map_eq_flatMap.symm
  rw [pieces, List.flatMap_cons, List.flatMap_append, hjoins, references, List.map_append,
    List.map_map]
  cases selection.condition with
  | none => simp [Piece.names]
  | some condition => simp [Piece.names, Condition.names_pieces]

/-- A column as an item of a list. -/
def PlainName.column (name : PlainName) : Grouping.ItemPhrase := name.phrase.item none

/-- The nodes of a selection. -/
def Selection.nodes (selection : Selection) : List Node :=
  Blank.nodes selection.before ++ selection.selectWord.node ::
    (selection.columns.nodes (·.column.node) ++ selection.pieces.flatMap Piece.nodes ++
      selection.semicolon.elim [] fun blanks ↦ .punctuation ";" :: Blank.nodes blanks)

/-- A selection is grouped to its nodes. -/
theorem Selection.makes (selection : Selection) :
    Grouping.Makes none selection.tokens selection.nodes := by
  have hcolumns : (fun name : PlainName ↦ name.column.tokens) = PlainName.tokens :=
    funext fun name ↦ List.append_nil _
  have hselect : Grouping.Makes none
      (Blank.tokens selection.before ++ selection.selectWord.token ::
        selection.columns.tokens PlainName.tokens)
      (Blank.nodes selection.before ++ selection.selectWord.node ::
        selection.columns.nodes (·.column.node)) := by
    apply (Grouping.Makes.blanks selection.before).append_clause _ (by decide)
    have hstarts := Grouping.startsItem_keyword selection.selectWord (by decide)
    rw [← hcolumns]
    exact Grouping.ItemPhrase.makes_list _ hstarts selection.columns
  have hmakes := (Piece.makes_append hselect selection.pieces).append_semicolon selection.semicolon
  rw [tokens_pieces, nodes]
  simpa only [List.append_assoc, List.cons_append] using hmakes

/-- The tables of a selection are the last parts of its references, in their order. -/
theorem tableCandidates_select (selection : Selection) :
    (groupStatement selection.tokens).tableCandidates =
      selection.references.map fun reference ↦ reference.name.lastPart := by
  have hkind : ∀ entry ∈ ["SELECT"], StatementKind.ofKeyword? entry = some .select := by decide
  have hscan : Tables.Scan.outside.onKeyword selection.selectWord.text = .outside :=
    Tables.Scan.onKeyword_spelled selection.selectWord (by decide)
  have hkeyword := Grouping.isAnyKeyword_node (fun name : PlainName ↦ name.column.isItem)
    selection.columns
  have hending (scan : Tables.Scan) (last : Option Node) : Tables.scanLists scan last
      (selection.semicolon.elim [] fun blanks ↦ .punctuation ";" :: Blank.nodes blanks) = [] := by
    cases selection.semicolon with
    | none => rfl
    | some blanks => exact Tables.scanLists_blanks_nil scan (some (.punctuation ";")) blanks
  rw [tableCandidates_groupStatement selection.makes.statementNodes_eq, Selection.nodes,
    StatementKind.ofNodes_keyword _ hkind, Tables.candidates, Tables.scanLists_blanks,
    Tables.scanLists_keyword, hscan, CommaList.nodes, List.append_assoc, List.append_assoc,
    Tables.scanLists_blanks, List.cons_append, Tables.scanLists_skip hkeyword fun _ ↦ rfl,
    Tables.scanLists_blanks, Piece.scanLists_pieces hending, selection.names_pieces]

/-- A name of one word, without delimiters. -/
def plainWord (value : String)
    (isName : Keyword.isStructural value = false ∧ Keyword.isLiteral value = false)
    (notStar : value ≠ "*") : PlainName :=
  NameWord.plain ⟨⟨value, none⟩, .inr isName, notStar⟩

example : (Selection.mk [] ⟨"SELECT", by decide⟩
      ⟨⟨[.space], plainWord "a" (by decide) (by decide), [.space]⟩, []⟩ ⟨"FROM", by decide⟩
      ⟨⟨[.space], ⟨plainWord "t" (by decide) (by decide), none⟩, []⟩, []⟩ [] none none).tokens =
    [.word ⟨"SELECT", none⟩, .blank .space, .word ⟨"a", none⟩, .blank .space,
      .word ⟨"FROM", none⟩, .blank .space, .word ⟨"t", none⟩] := rfl

end SqlFootprint
