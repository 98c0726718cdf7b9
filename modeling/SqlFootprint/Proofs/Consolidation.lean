import SqlFootprint.Proofs.Clauses
import SqlFootprint.Proofs.InPlaceColumns

/-!
# The sets of a statement

The candidates of a statement are made into sets: `Analysis.mem_columns_consolidate` and
`Analysis.mem_tables_consolidate` say which of them are reported. From that alone it follows that
neither their order nor how often they come counts (`Analysis.consolidate_congr`) and that sets
which are consolidated again stay as they are (`Analysis.consolidate_self`).
`analysis_of_program` says what this means for the tree of any calls of a builder.
-/

namespace SqlFootprint

namespace NameSet

private theorem mem_names_iff {set : NameSet} {name : String} :
    name ∈ set.names ↔ name ∈ set := Iff.rfl

/-- The empty set has no members. -/
theorem not_mem_empty (name : String) : name ∉ (∅ : NameSet) := List.not_mem_nil

/-- A set without members is the empty one. -/
theorem eq_empty {set : NameSet} (h : ∀ name, name ∉ set) : set = ∅ :=
  ext fun name ↦ ⟨fun hmem ↦ absurd hmem (h name), fun hmem ↦ absurd hmem (not_mem_empty name)⟩

end NameSet

namespace Analysis

private theorem isColumn_iff {tables : List String} {name : String} :
    isColumn tables name = true ↔ name ≠ "" ∧
      (∀ word ∈ Keyword.reservedWords, Text.folded word ≠ Text.folded name) ∧
      ∀ table ∈ tables, Text.folded table ≠ Text.folded name := by
  have hlisted (words : List String) :
      Text.listed words name = false ↔ ∀ word ∈ words, Text.folded word ≠ Text.folded name := by
    rw [← Bool.not_eq_true, Text.listed_iff]
    simp only [not_exists, not_and, ne_eq]
  rw [isColumn, Bool.and_eq_true, Bool.and_eq_true, bne_iff_ne, Bool.not_eq_true',
    Bool.not_eq_true', Keyword.isReserved, hlisted, hlisted, and_assoc]

/-- Which analyses are equal. -/
theorem ext {a b : Analysis} (hkind : a.kind = b.kind)
    (htables : ∀ name, name ∈ a.tables ↔ name ∈ b.tables)
    (hcolumns : ∀ name, name ∈ a.columns ↔ name ∈ b.columns) : a = b := by
  obtain ⟨kind, tables, columns⟩ := a
  cases hkind
  cases NameSet.ext htables
  cases NameSet.ext hcolumns
  rfl

/-! ### What is reported -/

section

variable {kind : StatementKind} {tables columns : List String} {name : String}

/-- The tables that are reported are the candidates that are not empty. -/
theorem mem_tables_consolidate :
    name ∈ (consolidate kind tables columns).tables ↔ name ∈ tables ∧ name ≠ "" := by
  show name ∈ NameSet.ofList (tables.filter (· != "")) ↔ _
  rw [NameSet.mem_ofList_iff, List.mem_filter, bne_iff_ne]

/-- The columns that are reported are the candidates that are not empty, not reserved and none of
the tables that are reported, unless the statement is a `DELETE`. -/
theorem mem_columns_consolidate :
    name ∈ (consolidate kind tables columns).columns ↔ kind ≠ .delete ∧ name ∈ columns ∧
      name ≠ "" ∧ (∀ word ∈ Keyword.reservedWords, Text.folded word ≠ Text.folded name) ∧
      ∀ table ∈ (consolidate kind tables columns).tables,
        Text.folded table ≠ Text.folded name := by
  have htables : (∀ table ∈ tables.filter (· != ""), Text.folded table ≠ Text.folded name) ↔
      ∀ table ∈ (consolidate kind tables columns).tables,
        Text.folded table ≠ Text.folded name := by
    refine forall_congr' fun table ↦ imp_congr_left ?_
    rw [mem_tables_consolidate, List.mem_filter, bne_iff_ne]
  rw [← htables]
  by_cases hdelete : kind = .delete
  · subst hdelete
    constructor
    · intro hmem
      exact absurd hmem (NameSet.not_mem_empty name)
    · rintro ⟨hkind, -⟩
      exact absurd rfl hkind
  · have hcolumns : (consolidate kind tables columns).columns =
        .ofList (columns.filter (isColumn (tables.filter (· != "")))) := if_neg hdelete
    rw [hcolumns, NameSet.mem_ofList_iff, List.mem_filter, isColumn_iff]
    exact ⟨fun h ↦ ⟨hdelete, h⟩, And.right⟩

/-- Only which names the candidates are counts, not their order and not how often they come. -/
theorem consolidate_congr {others more : List String}
    (htables : ∀ name, name ∈ tables ↔ name ∈ others)
    (hcolumns : ∀ name, name ∈ columns ↔ name ∈ more) :
    consolidate kind tables columns = consolidate kind others more := by
  have hsame (name : String) : name ∈ (consolidate kind tables columns).tables ↔
      name ∈ (consolidate kind others more).tables := by
    rw [mem_tables_consolidate, mem_tables_consolidate, htables]
  apply ext
  · rfl
  · exact hsame
  · intro name
    simp only [mem_columns_consolidate, hsame, hcolumns]

/-- What is consolidated stays as it is when it is consolidated again. -/
theorem consolidate_self (kind : StatementKind) (tables columns : List String) :
    consolidate kind (consolidate kind tables columns).tables.names
        (consolidate kind tables columns).columns.names =
      consolidate kind tables columns := by
  have hsame (name : String) (more : List String) :
      name ∈ (consolidate kind (consolidate kind tables columns).tables.names more).tables ↔
        name ∈ (consolidate kind tables columns).tables := by
    rw [mem_tables_consolidate, NameSet.mem_names_iff, mem_tables_consolidate]
    exact ⟨And.left, fun h ↦ ⟨h, h.2⟩⟩
  apply ext
  · rfl
  · exact (hsame · _)
  · intro name
    rw [mem_columns_consolidate]
    simp only [hsame]
    rw [NameSet.mem_names_iff]
    constructor
    · rintro ⟨-, hmem, -⟩
      exact hmem
    · intro hmem
      obtain ⟨hkind, -, hrest⟩ := mem_columns_consolidate.1 hmem
      exact ⟨hkind, hmem, hrest⟩

end

/-! ### The analysis of a tree -/

variable (tree : TokenTree)

/-- An analysis consolidates the candidates of its tree; a tree of unknown kind has none. -/
theorem ofTree_eq : ofTree tree =
    consolidate tree.statementKind tree.tableCandidates tree.columnCandidates := by
  show (if tree.statementKind = .unknown then ({} : Analysis)
    else consolidate tree.statementKind tree.tableCandidates tree.columnCandidates) = _
  split
  · next hkind =>
    have htables : tree.tableCandidates = Tables.candidates tree.statementKind tree.nodes := rfl
    have hcolumns : tree.columnCandidates = Columns.candidates tree.statementKind tree.nodes := rfl
    rw [htables, hcolumns, hkind]
    rfl
  · rfl

/-- The columns of a statement that projects, inserts or assigns are its candidates, but for empty
ones, reserved words and the names of its tables; other statements have none. -/
theorem mem_columns_ofTree {name : String} :
    name ∈ (ofTree tree).columns ↔
      (tree.statementKind = .select ∨ tree.statementKind = .insert ∨
        tree.statementKind = .update) ∧
      name ∈ tree.columnCandidates ∧ name ≠ "" ∧
      (∀ word ∈ Keyword.reservedWords, Text.folded word ≠ Text.folded name) ∧
      ∀ table ∈ (ofTree tree).tables, Text.folded table ≠ Text.folded name := by
  have hcolumns : tree.columnCandidates = Columns.candidates tree.statementKind tree.nodes := rfl
  rw [ofTree_eq, mem_columns_consolidate]
  cases hkind : tree.statementKind with
  | unknown =>
    rw [hcolumns, hkind]
    simp [Columns.candidates]
  | _ => simp

end Analysis

/-- What is reported of the tree that any calls of a builder make is its kind, the candidates for
tables that are not empty and, of a statement that projects, inserts or assigns, the candidates for
columns that are neither empty nor reserved nor one of these tables, case aside. So no name is
reported twice, nothing is reported of a statement of unknown kind, and no columns of a `DELETE`.
The sets depend on the kind and on which candidates there are only, and make the same sets again. -/
theorem analysis_of_program :
    (∀ (calls : List Builder.Call) (roots : List Nat),
      let tree := (Builder.run calls).finish roots
      ∃ analysis, InPlace.analysis tree = pure analysis ∧
        analysis.kind = tree.statementKind ∧
        (∀ name, name ∈ analysis.tables ↔ name ∈ tree.tableCandidates ∧ name ≠ "") ∧
        (∀ name, name ∈ analysis.columns ↔
          (analysis.kind = .select ∨ analysis.kind = .insert ∨ analysis.kind = .update) ∧
          name ∈ tree.columnCandidates ∧ name ≠ "" ∧
          (∀ word ∈ Keyword.reservedWords, Text.folded word ≠ Text.folded name) ∧
          ∀ table ∈ analysis.tables, Text.folded table ≠ Text.folded name) ∧
        (∀ table ∈ analysis.tables, ∀ column ∈ analysis.columns,
          Text.folded table ≠ Text.folded column) ∧
        (analysis.kind = .unknown → analysis.tables = ∅ ∧ analysis.columns = ∅) ∧
        (analysis.kind = .delete → analysis.columns = ∅)) ∧
    (∀ (kind : StatementKind) (tables others columns more : List String),
      (∀ name, name ∈ tables ↔ name ∈ others) → (∀ name, name ∈ columns ↔ name ∈ more) →
      Analysis.consolidate kind tables columns = Analysis.consolidate kind others more) ∧
    ∀ (kind : StatementKind) (tables columns : List String),
      let analysis := Analysis.consolidate kind tables columns
      Analysis.consolidate analysis.kind analysis.tables.names analysis.columns.names =
        analysis := by
  refine ⟨?_, fun kind tables others columns more ↦ Analysis.consolidate_congr,
    Analysis.consolidate_self⟩
  intro calls roots tree
  have hanalysis : InPlace.analysis tree = pure (.ofTree tree) :=
    InPlace.analysis_eq ((Builder.Records.run calls).normalForm roots).ordered
  have hkind : (Analysis.ofTree tree).kind = tree.statementKind := by rw [Analysis.ofTree_eq]; rfl
  have htables (name : String) :
      name ∈ (Analysis.ofTree tree).tables ↔ name ∈ tree.tableCandidates ∧ name ≠ "" := by
    rw [Analysis.ofTree_eq, Analysis.mem_tables_consolidate]
  have hcolumns (name : String) := @Analysis.mem_columns_ofTree tree name
  refine ⟨.ofTree tree, hanalysis, hkind, htables, ?_, ?_, ?_, ?_⟩
  · rw [hkind]
    exact hcolumns
  · intro table htable column hcolumn
    exact ((hcolumns column).1 hcolumn).2.2.2.2 table htable
  · intro hunknown
    have hnone : tree.tableCandidates = [] := by
      show Tables.candidates tree.statementKind tree.nodes = []
      rw [← hkind, hunknown]
      rfl
    constructor
    · refine NameSet.eq_empty fun name hmem ↦ ?_
      rw [htables, hnone] at hmem
      exact List.not_mem_nil hmem.1
    · refine NameSet.eq_empty fun name hmem ↦ ?_
      rw [hcolumns, ← hkind, hunknown] at hmem
      simp at hmem
  · intro hdelete
    refine NameSet.eq_empty fun name hmem ↦ ?_
    rw [hcolumns, ← hkind, hdelete] at hmem
    simp at hmem

end SqlFootprint
