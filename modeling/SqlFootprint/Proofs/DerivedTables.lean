import SqlFootprint.Proofs.Nesting
import SqlFootprint.Proofs.SingleReferences

/-!
# Tables behind a derived table

A query in parentheses may stand for a table, and other tables may follow it in the same list. Its
parentheses belong to no call, so the list goes on behind them only if it is still open at the end
of the query. `tableCandidates_derived` says for every such query what tables are found, and when
they are those of the query and of the list; `tableCandidates_filtered` is a query whose `WHERE`
hides a table behind it.
-/

namespace SqlFootprint

open Grouping

/-! ### Rows of references -/

namespace SingleReference

/-- The alias, if it is neither folded into the name nor behind `AS`: it stands as a name. -/
def exposed (reference : SingleReference) : List String :=
  ((reference.loose.filter fun phrase ↦ phrase.asWord.isNone).map
    fun phrase ↦ phrase.name.word.value).toList

/-- What the reference gives in a list of tables: its name, and an alias that stands as one. -/
def listed (reference : SingleReference) : List String :=
  reference.name.word.value :: reference.exposed

/-- References give their names alone exactly where no alias stands as a name. -/
theorem flatMap_listed_eq_iff (references : List SingleReference) :
    references.flatMap listed = references.map (·.name.word.value) ↔
      ∀ reference ∈ references, reference.exposed = [] := by
  have hlength : (references.flatMap listed).length =
      references.length + (references.flatMap exposed).length := by
    induction references with
    | nil => rfl
    | cons reference references ih =>
      simp only [List.flatMap_cons, listed, List.length_append, List.length_cons, ih]
      omega
  constructor
  · intro heq
    have hzero : (references.flatMap exposed).length = 0 := by
      rw [heq, List.length_map] at hlength
      omega
    exact List.flatMap_eq_nil_iff.1 (List.length_eq_zero_iff.1 hzero)
  · intro hnone
    have hlisted : ∀ reference ∈ references, reference.listed = [reference.name.word.value] := by
      intro reference hmem
      rw [listed, hnone reference hmem]
    rw [List.map_eq_flatMap, List.flatMap_def, List.flatMap_def, List.map_congr_left hlisted]

private theorem front_row (row : CommaList (Padded SingleReference)) {last : Option Node}
    {rest : List Token} (hrest : Apart rest) :
    Front last (row.tokens tokens) rest (row.spread raw) := by
  refine front_joined (fun _ ↦ True) trivial
    (fun more ↦ apart_cons more rfl Token.noConfusion Token.noConfusion) ?_ trivial hrest row
  intro last rest _ hrest cell
  exact (Front.blanks cell.before).append
    ((cell.item.front (hrest.append_blanks cell.after)).append (.blanks cell.after))

private theorem regroup_row (row : CommaList (Padded SingleReference)) :
    regroup (row.spread raw) = groupLists (row.spread grouped) := by
  have haliases : groupAliases (row.spread raw) = row.spread grouped := by
    refine folds_groupAliases.joined (bars_aliasStep_punctuation ",") (fun cell ↦ ?_) row
    rw [Padded.nodes, folds_groupAliases.append_of_keeps (aliasStep_blanks _),
      cell.item.groupAliases_raw]
    rfl
  have hoperator : ∀ node ∈ row.spread grouped, isComparisonOperator node = false := by
    refine CommaList.forall_mem_spread (P := (isComparisonOperator · = false)) (fun _ ↦ rfl) rfl
      fun reference _ node hmem ↦ ?_
    rw [isComparisonOperator, reference.isAnyPunctuation_grouped node hmem, Bool.false_and]
  rw [regroup, haliases, groupComparisons_eq_self hoperator]

private theorem makes_row (row : CommaList (Padded SingleReference)) {last : Option Node} :
    Makes last (row.tokens tokens) (groupLists (row.spread grouped)) :=
  fun _ hrest ↦ ⟨row.spread raw, front_row row hrest, regroup_row row⟩

end SingleReference

/-- One more thing at the end of a list. -/
def CommaList.snoc {α : Type} (list : CommaList α) (thing : α) : CommaList α :=
  ⟨list.first, list.more ++ [thing]⟩

private theorem CommaList.spread_snoc {α : Type} (inner : α → List Node)
    (list : CommaList (Padded α))
    (cell : Padded α) :
    (list.snoc cell).spread inner = list.spread inner ++ .punctuation "," :: cell.nodes inner := by
  simp [spread, joined, snoc]

namespace Tables

private theorem scanLists_run (run : CommaList (Padded SingleReference)) (last : Option Node)
    (rest : List Node) :
    scanLists .inList last (run.nodes SingleReference.node ++ rest) =
      (if isAliasPlace last then run.more.map (·.item.name.word.value)
        else run.things.map (·.item.name.word.value)) ++
      scanLists .inList (some (run.node SingleReference.node)) rest := by
  have hitem := SingleReference.isListItem_node
  have hname := (isName_node SingleReference.identifier?_node run).1
  have hnames : namesAt last (run.node SingleReference.node) =
      if isAliasPlace last then run.more.map (·.item.name.word.value)
      else run.things.map (·.item.name.word.value) := by
    rw [namesAt, items_node hitem, (isName_node SingleReference.identifier?_node run).2]
    split
    · simp only [CommaList.items, CommaList.things, List.map_cons, List.drop_succ_cons,
        List.drop_zero, List.flatMap_map, SingleReference.realNames_node]
      exact List.map_eq_flatMap.symm
    · simp [CommaList.items]
  rw [CommaList.nodes, List.append_assoc, List.cons_append, scanLists_blanks,
    scanLists_named (isAnyKeyword_node hitem run) hname, scanLists_blanks, hnames]

private theorem groupLists_lead (run : CommaList (Padded SingleReference)) (phrase : SingleAlias)
    (rest : List Node) :
    groupLists ((run.spread fun reference ↦ [reference.node]) ++
        (phrase.lead ++ phrase.name.node :: rest)) =
      run.nodes SingleReference.node ++
        (phrase.lead ++ groupLists (phrase.name.node :: rest)) := by
  have hspan : listSpan false (phrase.lead ++ phrase.name.node :: rest) = 0 := by
    rcases phrase with ⟨before, _ | ⟨word, blanks⟩, name⟩
    · rw [SingleAlias.lead, List.append_nil]
      exact listSpan_blanks_eq_zero before rfl
    · rw [SingleAlias.lead, List.append_assoc]
      exact listSpan_blanks_eq_zero before rfl
  rw [groupLists_spread_append SingleReference.isListItem_node run hspan,
    folds_groupLists.append_of_keeps (phrase.forall_mem_lead (fun _ _ ↦ rfl) fun _ _ ↦ rfl)]

private theorem scanLists_row (references : List (Padded SingleReference))
    (run : CommaList (Padded SingleReference)) (last : Option Node) :
    scanLists .inList last (groupLists ((run.spread fun reference ↦ [reference.node]) ++
        references.flatMap fun cell ↦ .punctuation "," :: cell.nodes SingleReference.grouped)) =
      (if isAliasPlace last then run.more.map (·.item.name.word.value)
        else run.things.map (·.item.name.word.value)) ++
      references.flatMap (·.item.listed) := by
  induction references generalizing run last with
  | nil =>
    have hrun := scanLists_run run last []
    rw [List.append_nil] at hrun
    rw [List.flatMap_nil, List.append_nil, groupLists_spread SingleReference.isListItem_node, hrun]
    rfl
  | cons cell references ih =>
    rcases cell with ⟨before, reference, after⟩
    let tail := references.flatMap fun cell ↦
      .punctuation "," :: cell.nodes SingleReference.grouped
    cases hloose : reference.loose with
    | none =>
      -- The reference goes on with the run.
      have hsplit : (run.spread fun reference ↦ [reference.node]) ++
          (Node.punctuation "," ::
            (Padded.mk before reference after).nodes SingleReference.grouped ++ tail) =
          ((run.snoc ⟨before, reference, after⟩).spread fun reference ↦ [reference.node]) ++
            tail := by
        rw [CommaList.spread_snoc]
        simp [Padded.nodes, SingleReference.grouped, hloose]
      have hlisted : reference.listed = [reference.name.word.value] := by
        simp [SingleReference.listed, SingleReference.exposed, hloose]
      rw [List.flatMap_cons, hsplit, ih, List.flatMap_cons, hlisted]
      split
      · simp [CommaList.snoc]
      · simp [CommaList.snoc, CommaList.things]
    | some phrase =>
      -- The run ends with the name, and another one starts with the alias behind it.
      let run' := run.snoc ⟨before, reference, []⟩
      let next : CommaList (Padded SingleReference) := ⟨⟨[], ⟨phrase.name, none⟩, after⟩, []⟩
      have hsplit : (run.spread fun reference ↦ [reference.node]) ++
          (Node.punctuation "," ::
            (Padded.mk before reference after).nodes SingleReference.grouped ++ tail) =
          (run'.spread fun reference ↦ [reference.node]) ++
            (phrase.lead ++ phrase.name.node :: (Blank.nodes after ++ tail)) := by
        rw [CommaList.spread_snoc]
        simp [Padded.nodes, SingleReference.grouped, hloose, phrase.nodes_eq, Blank.nodes]
      have hnext : phrase.name.node :: (Blank.nodes after ++ tail) =
          (next.spread fun reference ↦ [reference.node]) ++ tail := by
        simp [next, CommaList.spread, CommaList.joined, Padded.nodes, Blank.nodes,
          SingleReference.node]
      have hlist : isAliasPlace (some (run'.node SingleReference.node)) = false := by
        have hmore : run'.more.isEmpty = false := by simp [run', CommaList.snoc]
        rw [CommaList.node, hmore]
        rfl
      obtain ⟨hlead, hplace⟩ := scanLists_lead phrase (some (run'.node SingleReference.node))
        (groupLists ((next.spread fun reference ↦ [reference.node]) ++ tail))
      have hlisted : reference.listed = reference.name.word.value ::
          if phrase.asWord.isSome then [] else [phrase.name.word.value] := by
        rw [SingleReference.listed, SingleReference.exposed, hloose, Option.filter_some]
        cases phrase.asWord with
        | none => rfl
        | some => rfl
      rw [List.flatMap_cons, hsplit, groupLists_lead, scanLists_run, hnext, hlead, ih, hplace,
        hlist, Bool.or_false, List.flatMap_cons, hlisted]
      split
      · split
        · simp [run', next, CommaList.snoc]
        · simp [run', next, CommaList.snoc, CommaList.things]
      · split
        · simp [run', next, CommaList.snoc, CommaList.things]
        · simp [run', next, CommaList.snoc, CommaList.things]

private theorem opensNoList_row (row : CommaList (Padded SingleReference)) :
    ∀ node ∈ groupLists (row.spread SingleReference.grouped), opensNoList node = true := by
  refine folds_groupLists.forall_mem (P := (opensNoList · = true)) ?_ ?_
  · intro node rest kind count hstep children
    obtain ⟨-, -, rfl, -⟩ := listStep_eq_some hstep
    rfl
  · refine CommaList.forall_mem_spread (P := (opensNoList · = true)) (fun _ ↦ rfl) rfl
      fun reference _ ↦ ?_
    have has (word : Spelled ["AS"]) : opensNoList word.node = true :=
      opensNoList_spelled word (by decide) (by decide)
    rw [SingleReference.grouped, List.forall_mem_cons]
    refine ⟨opensNoList_of_isAnyKeyword reference.isName_node.1, ?_⟩
    cases reference.loose with
    | none => exact List.forall_mem_nil _
    | some phrase =>
      rw [Option.elim_some, phrase.nodes_eq, List.forall_mem_append, List.forall_mem_singleton]
      exact ⟨phrase.forall_mem_lead (fun _ ↦ rfl) has, rfl⟩

private theorem Scan.after_append (scan : Scan) (first second : List Node) :
    scan.after (first ++ second) = (scan.after first).after second := List.foldl_append

private theorem Scan.after_blanks (scan : Scan) (blanks : List Blank) :
    scan.after (Blank.nodes blanks) = scan := by
  induction blanks with
  | nil => rfl
  | cons blank blanks ih => exact ih

/-- A list of tables is open at the end of the nodes. -/
def leavesOpen (nodes : List Node) : Bool := decide (Scan.outside.after nodes = .inList)

end Tables

/-! ### Queries in parentheses -/

/-- Tokens that start with `SELECT`, blanks aside, and close as many parentheses as they open. -/
structure Subquery where
  before : List Blank
  selectWord : Spelled ["SELECT"]
  rest : List Token
  balanced : Token.nesting? 0 (Blank.tokens before ++ selectWord.token :: rest) = some 0

namespace Subquery

/-- The tokens of the query. -/
def tokens (body : Subquery) : List Token :=
  Blank.tokens body.before ++ body.selectWord.token :: body.rest

private theorem makesWithin (body : Subquery) : MakesWithin body.tokens
    (statementNodes body.tokens) :=
  fun rest ↦ ⟨_, .within body.balanced rest, (statementNodes_of_nesting body.balanced).symm⟩

/-- Wherever a scan comes to the query, it finds the tables that the query has alone, and goes on as
it does behind the query alone. -/
theorem scanLists_nodes (body : Subquery) (scan : Tables.Scan) (last : Option Node) :
    Tables.scanLists scan last (statementNodes body.tokens) =
        (groupStatement body.tokens).tableCandidates ∧
      scan.after (statementNodes body.tokens) =
        Tables.Scan.outside.after (statementNodes body.tokens) := by
  obtain ⟨after, hafter⟩ :=
    (Cuts.clause body.selectWord (by decide)).exists_statementNodes_eq body.rest
  have hnodes : statementNodes body.tokens =
      Blank.nodes body.before ++ body.selectWord.node :: after := by
    rw [tokens, statementNodes_blanks_append, hafter]
  have hkind : ∀ entry ∈ ["SELECT"], StatementKind.ofKeyword? entry = some .select := by decide
  have hselect : body.selectWord.node.isKeyword "SELECT" = true :=
    body.selectWord.isKeyword_eq (by decide)
  have hscan (scan : Tables.Scan) : scan.onKeyword body.selectWord.text = .outside :=
    Tables.Scan.onKeyword_spelled body.selectWord (by cases scan <;> decide)
  constructor
  · rw [tableCandidates_groupStatement hnodes, StatementKind.ofNodes_keyword _ hkind,
      Tables.candidates, hnodes, Tables.scanLists_blanks, Tables.scanLists_blanks,
      Tables.scanLists_restart hselect (by decide) (by decide) (by decide),
      Tables.scanLists_restart hselect (by decide) (by decide) (by decide)]
  · have hrest (scan : Tables.Scan) : scan.after (statementNodes body.tokens) =
        Tables.Scan.outside.after after := by
      rw [hnodes, Tables.Scan.after_append, Tables.Scan.after_blanks]
      exact congrArg (Tables.Scan.after · after) (hscan scan)
    rw [hrest, hrest]

end Subquery

/-- A query of one column from a query in parentheses and the tables behind it. -/
structure DerivedQuery where
  head : QueryHead
  /-- The blanks before the parentheses. -/
  before : List Blank
  body : Subquery
  /-- The name that the query in parentheses stands under. -/
  name : Padded SingleWord
  references : CommaList (Padded SingleReference)

namespace DerivedQuery

/-- The tokens of the query. -/
def tokens (query : DerivedQuery) : List Token :=
  query.head.tokens (Blank.tokens query.before ++ .openParen :: (query.body.tokens ++
    .closeParen :: (query.name.tokens (fun name ↦ [.word name.word]) ++
      .comma :: query.references.tokens SingleReference.tokens)))

/-- The names of the tables behind the query in parentheses. -/
def names (query : DerivedQuery) : List String :=
  query.references.items.map fun reference ↦ reference.name.word.value

/-- The name and the tables behind it in a row. -/
def row (query : DerivedQuery) : CommaList (Padded SingleReference) :=
  ⟨⟨query.name.before, ⟨query.name.item, none⟩, query.name.after⟩, query.references.things⟩

/-- The tables are those of the query in parentheses and, where it leaves a list of tables open,
what the row behind it gives without the name that comes first. -/
theorem tableCandidates_eq (query : DerivedQuery) :
    (groupStatement query.tokens).tableCandidates =
      (groupStatement query.body.tokens).tableCandidates ++
        if Tables.leavesOpen (groupStatement query.body.tokens).nodes then
          query.references.items.flatMap SingleReference.listed
        else [] := by
  have hmakes : Makes (some query.head.fromWord.node) _ _ :=
    query.body.makesWithin.parens query.before (SingleReference.makes_row query.row)
  have hfrom : Tables.Scan.outside.onKeyword query.head.fromWord.text = .inList :=
    Tables.Scan.onKeyword_spelled query.head.fromWord (by decide)
  have hmark (text : String) : (Node.punctuation text).isName = false := rfl
  have hsolid (last : Option Node) (text : String) :
      Node.lastSignificant last (.punctuation text) = some (.punctuation text) := rfl
  have htokens : query.tokens = query.head.tokens (Blank.tokens query.before ++ .openParen ::
      (query.body.tokens ++ .closeParen :: query.row.tokens SingleReference.tokens)) := rfl
  obtain ⟨hbody, hafter⟩ := query.body.scanLists_nodes .inList (some (.punctuation "("))
  rw [htokens, query.head.tableCandidates_eq hmakes, Tables.scanLists_keyword, hfrom,
    Tables.scanLists_blanks, Tables.scanLists_skip rfl (by simp [hmark]), hsolid,
    Tables.scanLists_append, hbody, hafter, Tables.scanLists_skip rfl (by simp [hmark]), hsolid,
    nodes_groupStatement]
  congr 1
  cases hopen : Tables.Scan.outside.after (statementNodes query.body.tokens) with
  | inList =>
    let run : CommaList (Padded SingleReference) := ⟨query.row.first, []⟩
    have hsplit : query.row.spread SingleReference.grouped =
        (run.spread fun reference ↦ [reference.node]) ++ query.references.things.flatMap fun cell ↦
          .punctuation "," :: cell.nodes SingleReference.grouped := by
      simp [run, row, CommaList.spread, CommaList.joined, Padded.nodes, SingleReference.grouped,
        SingleReference.loose]
    have hrow := Tables.scanLists_row query.references.things run (some (.punctuation ")"))
    have hplace : Tables.isAliasPlace (some (.punctuation ")")) = true := rfl
    rw [hplace, if_pos rfl] at hrow
    rw [Tables.leavesOpen, hopen, hsplit, hrow, decide_eq_true rfl, if_pos rfl, CommaList.items,
      List.flatMap_map]
    rfl
  | outside =>
    rw [Tables.leavesOpen, hopen, (Tables.scanLists_outside (Tables.opensNoList_row _) _).1]
    rfl

end DerivedQuery

/-- What is found behind a query in parentheses: its tables come first, and its name is none. The
tables behind it follow exactly where it leaves a list of tables open, and then they are all that
follows unless an alias among them stands as a name. -/
theorem tableCandidates_derived (query : DerivedQuery) :
    let alone := groupStatement query.body.tokens
    let whole := groupStatement query.tokens
    (whole.tableCandidates = alone.tableCandidates ++
        if Tables.leavesOpen alone.nodes then
          query.references.items.flatMap SingleReference.listed
        else []) ∧
      (whole.tableCandidates = alone.tableCandidates ++ query.names ↔
        Tables.leavesOpen alone.nodes = true ∧
          ∀ reference ∈ query.references.items, reference.exposed = []) := by
  intro alone whole
  have hwhole := query.tableCandidates_eq
  refine ⟨hwhole, ?_⟩
  rw [hwhole, List.append_cancel_left_eq]
  by_cases hopen : Tables.leavesOpen (groupStatement query.body.tokens).nodes = true
  · rw [if_pos hopen, DerivedQuery.names, SingleReference.flatMap_listed_eq_iff]
    exact (and_iff_right hopen).symm
  · rw [if_neg hopen]
    exact ⟨fun hnames ↦ absurd hnames nofun, fun h ↦ absurd h.1 hopen⟩

/-- The query `SELECT c FROM (SELECT n FROM o WHERE x = 1) a, t`. -/
def DerivedQuery.filtered : DerivedQuery where
  head := .selectC
  before := [.space]
  body := ⟨[], QueryHead.selectC.selectWord,
    [.blank .space, .word ⟨"n", none⟩, .blank .space, .word ⟨"FROM", none⟩, .blank .space,
      .word ⟨"o", none⟩, .blank .space, .word ⟨"WHERE", none⟩, .blank .space, .word ⟨"x", none⟩,
      .blank .space, .symbol .equals, .blank .space, .number "1" false], rfl⟩
  name := ⟨[.space], .bare "a" (.refl false), []⟩
  references := ⟨⟨[.space], ⟨.bare "t" (.refl false), none⟩, []⟩, []⟩

/-- A table behind a query with a `WHERE` is not found. -/
theorem tableCandidates_filtered :
    DerivedQuery.filtered.tokens =
        [.word ⟨"SELECT", none⟩, .blank .space, .word ⟨"c", none⟩, .blank .space,
          .word ⟨"FROM", none⟩, .blank .space, .openParen, .word ⟨"SELECT", none⟩, .blank .space,
          .word ⟨"n", none⟩, .blank .space, .word ⟨"FROM", none⟩, .blank .space, .word ⟨"o", none⟩,
          .blank .space, .word ⟨"WHERE", none⟩, .blank .space, .word ⟨"x", none⟩, .blank .space,
          .symbol ⟨"=", by decide⟩, .blank .space, .number "1" false, .closeParen, .blank .space,
          .word ⟨"a", none⟩, .comma, .blank .space, .word ⟨"t", none⟩] ∧
      (groupStatement DerivedQuery.filtered.tokens).tableCandidates = ["o"] ∧
      DerivedQuery.filtered.names = ["t"] ∧
      ¬DerivedQuery.filtered.names <:+
        (groupStatement DerivedQuery.filtered.tokens).tableCandidates := by
  have hfound : (groupStatement DerivedQuery.filtered.tokens).tableCandidates = ["o"] := by
    decide +kernel
  refine ⟨rfl, hfound, rfl, ?_⟩
  rw [hfound]
  decide

end SqlFootprint
