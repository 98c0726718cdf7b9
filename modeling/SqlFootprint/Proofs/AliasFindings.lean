import SqlFootprint.Proofs.AliasNames

/-!
# Aliases are never found

What a query refers to does not depend on the names after `AS` in it (`findings_renamed`). The scans
for tables and columns read an alias nowhere, and they leave out the first name of what stands after
`AS`, so nodes that trade places give the same (`Tables.scanLists_trade`,
`Columns.projection_trade`).
-/

namespace SqlFootprint

open Grouping Node

section

variable {without : Bool} {first second : Node}

private theorem isKeyword_of_isContent {node : Node} (h : node.isContent = true) (word : String) :
    node.isKeyword word = false ∧ node.isPunctuation word = false := by
  obtain ⟨-, hkeyword, hmark⟩ := of_isContent h
  constructor
  · rw [isKeyword, hkeyword, Bool.false_and]
  · rw [isPunctuation, hmark, Bool.false_and]

/-! ### Kinds -/

private theorem StatementKind.firstOutside_append_cons {node : Node} (h : node.isContent = true)
    (depth : Nat) (front back : List Node) :
    firstOutside depth (front ++ node :: back) = firstOutside depth (front ++ back) := by
  induction front generalizing depth with
  | nil =>
    have hkind : ofNode? node = none := by
      obtain ⟨-, hkeyword, -⟩ := of_isContent h
      rw [ofNode?, hkeyword, if_neg Bool.false_ne_true]
    rw [List.nil_append, firstOutside, (isKeyword_of_isContent h "(").2,
      (isKeyword_of_isContent h ")").2, if_neg Bool.false_ne_true, if_neg Bool.false_ne_true, hkind,
      ite_self]
    rfl
  | cons other front ih =>
    rw [List.cons_append, List.cons_append, firstOutside, firstOutside, ih, ih, ih]

private theorem StatementKind.ofNodes_trade (h : Trades without first second)
    (front back : List Node) :
    ofNodes (front ++ first :: back) = ofNodes (front ++ second :: back) := by
  have hstart {node : Node} (hnode : node.isContent = true) :
      ofNode? node = none ∧ node.isKeyword "WITH" = false := by
    obtain ⟨-, hkeyword, -⟩ := of_isContent hnode
    refine ⟨?_, (isKeyword_of_isContent hnode "WITH").1⟩
    rw [ofNode?, hkeyword, if_neg Bool.false_ne_true]
  rw [ofNodes, ofNodes, List.dropWhile_append, List.dropWhile_append]
  cases hfront : front.dropWhile isBlank with
  | nil =>
    have hfirst := (of_isContent h.content).1
    have hsecond := (of_isContent h.content').1
    rw [List.isEmpty_nil, if_pos rfl, if_pos rfl, List.dropWhile_cons_of_neg (by simp [hfirst]),
      List.dropWhile_cons_of_neg (by simp [hsecond])]
    simp only [hstart h.content, hstart h.content', Bool.false_eq_true, ↓reduceIte]
  | cons node rest =>
    rw [List.isEmpty_cons, if_neg Bool.false_ne_true, if_neg Bool.false_ne_true, List.cons_append,
      List.cons_append]
    simp only [firstOutside_append_cons h.content, firstOutside_append_cons h.content']

/-! ### Tables -/

private theorem Tables.scanLists_append_congr {before nodes others : List Node} {last : Option Node}
    (h : ∀ scan, scanLists scan (lastOf last before) nodes =
      scanLists scan (lastOf last before) others) (scan : Scan) :
    scanLists scan last (before ++ nodes) = scanLists scan last (before ++ others) := by
  induction before generalizing scan last with
  | nil => exact h scan
  | cons node before ih =>
    have hsolid (hblank : node.isBlank = false) : lastSignificant last node = some node := by
      rw [lastSignificant, hblank, if_neg Bool.false_ne_true]
    have hrest (scan : Scan) := ih h scan
    rw [List.cons_append, List.cons_append, scanLists, scanLists]
    split
    · next hkeyword =>
      rw [← hsolid (isBlank_of_isAnyKeyword hkeyword)]
      exact hrest _
    · split
      · next hname =>
        rw [← hsolid (isBlank_of_isName hname.1), hrest]
      · exact hrest _

private theorem Tables.namesAt_trade (h : Trades without first second) {last : Option Node}
    (hplace : without = true ∨ introducesAlias last = true) :
    namesAt last first = namesAt last second := by
  unfold namesAt
  split
  · have hnames (node : Node) : (node.items.drop 1).flatMap realNames =
        ((node.items.drop 1).map face).flatMap fun face ↦ face.2.2 := by
      rw [List.flatMap_map]
      rfl
    rw [hnames, hnames, h.further]
  · next hnot =>
    have hwithout : without = true := by
      rcases hplace with hwithout | hintroduces
      · exact hwithout
      · rw [isAliasPlace, hintroduces] at hnot
        exact absurd rfl hnot
    have hnames (node : Node) : node.realNames =
        (node.items.map face).filterMap fun face ↦ face.2.1 := by
      rw [List.filterMap_map]
      rfl
    rw [hnames, hnames, h.all hwithout]

/-- Nodes that trade places give the same tables with what stands behind them. -/
theorem Tables.scanLists_trade (h : Trades without first second) {last : Option Node}
    (hplace : without = true ∨ introducesAlias last = true) (scan : Scan) (back : List Node) :
    scanLists scan last (first :: back) = scanLists scan last (second :: back) := by
  obtain ⟨hblank, hkeyword, -⟩ := of_isContent h.content
  obtain ⟨hblank', hkeyword', -⟩ := of_isContent h.content'
  have hname : first.isName = second.isName := by
    rw [isName, isName, h.isSome_identifier?, h.isList_eq]
  have hlast : isAliasPlace (some first) = isAliasPlace (some second) := by
    simp only [isAliasPlace, introducesAlias, Option.any_some, isKeyword_of_isContent h.content,
      isKeyword_of_isContent h.content', h.isSome_identifier?]
  rw [scanLists, scanLists, hkeyword, hkeyword', hname, namesAt_trade h hplace, lastSignificant,
    lastSignificant, hblank, hblank']
  simp only [scanLists_congr hlast, Bool.false_eq_true, ↓reduceIte]

/-! ### Columns -/

private theorem Columns.scanItems_trade (h : Trades without first second) {last : Option Node}
    (hplace : without = true ∨ introducesAlias last = true) (back : List Node) :
    scanItems .items last (first :: back) = scanItems .items last (second :: back) := by
  have hcolumns (nodes : List Node) :
      nodes.flatMap columnsOf = (nodes.map face).flatMap fun face ↦ face.1 := by
    rw [List.flatMap_map]
    rfl
  have hitems : (itemsAfterAlias last first).flatMap columnsOf =
      (itemsAfterAlias last second).flatMap columnsOf := by
    rw [hcolumns, hcolumns, itemsAfterAlias, itemsAfterAlias]
    split
    · rw [h.further]
    · next hnot => rw [h.all (hplace.resolve_right hnot)]
  have hlast : introducesAlias (lastSignificant last first) =
      introducesAlias (lastSignificant last second) := by
    rw [lastSignificant, lastSignificant, (of_isContent h.content).1, (of_isContent h.content').1]
    simp [introducesAlias, isKeyword_of_isContent h.content, isKeyword_of_isContent h.content']
  rw [scanItems_items (isKeyword_of_isContent h.content "FROM").1
      (isKeyword_of_isContent h.content "CASE").1,
    scanItems_items (isKeyword_of_isContent h.content' "FROM").1
      (isKeyword_of_isContent h.content' "CASE").1, hitems, scanItems_congr hlast]

private theorem introducesAlias_afterSelect {before after : List Node} {select : Node}
    (hselect : select.isKeyword "SELECT" = true)
    (h : introducesAlias (lastOf none (before ++ select :: after)) = true) :
    introducesAlias (lastOf none after) = true := by
  have hlast : lastOf none (before ++ select :: after) = (lastOf none after).or (some select) := by
    rw [lastOf_append, ← lastOf_eq_or, lastOf, List.foldl_cons, lastSignificant,
      isBlank_of_isAnyKeyword (Bool.and_eq_true_iff.1 hselect).1]
    rfl
  rw [hlast] at h
  cases hafter : lastOf none after with
  | some node =>
    rw [hafter, Option.some_or] at h
    exact h
  | none =>
    have hnone : introducesAlias (some select) = false :=
      introducesAlias_keyword hselect (by decide) (by decide)
    rw [hafter, Option.none_or, hnone] at h
    cases h

/-- Nodes that trade places outside all blocks give the same projection. -/
theorem Columns.projection_trade (h : Trades without first second) {front : List Node}
    (hplace : without = true ∨ introducesAlias (lastOf none front) = true)
    {back : List Node} (hblocks : Node.openCases 0 front = 0 ∨ closesCase 0 back = false) :
    projection (front ++ first :: back) = projection (front ++ second :: back) := by
  cases hafter : afterKeyword? "SELECT" front with
  | none =>
    have hnone : ∀ node ∈ front, node.isKeyword "SELECT" = false := by
      intro node hmem
      rw [← Bool.not_eq_true]
      intro hselect
      have hsome := isSome_afterKeyword?_iff.2 ⟨node, hmem, hselect⟩
      rw [hafter] at hsome
      cases hsome
    rw [projection, projection, afterKeyword?_append hnone, afterKeyword?_append hnone,
      afterKeyword?_cons (isKeyword_of_isContent h.content _).1,
      afterKeyword?_cons (isKeyword_of_isContent h.content' _).1]
  | some after =>
    rw [projection, projection, afterKeyword?_append_of_some hafter,
      afterKeyword?_append_of_some hafter]
    obtain ⟨before, select, rfl, hselect⟩ := afterKeyword?_eq_some hafter
    apply scanItems_append_congr
    intro next hopen
    cases next with
    | items => exact scanItems_trade h (hplace.imp_right (introducesAlias_afterSelect hselect)) back
    | case block around =>
      -- The block is open before the node, so no `END` behind it makes a column of its text.
      have hclosed : closesCase 0 back = false := by
        refine hblocks.resolve_left fun hzero ↦ ?_
        have hmark : select.isCaseMark = false :=
          Bool.or_eq_false_iff.2 ⟨isKeyword_eq_false hselect (by decide),
            isKeyword_eq_false hselect (by decide)⟩
        have hle := openCases_le_append before (select :: after)
        rw [openCases_cons hmark, hzero, ← show around + 1 = Node.openCases 0 after from hopen]
          at hle
        omega
      have hunclosed {node : Node} (hnode : node.isContent = true) :
          scanItems (.case block around) (lastOf none after) (node :: back) = [] := by
        refine scanItems_unclosed ?_ (Nat.zero_le around) block _
        rw [closesCase_cons (isCaseMark_eq_false (of_isContent hnode).2.1), hclosed]
      rw [hunclosed h.content, hunclosed h.content']

end

/-- Sequences that differ in an alias outside all blocks have the same kind, and a query among them
the same tables and columns. -/
theorem Node.DifferInAlias.findings_eq {before after nodes others : List Node}
    (h : DifferInAlias before after nodes others)
    (hblocks : openCases 0 before = 0 ∨ closesCase 0 after = false) :
    StatementKind.ofNodes nodes = StatementKind.ofNodes others ∧
      Tables.scanLists .outside none nodes = Tables.scanLists .outside none others ∧
      Columns.projection nodes = Columns.projection others := by
  obtain ⟨without, front, first, second, back, rfl, rfl, htrades, hlast, rfl, rfl⟩ := h
  have hplace := hlast.imp_right fun hintroduces ↦ hintroduces none
  rw [openCases_filter, closesCase_filter] at hblocks
  refine ⟨StatementKind.ofNodes_trade htrades front back, ?_,
    Columns.projection_trade htrades hplace hblocks⟩
  apply Tables.scanLists_append_congr
  intro scan
  exact Tables.scanLists_trade htrades hplace scan back

namespace Token

/-- Tokens with a name after `AS` among them. -/
def named (before : List Token) (word : Spelled ["AS"]) (blanks : List Blank) (name : NameWord)
    (after : List Token) : List Token :=
  before ++ word.token :: (Blank.tokens blanks ++ .word name.word :: after)

/-- What follows the tokens in the whole statement stands between a `CASE` and its `END`: one is
open after the parts of the tokens, and an `END` among the parts behind them closes it. Keywords
among the arguments of calls do not count. -/
def InBlock (before whole : List Token) : Prop :=
  let parts := partsOfAll (groupStatement before).nodes
  0 < openCases 0 parts ∧
    closesCase 0 ((partsOfAll (groupStatement whole).nodes).drop parts.length) = true

/-- Outside all blocks, no `CASE` is open before or no `END` closes it behind. -/
theorem eq_of_not_inBlock {before whole : List Token} (h : ¬ InBlock before whole)
    {parts rest : List Node} (hbefore : partsOfAll (groupStatement before).nodes = parts)
    (hwhole : partsOfAll (groupStatement whole).nodes = parts ++ rest) :
    openCases 0 parts = 0 ∨ closesCase 0 rest = false := by
  rw [InBlock, hbefore, hwhole, List.drop_left, not_and, Bool.not_eq_true] at h
  rcases Nat.eq_zero_or_pos (openCases 0 parts) with hzero | hpositive
  · exact .inl hzero
  · exact .inr (h hpositive)

end Token

section

variable {before after : List Token} (word : Spelled ["AS"]) (blanks : List Blank)

private theorem Front.namedAs (name : NameWord) (last : Option Node) (hafter : Apart after) :
    Front last (word.token :: (Blank.tokens blanks ++ [.word name.word])) after
      (Node.namedAs word blanks name []) :=
  let phrase : Alias := ⟨[], some (word, blanks), name⟩
  phrase.front hafter

/-- Tokens with a name after `AS` are grouped alike for all names: what stands before it as it does
alone, up to its last level, and what follows it in the same way. -/
theorem exists_statementNodes_named (hlast : before.getLast? ≠ some .period) (hafter : Apart after)
    (hclosed : ∀ part ∈ partsOfAll (statementNodes before), part.isOpenCall = false)
    (name : NameWord) :
    ∃ front raw rest back, statementNodes before = front ++ regroup raw ∧
      partsOfAll raw = raw ∧ (partsOfAll back).filter isCaseMark = back.filter isCaseMark ∧
      ∀ other : NameWord,
        partsOfAll (namedAs word blanks other rest) = namedAs word blanks other rest ∧
        statementNodes (Token.named before word blanks other after) =
          front ++ (regroup (raw ++ namedAs word blanks other rest) ++ back) := by
  obtain ⟨front, raw, depth, hbefore, hraw, hgroup⟩ := exists_statementNodes_append before hclosed
  obtain ⟨rest, left, hrest⟩ := exists_reads (some name.plain.node) depth after
  refine ⟨front, raw, rest, unreadNodes left, hbefore, hraw, ?_, ?_⟩
  · cases left with
    | nil => rfl
    | cons token left =>
      rw [unreadNodes, partsOfAll, Node.punctuation, parts_leaf, List.singleton_append,
        List.filter_cons, List.filter_cons, filter_partsOfAll_statementNodes fun _ ↦ of_isCaseMark]
  · intro other
    have hother : Reads (some other.plain.node) depth after rest left :=
      hrest.congr_last (fun _ ↦ rfl) rfl
    have hread : Reads (lastOf none raw) depth
        (word.token :: (Blank.tokens blanks ++ .word other.word :: after))
        (namedAs word blanks other rest) left := by
      have hfront := Front.namedAs word blanks other (lastOf none raw) hafter depth rest left
      have hnode : lastOf (lastOf none raw) (Node.namedAs word blanks other []) =
          some other.plain.node := by
        rw [namedAs, lastOf, List.foldl_cons, List.foldl_append]
        rfl
      rw [hnode] at hfront
      simpa [namedAs] using hfront hother
    have hparted : Parted before
        (word.token :: (Blank.tokens blanks ++ .word other.word :: after)) :=
      ⟨apart_keyword word _, fun hperiod ↦ absurd hperiod hlast⟩
    exact ⟨hread.partsOfAll_eq, hgroup hparted hread⟩

/-- The name after an `AS` never shows in what a query refers to: another name in its place leaves
the kind, the tables and the columns as they are. The name has to be a word of its own outside all
calls and outside the blocks from `CASE` to `END`, whose text is shown as a column. -/
theorem findings_renamed (name other : NameWord) (hlast : before.getLast? ≠ some .period)
    (hafter : Apart after)
    (hcalls : ∀ part ∈ partsOfAll (groupStatement before).nodes, part.isOpenCall = false)
    (hblock : ¬ Token.InBlock before (Token.named before word blanks name after))
    (hkind : (groupStatement (Token.named before word blanks name after)).statementKind = .select) :
    (groupStatement (Token.named before word blanks other after)).findings =
      (groupStatement (Token.named before word blanks name after)).findings := by
  rw [nodes_groupStatement] at hcalls
  obtain ⟨front, raw, rest, back, hbefore, hraw, hback, hnamed⟩ :=
    exists_statementNodes_named word blanks hlast hafter hcalls name
  obtain ⟨hnamedParts, hnodes⟩ := hnamed name
  have hdiffer := (differInAlias_regroup word blanks name other raw rest).append front back
  have hparts : partsOfAll (groupStatement before).nodes = partsOfAll front ++ raw := by
    rw [nodes_groupStatement, hbefore, partsOfAll_append, partsOfAll_regroup, hraw]
  have hwhole : partsOfAll (groupStatement (Token.named before word blanks name after)).nodes =
      (partsOfAll front ++ raw) ++ (namedAs word blanks name rest ++ partsOfAll back) := by
    rw [nodes_groupStatement, hnodes, partsOfAll_append, partsOfAll_append, partsOfAll_regroup,
      partsOfAll_append, hraw, hnamedParts, List.append_assoc raw, List.append_assoc]
  have hopen : openCases 0 (partsOfAll front ++ raw) =
      openCases 0 (front.filter isCaseMark ++ raw.filter isCaseMark) := by
    rw [← hparts, nodes_groupStatement, openCases_partsOfAll, hbefore, ← openCases_filter,
      List.filter_append, filter_regroup isBarrier_of_isCaseMark isAnyKeyword_of_isCaseMark]
  have hblocks := Token.eq_of_not_inBlock hblock hparts hwhole
  rw [hopen, ← closesCase_filter, List.filter_append, filter_namedAs, hback] at hblocks
  obtain ⟨hsame, htables, hcolumns⟩ := hdiffer.findings_eq hblocks
  rw [← hnodes, ← (hnamed other).2] at hsame htables hcolumns
  rw [statementKind_groupStatement rfl] at hkind
  rw [TokenTree.findings, TokenTree.findings, statementKind_groupStatement rfl,
    statementKind_groupStatement rfl, tableCandidates_groupStatement rfl,
    tableCandidates_groupStatement rfl, columnCandidates_groupStatement rfl,
    columnCandidates_groupStatement rfl, ← hsame, hkind]
  simp only [Tables.candidates, Columns.candidates, htables, hcolumns]

end

namespace Token

/-- The query `SELECT CASE a END` up to the `AS` after it. -/
def caseFront : List Token :=
  [.word ⟨"SELECT", none⟩, .blank .space, .word ⟨"CASE", none⟩, .blank .space, .word ⟨"a", none⟩,
    .blank .space, .word ⟨"END", none⟩, .blank .space]

/-- The rest of the query: `, b FROM t`. -/
def caseBack : List Token :=
  [.comma, .blank .space, .word ⟨"b", none⟩, .blank .space, .word ⟨"FROM", none⟩, .blank .space,
    .word ⟨"t", none⟩]

end Token

/-- The alias `n` of a block, which is the first item of a list with the next column, is no column,
and neither is the name `"FROM"` in its place. -/
theorem findings_renamed_caseAlias :
    (groupStatement (Token.named Token.caseFront ⟨"as", by decide⟩ [.space]
        ⟨⟨"FROM", some .double⟩, by decide, by decide⟩ Token.caseBack)).findings =
      (.select, ["t"], ["CASE a END", "b"]) := by
  have hcalls : ∀ part ∈ partsOfAll (groupStatement Token.caseFront).nodes,
      part.isOpenCall = false := by
    decide +kernel
  have hblock : ¬ Token.InBlock Token.caseFront (Token.named Token.caseFront ⟨"as", by decide⟩
      [.space] ⟨⟨"n", none⟩, by decide, by decide⟩ Token.caseBack) := by
    rw [Token.InBlock]
    decide +kernel
  have hsame := findings_renamed ⟨"as", by decide⟩ [.space] ⟨⟨"n", none⟩, by decide, by decide⟩
    ⟨⟨"FROM", some .double⟩, by decide, by decide⟩
    (by decide) ⟨by decide, by decide⟩ hcalls hblock (by decide +kernel)
  rw [hsame]
  decide +kernel

end SqlFootprint
