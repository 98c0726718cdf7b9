import SqlFootprint.Proofs.InPlaceTables

/-!
# The columns of an ordered tree in place

The columns of a statement are read from an ordered tree as from the nodes that it holds, and so is
what the statement refers to. The scan of a projection keeps the place at which a `CASE` starts
where the nodes themselves are kept for it, and never closes a `CASE` that is not open.
`inPlace_finish` puts this and the rest together for what is finished after any calls.
-/

namespace SqlFootprint.InPlace

open List (Forall₂)
open Grouping (lastOf lastOf_append)

variable {tree : TokenTree} {sequence positions : List Nat} {nodes : List Node}

/-! ### Projection -/

private theorem columnsOfAll_items {node : Node} (h : node.isList = true) :
    Columns.columnsOfAll node.items = Columns.columnsOf node := by
  have hitems (children : List Node) : Columns.columnsOfAll
        (children.filter fun child ↦ !child.isBlank && !child.isAnyPunctuation) =
      Columns.columnsOfAll children := by
    induction children with
    | nil => rfl
    | cons child rest ih =>
      rw [Columns.columnsOfAll, ← ih, List.filter_cons]
      cases child with
      | mk kind text children => cases kind <;> rfl
  cases node with
  | mk kind text children =>
    cases kind with
    | identifierList => exact hitems children
    | _ => cases h

section

variable (h : tree.Ordered)

include h

/-- A call is the column that its node is. -/
theorem callColumn_eq {position : Nat} {entry : Entry} {name : String} {aliasName : Option String}
    (hentry : tree.entries[position]? = some entry)
    (hkind : entry.kind = .function name aliasName) :
    callColumn tree entry =
      pure (Columns.callColumn (TokenTree.nodeOf tree.allNodes entry) aliasName) := by
  have hchildren := h.holds_children hentry
  have htext : entry.text = (TokenTree.nodeOf tree.allNodes entry).text := rfl
  generalize TokenTree.nodeOf tree.allNodes entry = node at hchildren htext
  cases aliasName with
  | none => simp only [callColumn, hkind, htext, Columns.callColumn]
  | some aliasName =>
    cases hcase : entry.children with
    | nil =>
      rw [hcase, List.forall₂_nil_left_iff] at hchildren
      simp only [callColumn, hkind, hcase, htext, Columns.callColumn, hchildren]
    | cons call rest =>
      rw [hcase] at hchildren
      obtain ⟨inner, others, hcall, -, hnodes⟩ := List.forall₂_cons_left_iff.1 hchildren
      obtain ⟨read, hread, -, rfl⟩ := entryAt_eq h hcall
      simp only [callColumn, hkind, hcase, hread, pure_bind, Columns.callColumn, hnodes]
      rfl

/-- The columns of positions are those of their nodes. -/
theorem columnsOfAll_eq {levels : Nat} (hnodes : Forall₂ tree.Holds positions nodes)
    (hlevels : ∀ i ∈ positions, i < levels) :
    columnsOfAll tree levels positions = pure (Columns.columnsOfAll nodes) := by
  refine h.induction (motive := fun levels positions nodes ↦
    columnsOfAll tree levels positions = pure (Columns.columnsOfAll nodes)) ?_ ?_ hnodes hlevels
  · intro levels
    rw [columnsOfAll]
    rfl
  · intro levels position entry positions nodes hentry hearlier hrest
    have hread : entryAt tree position = pure entry := by rw [entryAt, hentry]
    have hnode := h.holds_nodeOf hentry
    rw [columnsOfAll, hread, pure_bind, Columns.columnsOfAll]
    simp only [hrest, pure_bind]
    cases hkind : entry.kind with
    | function name aliasName =>
      have hcolumn := callColumn_eq h hentry hkind
      have hof : Columns.columnsOf (TokenTree.nodeOf tree.allNodes entry) =
          [Columns.callColumn (TokenTree.nodeOf tree.allNodes entry) aliasName] := by
        rw [TokenTree.nodeOf, hkind]
        rfl
      simp only [hcolumn, pure_bind, hof]
    | identifierList =>
      have hlist : (TokenTree.nodeOf tree.allNodes entry).isList = true := by
        rw [TokenTree.nodeOf, hkind]
        rfl
      have hbefore : ∀ item ∈ items tree position, item < position := by
        intro item hmem
        have hshown : entry.alone.isList = true := by
          rw [Entry.alone_eq entry tree.allNodes, Node.isList_alone, hlist]
        simp only [items, hentry, if_pos hshown] at hmem
        exact h.lt position entry hentry item
          (List.mem_append_left _ (List.mem_of_mem_filter hmem))
      have hitems := hearlier _ _ (holds_items h hnode) hbefore
      simp only [hitems, pure_bind, columnsOfAll_items hlist]
    | comparison left operator right =>
      obtain ⟨leftNode, rightNode, -, -, hcompared⟩ := h.holds_operands hentry hkind
      have hof : Columns.columnsOf (TokenTree.nodeOf tree.allNodes entry) = [] := by
        rw [TokenTree.nodeOf, Node.kind] at hcompared
        rw [TokenTree.nodeOf, hcompared]
        rfl
      simp only [hof]
    | _ =>
      rw [TokenTree.nodeOf, hkind]
      rfl

/-- Positions are rendered as their nodes. -/
theorem render_eq (hnodes : Forall₂ tree.Holds positions nodes) :
    render tree positions = pure (Columns.derived (Node.textOf nodes)) := by
  obtain ⟨entries, hentries, rfl⟩ := mapM_entryAt_eq h hnodes
  rw [render, hentries, pure_bind, Node.textOf, List.map_map]
  rfl

/-- The items at a place are those of its node, without the first where it is an alias. -/
theorem itemsAfterAlias_eq {before after : List Node} {node : Node}
    (hnodes : Forall₂ tree.Holds sequence (before ++ node :: after)) :
    ∃ found, itemsAfterAlias tree sequence before.length = pure found ∧
      Forall₂ tree.Holds found (Node.itemsAfterAlias (lastOf none before) node) := by
  have hplace : (before ++ node :: after)[before.length]? = some node := by simp
  obtain ⟨position, hposition, hnode⟩ := placeAt_eq hnodes hplace
  have hitems := holds_items h hnode
  have halias := introducesAlias_eq h hnodes before.length
  rw [List.take_left] at halias
  simp only [itemsAfterAlias, hposition, halias, pure_bind, Node.itemsAfterAlias]
  cases Node.introducesAlias (lastOf none before) with
  | true => exact ⟨_, rfl, List.forall₂_drop 1 hitems⟩
  | false => exact ⟨_, rfl, hitems⟩

omit h

/-- Where two scans of a projection stand alike behind some nodes: within a `CASE`, the one knows
its place and the other its nodes, and at least one `CASE` is open. -/
inductive Scan.Agrees : List Node → Scan → Columns.Scan → Prop
  | items (before : List Node) : Agrees before .items .items
  | case (front block : List Node) (around : Nat) :
    Agrees (front ++ block) (.case front.length (around + 1)) (.case block.reverse around)

private theorem exists_block {front block after : List Node} {node : Node}
    (hnodes : Forall₂ tree.Holds sequence (front ++ block ++ node :: after)) :
    ∃ positions, part sequence front.length ((front ++ block).length + 1) = pure positions ∧
      Forall₂ tree.Holds positions (block ++ [node]) := by
  have hsplit : front ++ block ++ node :: after = front ++ (block ++ [node]) ++ after := by simp
  have hlength : (front ++ block).length + 1 = (front ++ (block ++ [node])).length := by
    simp [Nat.add_assoc]
  rw [hsplit] at hnodes
  have hstart : front.length ≤ (front ++ (block ++ [node])).length := by simp
  have hstop : (front ++ (block ++ [node])).length ≤
      (front ++ (block ++ [node]) ++ after).length := by simp
  obtain ⟨positions, hpart, hblock⟩ := part_eq hnodes hstart hstop
  rw [List.take_left, List.drop_left] at hblock
  rw [hlength]
  exact ⟨positions, hpart, hblock⟩

include h

/-- A scan from a place on finds the columns that follow. -/
theorem scanItems_eq {before after : List Node}
    (hnodes : Forall₂ tree.Holds sequence (before ++ after)) {scan : Scan} {other : Columns.Scan}
    (hscan : scan.Agrees before other) :
    scanItems tree sequence scan (List.range' before.length after.length) =
      pure (Columns.scanItems other (lastOf none before) after) := by
  induction after generalizing before scan other with
  | nil =>
    cases hscan <;> rfl
  | cons node after ih =>
    have hplace : (before ++ node :: after)[before.length]? = some node := by simp
    obtain ⟨position, hposition, hnode⟩ := placeAt_eq hnodes hplace
    obtain ⟨entry, hentry, halone⟩ := entryAt_alone_eq h hnode
    have hbehind : Forall₂ tree.Holds sequence (before ++ [node] ++ after) := by simpa using hnodes
    have hrest {scan : Scan} {other : Columns.Scan}
        (hscan : scan.Agrees (before ++ [node]) other) :=
      ih hbehind hscan
    simp only [lastOf_concat, List.length_append, List.length_singleton] at hrest
    rw [List.length_cons, List.range'_succ]
    cases hscan with
    | items =>
      rw [scanItems, Columns.scanItems]
      simp only [hposition, hentry, pure_bind, halone, Node.isKeyword_alone]
      by_cases hfrom : node.isKeyword "FROM" = true
      · rw [if_pos hfrom, if_pos hfrom]
      · rw [if_neg hfrom, if_neg hfrom]
        by_cases hcase : node.isKeyword "CASE" = true
        · rw [if_pos hcase, if_pos hcase]
          exact hrest (.case before [node] 0)
        · obtain ⟨found, hfound, hitems⟩ := itemsAfterAlias_eq h hnodes
          rw [if_neg hcase, if_neg hcase]
          simp only [hfound, columnsOfAll_eq h hitems (TokenTree.lt_of_holds hitems),
            pure_bind, hrest (.items _)]
    | case front block around =>
      have hwithin (around : Nat) := Scan.Agrees.case front (block ++ [node]) around
      simp only [← List.append_assoc, List.reverse_append, List.reverse_singleton,
        List.singleton_append] at hwithin
      rw [scanItems, Columns.scanItems.eq_def]
      simp only [hposition, hentry, pure_bind, halone, caseDepth, Node.isKeyword_alone]
      by_cases hcase : node.isKeyword "CASE" = true
      · simp only [if_pos hcase, pure_bind, if_neg (Nat.succ_ne_zero _)]
        exact hrest (hwithin (around + 1))
      · by_cases hend : node.isKeyword "END" = true
        · simp only [if_neg hcase, if_pos hend, lower, pure_bind]
          cases around with
          | succ around =>
            rw [if_neg (Nat.succ_ne_zero _)]
            exact hrest (hwithin around)
          | zero =>
            obtain ⟨positions, hpart, hblock⟩ := exists_block hnodes
            simp only [if_true, hpart, render_eq h hblock, pure_bind, hrest (.items _)]
            simp
        · simp only [if_neg hcase, if_neg hend, pure_bind, if_neg (Nat.succ_ne_zero _)]
          exact hrest (hwithin around)

/-- The projection of an ordered tree is that of its nodes. -/
theorem projection_eq : projection tree = pure (Columns.projection tree.nodes) := by
  have hnodes := h.holds_roots
  rw [projection, keywordPlace_eq h hnodes, pure_bind, Columns.projection,
    afterKeyword?_eq_map_findIdx?]
  cases hfound : tree.nodes.findIdx? (·.isKeyword "SELECT") with
  | none => rfl
  | some start =>
    obtain ⟨hbound, hselect, -⟩ := List.findIdx?_eq_some_iff_getElem.1 hfound
    have hlength : (tree.nodes.take (start + 1)).length = start + 1 :=
      List.length_take_of_le hbound
    have hrest : (tree.nodes.drop (start + 1)).length = tree.roots.length - (start + 1) := by
      rw [List.length_drop, hnodes.length_eq]
    have hsplit := List.take_append_drop (start + 1) tree.nodes
    have hscan := scanItems_eq h (hsplit.symm ▸ hnodes) (.items _)
    rw [hlength, hrest] at hscan
    have hlast : Node.introducesAlias (lastOf none (tree.nodes.take (start + 1))) =
        Node.introducesAlias none := by
      rw [List.take_succ_eq_append_getElem hbound, lastOf_concat, Node.lastSignificant,
        Node.isBlank_of_isAnyKeyword (Bool.and_eq_true_iff.1 hselect).1]
      exact Node.introducesAlias_keyword hselect (by decide) (by decide)
    rw [Columns.scanItems_congr hlast] at hscan
    exact hscan

/-! ### Column list of an insertion -/

private theorem insertList_within (hnodes : Forall₂ tree.Holds positions nodes) :
    insertList tree .within positions =
      pure (Columns.listAfterParen (nodes.filter (!·.isBlank))) := by
  induction hnodes with
  | nil => rfl
  | @cons position node positions nodes hnode _ ih =>
    obtain ⟨entry, hentry, halone⟩ := entryAt_alone_eq h hnode
    rw [insertList, hentry, pure_bind]
    simp only [halone, Node.isBlank_alone, Node.isName_alone, Node.isPunctuation_alone,
      Node.isAnyPunctuation_alone, realNames_eq h hnode, ih, pure_bind]
    cases hblank : node.isBlank with
    | true => rw [List.filter_cons_of_neg (by simp [hblank]), if_pos rfl]
    | false =>
      rw [List.filter_cons_of_pos (by simp [hblank]), if_neg Bool.false_ne_true,
        Columns.listAfterParen]
      by_cases hname : node.isName = true
      · rw [if_pos hname, if_pos hname]
      · rw [if_neg hname, if_neg hname]
        by_cases hclose : node.isPunctuation ")" = true
        · rw [if_pos hclose, if_pos hclose]
        · rw [if_neg hclose, if_neg hclose]
          by_cases hmark : node.isAnyPunctuation = true
          · rw [if_pos hmark, if_pos hmark]
          · rw [if_neg hmark, if_neg hmark]

omit h

/-- The column list after the table, among nodes that are no blanks. -/
def listAfterTable : List Node → Columns.ColumnList
  | paren :: more => if paren.isPunctuation "(" then Columns.listAfterParen more else {}
  | [] => {}

/-- The column list after `INTO`, among nodes that are no blanks. -/
def listAfterInto : List Node → Columns.ColumnList
  | table :: more => if table.isName then listAfterTable more else {}
  | [] => {}

private theorem insertList_eq_listAfterInto (nodes : List Node) : Columns.insertList nodes =
    match Node.afterKeyword? "INTO" nodes with
    | none => {}
    | some rest => listAfterInto (rest.filter (!·.isBlank)) := by
  rw [Columns.insertList]
  cases Node.afterKeyword? "INTO" nodes with
  | none => rfl
  | some rest =>
    dsimp only
    generalize rest.filter (fun node ↦ !node.isBlank) = found
    match found with
    | [] => rfl
    | [table] => exact (ite_self _).symm
    | table :: paren :: more =>
      simp only [listAfterInto, listAfterTable]
      cases table.isName <;> rfl

include h

private theorem insertList_afterTable (hnodes : Forall₂ tree.Holds positions nodes) :
    insertList tree .afterTable positions =
      pure (listAfterTable (nodes.filter (!·.isBlank))) := by
  induction hnodes with
  | nil => rfl
  | @cons position node positions nodes hnode hrest ih =>
    obtain ⟨entry, hentry, halone⟩ := entryAt_alone_eq h hnode
    rw [insertList, hentry, pure_bind]
    simp only [halone, Node.isBlank_alone, Node.isPunctuation_alone, ih]
    cases hblank : node.isBlank with
    | true => rw [List.filter_cons_of_neg (by simp [hblank]), if_pos rfl]
    | false =>
      rw [List.filter_cons_of_pos (by simp [hblank]), if_neg Bool.false_ne_true,
        insertList_within h hrest, listAfterTable]
      cases node.isPunctuation "(" <;> rfl

private theorem insertList_beforeTable (hnodes : Forall₂ tree.Holds positions nodes) :
    insertList tree .beforeTable positions =
      pure (listAfterInto (nodes.filter (!·.isBlank))) := by
  induction hnodes with
  | nil => rfl
  | @cons position node positions nodes hnode hrest ih =>
    obtain ⟨entry, hentry, halone⟩ := entryAt_alone_eq h hnode
    rw [insertList, hentry, pure_bind]
    simp only [halone, Node.isBlank_alone, Node.isName_alone, ih]
    cases hblank : node.isBlank with
    | true => rw [List.filter_cons_of_neg (by simp [hblank]), if_pos rfl]
    | false =>
      rw [List.filter_cons_of_pos (by simp [hblank]), if_neg Bool.false_ne_true,
        insertList_afterTable h hrest, listAfterInto]
      cases node.isName <;> rfl

/-- The column list of positions is that of their nodes. -/
theorem insertList_eq (hnodes : Forall₂ tree.Holds positions nodes) :
    insertList tree .beforeInto positions = pure (Columns.insertList nodes) := by
  rw [insertList_eq_listAfterInto]
  induction hnodes with
  | nil => rfl
  | @cons position node positions nodes hnode hrest ih =>
    obtain ⟨entry, hentry, halone⟩ := entryAt_alone_eq h hnode
    rw [insertList, hentry, pure_bind, Node.afterKeyword?]
    simp only [halone, Node.isBlank_alone, Node.isKeyword_alone, ih]
    by_cases hblank : node.isBlank = true
    · have hinto : ¬node.isKeyword "INTO" = true := by
        intro hword
        rw [Node.isBlank_of_isAnyKeyword (Bool.and_eq_true_iff.1 hword).1] at hblank
        cases hblank
      rw [if_pos hblank, if_neg hinto]
    · by_cases hinto : node.isKeyword "INTO" = true
      · rw [if_neg hblank, if_pos hinto, if_pos hinto, insertList_beforeTable h hrest]
      · rw [if_neg hblank, if_neg hinto, if_neg hinto]

/-! ### Assignments of an update -/

/-- The columns assigned from a place on are those that the nodes assign. -/
theorem targetsFrom_eq {levels : Nat} {before after : List Node}
    (hnodes : Forall₂ tree.Holds sequence (before ++ after))
    (hafter : Forall₂ tree.Holds positions after) (hlevels : ∀ i ∈ positions, i < levels) :
    targetsFrom tree levels sequence before.length positions =
      pure (Columns.targetsOfAll (lastOf none before) after) := by
  refine h.induction (motive := fun levels positions after ↦
    ∀ (sequence : List Nat) (before : List Node), Forall₂ tree.Holds sequence (before ++ after) →
    targetsFrom tree levels sequence before.length positions =
      pure (Columns.targetsOfAll (lastOf none before) after))
    ?_ ?_ hafter hlevels sequence before hnodes
  · intro levels sequence before _
    rw [targetsFrom]
    rfl
  · intro levels position entry positions after hentry hearlier hrest sequence before hnodes
    have hread : entryAt tree position = pure entry := by rw [entryAt, hentry]
    have hbehind := hrest sequence (before ++ [TokenTree.nodeOf tree.allNodes entry])
      (by simpa using hnodes)
    rw [List.length_append, List.length_singleton, lastOf_concat] at hbehind
    rw [targetsFrom, hread, pure_bind, Columns.targetsOfAll]
    simp only [hbehind, pure_bind]
    cases hkind : entry.kind with
    | comparison left operator right =>
      obtain ⟨leftNode, rightNode, hleft, -, hcompared⟩ := h.holds_operands hentry hkind
      obtain ⟨leftEntry, hleftEntry, halone⟩ := entryAt_alone_eq h hleft
      have htargets (rest : List Node) : Columns.targetsOf (lastOf none before) rest
          (TokenTree.nodeOf tree.allNodes entry) =
            leftNode.identifier?.toList.map Identifier.name := by
        rw [TokenTree.nodeOf, Node.kind] at hcompared
        rw [TokenTree.nodeOf, hcompared]
        rfl
      simp only [hleftEntry, pure_bind, halone, Node.identifier?_alone, htargets]
    | identifierList =>
      have htargets (rest : List Node) : Columns.targetsOf (lastOf none before) rest
          (TokenTree.nodeOf tree.allNodes entry) =
            Columns.targetsOfAll none (TokenTree.nodeOf tree.allNodes entry).children := by
        rw [TokenTree.nodeOf, hkind]
        rfl
      have hchildren := h.holds_children hentry
      have hinside := hearlier _ _ hchildren (fun child hmem ↦
        h.lt position entry hentry child (List.mem_append_left _ hmem)) entry.children [] hchildren
      rw [List.length_nil] at hinside
      simp only [hinside, pure_bind, htargets]
      rfl
    | identifier identifier =>
      have htargets (rest : List Node) : Columns.targetsOf (lastOf none before) rest
          (TokenTree.nodeOf tree.allNodes entry) =
            if !(lastOf none before).any (·.isKeyword "AS") &&
              (Node.significant? rest).any fun next ↦ next.1.isPunctuation "=" then
              [identifier.name]
            else [] := by
        rw [TokenTree.nodeOf, hkind]
        rfl
      have has := testBefore_eq h (fun node ↦ node.isKeyword "AS")
        (fun node ↦ Node.isKeyword_alone node "AS") hnodes before.length
      have hequals := testAfter_eq h (fun node ↦ node.isPunctuation "=")
        (fun node ↦ Node.isPunctuation_alone node "=") hnodes before.length
      have hnext : (before ++ TokenTree.nodeOf tree.allNodes entry :: after).drop
          (before.length + 1) = after := by simp
      rw [List.take_left] at has
      rw [hnext] at hequals
      simp only [has, hequals, pure_bind, htargets]
      cases (lastOf none before).any (·.isKeyword "AS") with
      | true => rfl
      | false =>
        cases (Node.significant? after).any fun next ↦ next.1.isPunctuation "=" with
        | true => rfl
        | false => rfl
    | _ =>
      rw [TokenTree.nodeOf, hkind]
      rfl

/-- Once `SET` is found, the assignments stop at the first `WHERE`. -/
theorem setBounds_some_eq (hnodes : Forall₂ tree.Holds positions nodes) (start place : Nat) :
    setBounds tree (some start) place positions =
      pure (some start, place + (nodes.takeWhile fun node ↦ !node.isKeyword "WHERE").length) := by
  induction hnodes generalizing place with
  | nil => rfl
  | @cons position node positions nodes hnode _ ih =>
    obtain ⟨entry, hentry, halone⟩ := entryAt_alone_eq h hnode
    rw [setBounds, hentry, pure_bind]
    simp only [halone, Node.isKeyword_alone, ih, List.takeWhile_cons]
    cases node.isKeyword "WHERE" with
    | true => rfl
    | false =>
      rw [if_neg Bool.false_ne_true, Bool.not_false, if_pos rfl, List.length_cons, Nat.add_assoc,
        Nat.add_comm 1]

/-- The assignments start behind the first `SET`. -/
theorem setBounds_none_eq (hnodes : Forall₂ tree.Holds positions nodes) (place : Nat) :
    setBounds tree none place positions = pure (match nodes.findIdx? (·.isKeyword "SET") with
      | none => (none, place + nodes.length)
      | some found => (some (place + found + 1), place + found + 1 +
        ((nodes.drop (found + 1)).takeWhile fun node ↦ !node.isKeyword "WHERE").length)) := by
  induction hnodes generalizing place with
  | nil => rfl
  | @cons position node positions nodes hnode hrest ih =>
    obtain ⟨entry, hentry, halone⟩ := entryAt_alone_eq h hnode
    rw [setBounds, hentry, pure_bind, List.findIdx?_cons]
    simp only [halone, Node.isKeyword_alone, ih, setBounds_some_eq h hrest]
    by_cases hset : node.isKeyword "SET" = true
    · rw [if_pos hset, if_pos hset]
      rfl
    · rw [if_neg hset, if_neg hset]
      cases nodes.findIdx? (·.isKeyword "SET") with
      | none => simp [Nat.add_assoc, Nat.add_comm 1]
      | some found => simp [Nat.add_assoc, Nat.add_comm 1]

/-- The columns that an ordered tree assigns are those that its nodes assign. -/
theorem assigned_eq : assigned tree = pure (Columns.assigned tree.nodes) := by
  have hnodes := h.holds_roots
  rw [assigned, setBounds_none_eq h hnodes, pure_bind, Columns.assigned,
    afterKeyword?_eq_map_findIdx?]
  cases hfound : tree.nodes.findIdx? (·.isKeyword "SET") with
  | none => rfl
  | some found =>
    obtain ⟨hbound, -⟩ := List.findIdx?_eq_some_iff_getElem.1 hfound
    let rest := tree.nodes.drop (found + 1)
    let assignments := rest.takeWhile fun node ↦ !node.isKeyword "WHERE"
    have hlength : found + 1 + assignments.length ≤ tree.nodes.length := by
      have hprefix :=
        (List.takeWhile_prefix (l := rest) fun node ↦ !node.isKeyword "WHERE").length_le
      rw [List.length_drop] at hprefix
      have hsame : assignments.length ≤ tree.nodes.length - (found + 1) := hprefix
      omega
    obtain ⟨positions, hpart, hholds⟩ := part_eq hnodes (Nat.le_add_right _ _) hlength
    have hkept : (tree.nodes.take (found + 1 + assignments.length)).drop (found + 1) =
        assignments := by
      rw [List.drop_take, Nat.add_sub_cancel_left]
      exact (List.prefix_iff_eq_take.1 (List.takeWhile_prefix _)).symm
    rw [hkept] at hholds
    have htargets : targetsFrom tree tree.entries.size positions ([] : List Node).length
        positions = pure (Columns.targetsOfAll (lastOf none []) assignments) :=
      targetsFrom_eq h hholds hholds (TokenTree.lt_of_holds hholds)
    simp only [Nat.zero_add, Option.map_some]
    rw [hpart, pure_bind]
    exact htargets

/-! ### All kinds -/

/-- The columns of an ordered tree are those of its nodes. -/
theorem columnCandidates_eq (kind : StatementKind) :
    columnCandidates tree kind = pure (Columns.candidates kind tree.nodes) := by
  have hnodes := h.holds_roots
  cases kind with
  | select => exact projection_eq h
  | insert =>
    rw [columnCandidates, insertList_eq h hnodes, pure_bind, keywordPlace_eq h hnodes, pure_bind,
      projection_eq h, pure_bind, Columns.candidates]
    cases (Columns.insertList tree.nodes).closed with
    | true => rfl
    | false =>
      cases hfound : tree.nodes.findIdx? (·.isKeyword "SELECT") with
      | some start => rfl
      | none =>
        have hnone : Columns.projection tree.nodes = [] := by
          rw [Columns.projection, afterKeyword?_eq_map_findIdx?, hfound]
          rfl
        simp [hnone]
  | update => exact assigned_eq h
  | delete => rfl
  | unknown => rfl

/-- What an ordered tree refers to is what its nodes do. -/
theorem analysis_eq : analysis tree = pure (Analysis.ofTree tree) := by
  rw [analysis, statementKind_eq h, pure_bind, tableCandidates_eq h, columnCandidates_eq h,
    pure_bind, pure_bind, Analysis.ofTree, Analysis.ofNodes]
  cases StatementKind.ofNodes tree.nodes <;> rfl

end

/-- Whatever positions the calls and the roots name, every reading of the finished tree ends without
a fault, and gives what its counterpart does for the nodes of the tree. -/
theorem inPlace_finish (calls : List Builder.Call) (roots : List Nat) :
    let tree := (Builder.run calls).finish roots
    statementKind tree = pure (StatementKind.ofNodes tree.nodes) ∧
      (∀ kind, tableCandidates tree kind = pure (Tables.candidates kind tree.nodes)) ∧
      (∀ kind, columnCandidates tree kind = pure (Columns.candidates kind tree.nodes)) ∧
      analysis tree = pure (Analysis.ofTree tree) ∧
      text tree = tree.text ∧
      outline tree = pure (Node.outline tree.nodes) := by
  have h := (Builder.Records.run calls).normalForm roots |>.ordered
  exact ⟨statementKind_eq h, tableCandidates_eq h, columnCandidates_eq h, analysis_eq h,
    text_eq _, outline_eq h⟩

end SqlFootprint.InPlace
