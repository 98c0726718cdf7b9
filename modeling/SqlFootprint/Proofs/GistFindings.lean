import SqlFootprint.Proofs.Gists
import SqlFootprint.Proofs.Origins
import SqlFootprint.Proofs.Scans

/-!
# What is found in gists

The kind of a statement, its tables and, up to the texts of calls and cases, its columns are read
off the gists of its nodes (`StatementKind.ofNodes_gistOfAll`, `Tables.candidates_gistOfAll`,
`Columns.name?_entries_gistOfAll`).
-/

namespace SqlFootprint

namespace Node

/-! ### Neighbours and clauses -/

/-- The last gist that is no blank. -/
theorem lastSignificant_gist (last : Option Node) {node : Node} (h : node.isBlank = false) :
    lastSignificant (last.map gist) node.gist = (lastSignificant last node).map gist := by
  rw [lastSignificant, lastSignificant, isBlank_gist, h]
  rfl

private theorem lastSignificant_blank (last : Option Node) {node : Node} (h : node.isBlank = true) :
    lastSignificant last node = last := by
  rw [lastSignificant, if_pos h]

/-- After a node an alias follows exactly if one follows after its gist. -/
@[simp] theorem introducesAlias_gist (last : Option Node) :
    introducesAlias (last.map gist) = introducesAlias last := by
  cases last with
  | none => rfl
  | some node => simp only [introducesAlias, Option.map_some, Option.any_some, isKeyword_gist,
      isPunctuation_gist]

private theorem itemsAfterAlias_gist (last : Option Node) (node : Node) :
    itemsAfterAlias (last.map gist) node.gist = (itemsAfterAlias last node).map gist := by
  unfold itemsAfterAlias
  rw [introducesAlias_gist, items_gist]
  split
  · rw [List.map_drop]
  · rfl

/-- What stands after a keyword, by its gists. -/
theorem afterKeyword?_gistOfAll (word : String) (nodes : List Node) :
    afterKeyword? word (gistOfAll nodes) = (afterKeyword? word nodes).map gistOfAll := by
  induction nodes using blank_induction with
  | nil => rfl
  | blank text children rest ih => exact ih
  | solid node rest h ih =>
    rw [gistOfAll_cons h, afterKeyword?, isKeyword_gist, afterKeyword?]
    split
    · rfl
    · exact ih

private theorem takeWhile_gistOfAll {p : Node → Bool} (hgist : ∀ node, p node.gist = p node)
    (hblank : ∀ node, node.isBlank = true → p node = true) (nodes : List Node) :
    (gistOfAll nodes).takeWhile p = gistOfAll (nodes.takeWhile p) := by
  induction nodes using blank_induction with
  | nil => rfl
  | blank text children rest ih =>
    rw [gistOfAll_blank rfl, ih, List.takeWhile_cons_of_pos (hblank _ rfl), gistOfAll_blank rfl]
  | solid node rest h ih =>
    rw [gistOfAll_cons h]
    cases hp : p node with
    | true =>
      rw [List.takeWhile_cons_of_pos (by rw [hgist, hp]), List.takeWhile_cons_of_pos hp,
        gistOfAll_cons h, ih]
    | false =>
      rw [List.takeWhile_cons_of_neg (by simp [hgist, hp]),
        List.takeWhile_cons_of_neg (by simp [hp])]
      rfl

private theorem find?_gistOfAll {p : Node → Bool} (hgist : ∀ node, p node.gist = p node)
    (hblank : ∀ node, node.isBlank = true → p node = false) (nodes : List Node) :
    (gistOfAll nodes).find? p = (nodes.find? p).map gist := by
  have hsolid (node : Node) : (!node.isBlank && p node.gist) = p node := by
    rw [hgist]
    cases h : node.isBlank with
    | true => rw [hblank node h, Bool.and_false]
    | false => rfl
  rw [gistOfAll_eq_map, List.find?_map, List.find?_filter]
  simp only [Function.comp_apply, Bool.decide_and, Bool.decide_eq_true, hsolid]

end Node

open Node

/-! ### The kind -/

namespace StatementKind

/-- A gist names the kind that the node names. -/
@[simp] theorem ofNode?_gist (node : Node) : ofNode? node.gist = ofNode? node := by
  rw [ofNode?, ofNode?, isAnyKeyword_gist]
  cases h : node.isAnyKeyword with
  | false => rfl
  | true => simp only [ofKeyword?, Text.sameWord, folded_text_gist h]

private theorem firstOutside_gistOfAll (depth : Nat) (nodes : List Node) :
    firstOutside depth (gistOfAll nodes) = firstOutside depth nodes := by
  induction nodes using blank_induction generalizing depth with
  | nil => rfl
  | blank text children rest ih =>
    rw [gistOfAll_blank rfl, ih]
    cases depth <;> rfl
  | solid node rest h ih =>
    rw [gistOfAll_cons h]
    simp only [firstOutside, isPunctuation_gist, ofNode?_gist, ih]

/-- The kind of a statement is read off its gists. -/
theorem ofNodes_gistOfAll (nodes : List Node) : ofNodes (gistOfAll nodes) = ofNodes nodes := by
  induction nodes using blank_induction with
  | nil => rfl
  | blank text children rest ih => exact ih
  | solid node rest h ih =>
    have hgist : node.gist.isBlank = false := by rw [isBlank_gist, h]
    rw [gistOfAll_cons h]
    unfold ofNodes
    rw [List.dropWhile_cons_of_neg (by simp [hgist]), List.dropWhile_cons_of_neg (by simp [h])]
    simp only [ofNode?_gist, isKeyword_gist, firstOutside_gistOfAll]

end StatementKind

/-! ### Tables -/

namespace Tables

/-- After a gist a name is an alias if it is one after the node. -/
@[simp] theorem isAliasPlace_gist (last : Option Node) :
    isAliasPlace (last.map gist) = isAliasPlace last := by
  rw [isAliasPlace, introducesAlias_gist, isAliasPlace, Option.any_map]
  simp only [identifier?_gist]

private theorem namesAt_gist (last : Option Node) (node : Node) :
    namesAt (last.map gist) node.gist = namesAt last node := by
  unfold namesAt
  rw [isAliasPlace_gist, realNames_gist, items_gist, ← List.map_drop, List.flatMap_map]
  simp only [realNames_gist]

private theorem scanLists_gistOfAll (scan : Scan) (last : Option Node) (nodes : List Node) :
    scanLists scan (last.map gist) (gistOfAll nodes) = scanLists scan last nodes := by
  induction nodes using blank_induction generalizing scan last with
  | nil => rfl
  | blank text children rest ih => exact ih scan last
  | solid node rest h ih =>
    rw [gistOfAll_cons h, scanLists, scanLists, isAnyKeyword_gist, isName_gist, namesAt_gist,
      lastSignificant_gist last h, ih]
    have hsome (scan : Scan) : scanLists scan (some node.gist) (gistOfAll rest) =
        scanLists scan (some node) rest := ih scan (some node)
    rw [hsome, hsome]
    cases hkeyword : node.isAnyKeyword with
    | true => rw [scan.onKeyword_congr (folded_text_gist hkeyword)]
    | false => rfl

private theorem insertTarget_gistOfAll (nodes : List Node) :
    insertTarget (gistOfAll nodes) = insertTarget nodes := by
  unfold insertTarget
  rw [afterKeyword?_gistOfAll]
  cases afterKeyword? "INTO" nodes with
  | none => rfl
  | some rest =>
    rw [Option.map_some, Option.bind_some, Option.bind_some, significant?_gistOfAll]
    cases significant? rest with
    | none => rfl
    | some found => simp only [Option.map_some, isName_gist, realNames_gist]

private theorem deleteTarget_gistOfAll (nodes : List Node) :
    deleteTarget (gistOfAll nodes) = deleteTarget nodes := by
  have hblank (node : Node) (h : node.isBlank = true) : node.isName = false := by
    obtain ⟨text, children, rfl⟩ := eq_of_isBlank h
    rfl
  unfold deleteTarget
  rw [afterKeyword?_gistOfAll]
  cases afterKeyword? "FROM" nodes with
  | none => rfl
  | some rest =>
    rw [Option.map_some, Option.bind_some, Option.bind_some, find?_gistOfAll isName_gist hblank]
    cases rest.find? isName with
    | none => rfl
    | some node => exact realNames_gist node

private theorem updateTarget_gistOfAll (nodes : List Node) :
    updateTarget (gistOfAll nodes) = updateTarget nodes := by
  have hfirst : (gistOfAll nodes).findSome? identifier? = nodes.findSome? identifier? := by
    induction nodes using blank_induction with
    | nil => rfl
    | blank text children rest ih => exact ih
    | solid node rest h ih =>
      rw [gistOfAll_cons h, List.findSome?_cons, List.findSome?_cons, identifier?_gist, ih]
  rw [updateTarget, hfirst, updateTarget]

/-- The tables of a statement are read off its gists. -/
theorem candidates_gistOfAll (kind : StatementKind) (nodes : List Node) :
    candidates kind (gistOfAll nodes) = candidates kind nodes := by
  cases kind with
  | select => exact scanLists_gistOfAll .outside none nodes
  | insert =>
    simp only [candidates, insertTarget_gistOfAll, afterKeyword?_gistOfAll]
    cases afterKeyword? "SELECT" nodes with
    | none => rfl
    | some rest =>
      have hscan := scanLists_gistOfAll .outside none rest
      rw [Option.map_none] at hscan
      simp only [Option.map_some, hscan]
  | update => exact updateTarget_gistOfAll nodes
  | delete => exact deleteTarget_gistOfAll nodes
  | unknown => rfl

end Tables

/-! ### Columns -/

namespace Columns

mutual

private theorem name?_entriesOf_gist (node : Node) :
    (entriesOf node.gist).map Column.name? = (entriesOf node).map Column.name? := by
  cases node with
  | mk kind text children =>
    cases kind with
    | identifierList => exact name?_entriesOfAll_gistOfAll children
    | _ => rfl

/-- Gists give the named columns that the nodes give, and derived ones where the nodes do. -/
theorem name?_entriesOfAll_gistOfAll (nodes : List Node) :
    (entriesOfAll (gistOfAll nodes)).map Column.name? =
      (entriesOfAll nodes).map Column.name? := by
  cases nodes with
  | nil => rfl
  | cons node rest =>
    cases h : node.isBlank with
    | true =>
      obtain ⟨text, children, rfl⟩ := eq_of_isBlank h
      exact name?_entriesOfAll_gistOfAll rest
    | false =>
      rw [gistOfAll_cons h, entriesOfAll, entriesOfAll, List.map_append, List.map_append,
        name?_entriesOf_gist node, name?_entriesOfAll_gistOfAll rest]

end

private theorem name?_entriesOfAll_map_gist (nodes : List Node) :
    (entriesOfAll (nodes.map gist)).map Column.name? = (entriesOfAll nodes).map Column.name? := by
  induction nodes with
  | nil => rfl
  | cons node rest ih =>
    rw [List.map_cons, entriesOfAll, entriesOfAll, List.map_append, List.map_append,
      name?_entriesOf_gist, ih]

/-- Two scans stand at the same place, whatever the texts of the cases around it. -/
inductive Scan.Agrees : Scan → Scan → Prop
  | items : Agrees .items .items
  | case (block others : List Node) (around : Nat) :
    Agrees (.case block around) (.case others around)

private theorem name?_scanEntries_gistOfAll {scan other : Scan} (h : scan.Agrees other)
    (last : Option Node) (nodes : List Node) :
    (scanEntries scan (last.map gist) (gistOfAll nodes)).map Column.name? =
      (scanEntries other last nodes).map Column.name? := by
  -- Blanks give no entry, and every other node is read alike in either state of the scan.
  induction nodes using blank_induction generalizing scan other last with
  | nil => rfl
  | blank text children rest ih =>
    cases h with
    | items =>
      have hnone : entriesOfAll (itemsAfterAlias last (.mk .blank text children)) = [] := by
        unfold itemsAfterAlias
        split <;> rfl
      rw [gistOfAll_blank rfl, scanEntries, hnone, lastSignificant_blank last rfl]
      exact ih .items last
    | case block others around => exact ih (.case block (_ :: others) around) last
  | solid node rest hblank ih =>
    rw [gistOfAll_cons hblank]
    cases h with
    | items =>
      simp only [scanEntries, isKeyword_gist, lastSignificant_gist last hblank]
      split
      · rfl
      · split
        · exact ih (.case _ _ 0) _
        · rw [List.map_append, List.map_append, itemsAfterAlias_gist,
            name?_entriesOfAll_map_gist, ih .items]
    | case block others around =>
      simp only [scanEntries, isKeyword_gist, lastSignificant_gist last hblank]
      split
      · exact ih (.case _ _ (around + 1)) _
      · split
        · cases around with
          | zero => rw [List.map_cons, List.map_cons, ih .items, Column.name?, Column.name?]
          | succ around => exact ih (.case _ _ around) _
        · exact ih (.case _ _ around) _

private theorem name?_projectionEntries_gistOfAll (nodes : List Node) :
    (projectionEntries (gistOfAll nodes)).map Column.name? =
      (projectionEntries nodes).map Column.name? := by
  unfold projectionEntries
  rw [afterKeyword?_gistOfAll]
  cases afterKeyword? "SELECT" nodes with
  | none => rfl
  | some rest => exact name?_scanEntries_gistOfAll .items none rest

private theorem listAfterParen_map_gist (nodes : List Node) :
    listAfterParen (nodes.map gist) = listAfterParen nodes := by
  induction nodes with
  | nil => rfl
  | cons node rest ih =>
    simp only [List.map_cons, listAfterParen, isName_gist, realNames_gist, isPunctuation_gist,
      isAnyPunctuation_gist, ih]

/-- The column list of an insertion is read off the gists. -/
theorem insertList_gistOfAll (nodes : List Node) :
    insertList (gistOfAll nodes) = insertList nodes := by
  unfold insertList
  rw [afterKeyword?_gistOfAll]
  cases afterKeyword? "INTO" nodes with
  | none => rfl
  | some rest =>
    have hsolid : (gistOfAll rest).filter (!·.isBlank) = (rest.filter (!·.isBlank)).map gist := by
      rw [← gistOfAll_eq_map, List.filter_eq_self]
      intro node hmem
      rw [isBlank_of_mem_gistOfAll hmem]
      rfl
    simp only [Option.map_some, hsolid]
    generalize rest.filter (!·.isBlank) = solid
    match solid with
    | [] => rfl
    | [table] => rfl
    | table :: paren :: more =>
      simp only [List.map_cons, isName_gist, isPunctuation_gist, listAfterParen_map_gist]

mutual

/-- A gist assigns the columns that the node assigns. -/
theorem targetsOf_gist (last : Option Node) (rest : List Node) (node : Node) :
    targetsOf (last.map gist) (gistOfAll rest) node.gist = targetsOf last rest node := by
  cases node with
  | mk kind text children =>
    cases kind with
    | comparison left operator right => simp only [gist, leaf, targetsOf, identifier?_operandOf]
    | identifierList => exact targetsOfAll_gistOfAll none children
    | identifier identifier =>
      simp only [gist, leaf, targetsOf, significant?_gistOfAll, Option.any_map, isKeyword_gist,
        isPunctuation_gist]
    | _ => rfl

private theorem targetsOfAll_gistOfAll (last : Option Node) (nodes : List Node) :
    targetsOfAll (last.map gist) (gistOfAll nodes) = targetsOfAll last nodes := by
  cases nodes with
  | nil => rfl
  | cons node rest =>
    cases h : node.isBlank with
    | true =>
      obtain ⟨text, children, rfl⟩ := eq_of_isBlank h
      exact targetsOfAll_gistOfAll last rest
    | false =>
      rw [gistOfAll_cons h, targetsOfAll, targetsOfAll, targetsOf_gist last rest node,
        lastSignificant_gist last h, targetsOfAll_gistOfAll (lastSignificant last node) rest]

end

/-- The assignments of an update are read off the gists. -/
theorem assigned_gistOfAll (nodes : List Node) : assigned (gistOfAll nodes) = assigned nodes := by
  unfold assigned
  rw [afterKeyword?_gistOfAll]
  cases afterKeyword? "SET" nodes with
  | none => rfl
  | some rest =>
    have hwhere : (gistOfAll rest).takeWhile (fun node ↦ !node.isKeyword "WHERE") =
        gistOfAll (rest.takeWhile fun node ↦ !node.isKeyword "WHERE") := by
      refine takeWhile_gistOfAll (fun node ↦ ?_) (fun node hblank ↦ ?_) rest
      · rw [isKeyword_gist]
      · obtain ⟨text, children, rfl⟩ := eq_of_isBlank hblank
        rfl
    rw [Option.map_some]
    dsimp only
    rw [hwhere]
    exact targetsOfAll_gistOfAll none _

/-- The columns of a statement are read off its gists, up to the texts of derived ones. -/
theorem name?_entries_gistOfAll (kind : StatementKind) (nodes : List Node) :
    (entries kind (gistOfAll nodes)).map Column.name? =
      (entries kind nodes).map Column.name? := by
  cases kind with
  | select => exact name?_projectionEntries_gistOfAll nodes
  | insert =>
    simp only [entries, insertList_gistOfAll]
    split
    · rfl
    · rw [List.map_append, List.map_append, name?_projectionEntries_gistOfAll]
  | update => simp only [entries, assigned_gistOfAll]
  | delete => rfl
  | unknown => rfl

end Columns

end SqlFootprint
