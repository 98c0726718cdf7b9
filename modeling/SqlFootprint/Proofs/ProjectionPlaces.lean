import SqlFootprint.Proofs.Cases
import SqlFootprint.Proofs.InPlaceColumns
import SqlFootprint.Proofs.Predicates

/-!
# What stands at the places of a projection

What a projection gives is said here place by place, without a scan: how many blocks from `CASE` to
`END` are open before a place, where the first `FROM` outside all blocks stands, where a block ends,
and what stands at a place outside them. `projection_by_place` says that the scan gives the same, on
the nodes of a statement and in any finished tree.
-/

namespace SqlFootprint

open Node
open Grouping (lastOf lastOf_append)

namespace Columns

/-! ### Places -/

/-- The first `FROM` that stands outside all blocks is at the place or before it. -/
def stopsAt (nodes : List Node) (place : Nat) : Bool :=
  nodes[place]?.any (·.isKeyword "FROM") && openCases 0 (nodes.take place) == 0

/-- The nodes before the first `FROM` outside all blocks. -/
def untilFrom (nodes : List Node) : List Node :=
  match (List.range nodes.length).find? (stopsAt nodes) with
  | some place => nodes.take place
  | none => nodes

/-- How many nodes there are up to the one behind which no block is open, of `opened` that are open
before them, and with it. -/
def blockLength? (opened : Nat) (nodes : List Node) : Option Nat :=
  ((List.range nodes.length).find? fun place ↦
    openCases opened (nodes.take (place + 1)) == 0).map (· + 1)

/-- The closest node before a place that is no blank. -/
def nodeBefore (nodes : List Node) (place : Nat) : Option Node :=
  (nodes.take place).reverse.find? (!·.isBlank)

mutual

/-- The items of a node, those of lists within lists among them. -/
def allItems : Node → List Node
  | .mk .identifierList _ children => allItemsOf children
  | node => [node]

/-- The items of children of a list, which are no marks and no blanks. -/
def allItemsOf : List Node → List Node
  | [] => []
  | child :: rest =>
    (if child.isBlank || child.isAnyPunctuation then [] else allItems child) ++ allItemsOf rest

end

/-- The column that an item is: a name, a call without its alias, or a star. -/
def columnOf? (item : Node) : Option String :=
  match item.kind with
  | .identifier identifier => some identifier.fullName
  | .function _ none => some (derived item.text)
  | .function _ (some _) => some (derived (item.children.headD item).text)
  | .wildcard => some item.text
  | _ => none

/-- What stands at a place: a block at the `CASE` that opens it, nothing at its other places, and
outside all blocks the items, of which the first is an alias behind `AS`, `END` and a closing
parenthesis. -/
def columnsAt (nodes : List Node) (place : Nat) : List String :=
  match nodes[place]? with
  | none => []
  | some node =>
    if openCases 0 (nodes.take place) ≠ 0 then []
    else if node.isKeyword "CASE" then
      let behind := nodes.drop (place + 1)
      ((blockLength? 1 behind).map fun count ↦ derived (textOf (node :: behind.take count))).toList
    else
      let isAlias := (nodeBefore nodes place).any fun before ↦
        before.isKeyword "AS" || before.isKeyword "END" || before.isPunctuation ")"
      let items := if isAlias then node.items.drop 1 else node.items
      (items.flatMap allItems).filterMap columnOf?

/-- The columns of the first projection, place by place. -/
def projectionByPlace (nodes : List Node) : List String :=
  match afterKeyword? "SELECT" nodes with
  | some rest =>
    let read := untilFrom rest
    (List.range read.length).flatMap (columnsAt read)
  | none => []

/-! ### Items -/

mutual

private theorem columnsOf_eq_filterMap (node : Node) :
    columnsOf node = (allItems node).filterMap columnOf? := by
  match node with
  | .mk .identifierList text children =>
    rw [columnsOf, allItems]
    exact columnsOfAll_eq_filterMap children
  | .mk (.function name (some aliasName)) text [] => rfl
  | .mk (.function name (some aliasName)) text (call :: children) => rfl
  | .mk (.function name none) text children => rfl
  | .mk .keyword text children => rfl
  | .mk (.identifier identifier) text children => rfl
  | .mk (.comparison left operator right) text children => rfl
  | .mk .punctuation text children => rfl
  | .mk .wildcard text children => rfl
  | .mk .literal text children => rfl
  | .mk .blank text children => rfl

/-- The columns of children of a list are those of the items. -/
theorem columnsOfAll_eq_filterMap (children : List Node) :
    columnsOfAll children = (allItemsOf children).filterMap columnOf? := by
  match children with
  | [] => rfl
  | child :: rest =>
    rw [columnsOfAll, allItemsOf, List.filterMap_append, columnsOfAll_eq_filterMap rest]
    congr 1
    split
    · next hmark =>
      match child with
      | .mk .punctuation _ _ => rfl
      | .mk .blank _ _ => rfl
    · exact columnsOf_eq_filterMap child

end

private theorem flatMap_columnsOf (nodes : List Node) :
    nodes.flatMap columnsOf = (nodes.flatMap allItems).filterMap columnOf? := by
  induction nodes with
  | nil => rfl
  | cons node rest ih =>
    rw [List.flatMap_cons, List.flatMap_cons, List.filterMap_append, ih, columnsOf_eq_filterMap]

/-! ### Blocks -/

private theorem blockLength?_cons (opened : Nat) (node : Node) (rest : List Node) :
    blockLength? opened (node :: rest) =
      if openCases opened [node] = 0 then some 1
      else (blockLength? (openCases opened [node]) rest).map (· + 1) := by
  have hrest (place : Nat) : openCases opened (node :: rest.take place) =
      openCases (openCases opened [node]) (rest.take place) := openCases_append opened [node] _
  rw [blockLength?, List.length_cons, List.range_succ_eq_map, List.find?_cons, List.find?_map]
  simp only [Function.comp_def, Nat.zero_add, List.take_succ_cons, hrest, List.take_zero]
  by_cases hzero : openCases opened [node] = 0
  · rw [if_pos hzero, hzero]
    rfl
  · rw [if_neg hzero, beq_eq_false_iff_ne.2 hzero]
    rfl

private theorem scanItems_block (block : List Node) (around : Nat) (last : Option Node)
    (nodes : List Node) :
    scanItems (.case block around) last nodes =
      match blockLength? (around + 1) nodes with
      | some count => derived (textOf (block.reverse ++ nodes.take count)) ::
          scanItems .items (lastOf last (nodes.take count)) (nodes.drop count)
      | none => [] := by
  induction nodes generalizing block around last with
  | nil => rfl
  | cons node rest ih =>
    -- A node that leaves some block open joins the text, and the scan goes on inside.
    have hinside {next : Nat} (hopen : openCases (around + 1) [node] = next + 1)
        (hscan : scanItems (.case block around) last (node :: rest) =
          scanItems (.case (node :: block) next) (lastSignificant last node) rest) :
        scanItems (.case block around) last (node :: rest) =
          match blockLength? (around + 1) (node :: rest) with
          | some count => derived (textOf (block.reverse ++ (node :: rest).take count)) ::
              scanItems .items (lastOf last ((node :: rest).take count)) ((node :: rest).drop count)
          | none => [] := by
      rw [hscan, ih, blockLength?_cons, hopen, if_neg (Nat.succ_ne_zero _)]
      cases blockLength? (next + 1) rest with
      | none => rfl
      | some count =>
        simp only [Option.map_some, List.reverse_cons, List.append_assoc, List.singleton_append]
        rfl
    by_cases hcase : node.isKeyword "CASE" = true
    · have hopen : openCases (around + 1) [node] = around + 1 + 1 := by
        rw [openCases, if_pos hcase]
        rfl
      exact hinside hopen (scanItems_open hcase block around last rest)
    · by_cases hend : node.isKeyword "END" = true
      · have hopen : openCases (around + 1) [node] = around := by
          rw [openCases, if_neg hcase, if_pos hend]
          rfl
        cases around with
        | succ around => exact hinside hopen (scanItems_closeInner hend block around last rest)
        | zero =>
          rw [scanItems_close hend, blockLength?_cons, if_pos hopen]
          simp only [List.reverse_cons]
          rfl
      · have hmark : node.isCaseMark = false := by simp [isCaseMark, hcase, hend]
        have hopen : openCases (around + 1) [node] = around + 1 := by
          rw [openCases_cons hmark]
          rfl
        exact hinside hopen (scanItems_inside hmark block around last rest)

/-- Where a block ends none is open, and some are at all places before. -/
theorem of_blockLength?_eq_some {opened count : Nat} {nodes : List Node}
    (h : blockLength? opened nodes = some count) (hopened : opened ≠ 0) :
    count ≤ nodes.length ∧ openCases opened (nodes.take count) = 0 ∧
      ∀ place < count, openCases opened (nodes.take place) ≠ 0 := by
  obtain ⟨place, hfound, rfl⟩ := Option.map_eq_some_iff.1 h
  obtain ⟨hzero, hmem, hbefore⟩ := List.find?_range_eq_some.1 hfound
  refine ⟨List.mem_range.1 hmem, by simpa using hzero, fun other hother ↦ ?_⟩
  cases other with
  | zero => exact hopened
  | succ other => simpa using hbefore other (Nat.lt_of_succ_lt_succ hother)

private theorem of_blockLength?_eq_none {opened : Nat} {nodes : List Node}
    (h : blockLength? opened nodes = none) (hopened : opened ≠ 0) :
    ∀ place ≤ nodes.length, openCases opened (nodes.take place) ≠ 0 := by
  intro place hplace
  have hnone := Option.map_eq_none_iff.1 h
  cases place with
  | zero => exact hopened
  | succ place => simpa using List.find?_range_eq_none.1 hnone place hplace

/-! ### Where the scan stops -/

private theorem scanItems_untilFrom (nodes : List Node) (last : Option Node) :
    scanItems .items last nodes = scanItems .items last (untilFrom nodes) ∧
      ∀ place, stopsAt (untilFrom nodes) place = false := by
  have hbeyond {nodes : List Node} {place : Nat} (h : nodes.length ≤ place) :
      stopsAt nodes place = false := by
    rw [stopsAt, List.getElem?_eq_none h]
    rfl
  rw [untilFrom]
  cases hfound : (List.range nodes.length).find? (stopsAt nodes) with
  | none =>
    refine ⟨rfl, fun place ↦ ?_⟩
    rcases Nat.lt_or_ge place nodes.length with hlt | hge
    · simpa using List.find?_range_eq_none.1 hfound place hlt
    · exact hbeyond hge
  | some stop =>
    obtain ⟨hstop, hmem, hbefore⟩ := List.find?_range_eq_some.1 hfound
    have hbound := List.mem_range.1 hmem
    have hsplit : nodes = nodes.take stop ++ nodes[stop] :: nodes.drop (stop + 1) := by
      rw [List.getElem_cons_drop, List.take_append_drop]
    obtain ⟨hfrom, hopen⟩ := Bool.and_eq_true_iff.1 hstop
    rw [List.getElem?_eq_getElem hbound, Option.any_some] at hfrom
    constructor
    · conv => lhs; rw [hsplit]
      exact scanItems_append_from (beq_iff_eq.1 hopen) hfrom last _
    · intro place
      rcases Nat.lt_or_ge place stop with hlt | hge
      · have hkept : stopsAt (nodes.take stop) place = stopsAt nodes place := by
          rw [stopsAt, stopsAt, List.getElem?_take_of_lt hlt, List.take_take,
            Nat.min_eq_left (Nat.le_of_lt hlt)]
        rw [hkept]
        simpa using hbefore place hlt
      · exact hbeyond (Nat.le_trans (List.length_take_le _ _) hge)

/-! ### Place by place -/

private theorem columnsAt_append_cons (before : List Node) (node : Node) (after : List Node) :
    columnsAt (before ++ node :: after) before.length =
      if openCases 0 before ≠ 0 then []
      else if node.isKeyword "CASE" then
        ((blockLength? 1 after).map fun count ↦ derived (textOf (node :: after.take count))).toList
      else (itemsAfterAlias (lastOf none before) node).flatMap columnsOf := by
  have hnode : (before ++ node :: after)[before.length]? = some node := by simp
  have hbehind : (before ++ node :: after).drop (before.length + 1) = after := by simp
  rw [columnsAt, hnode, hbehind, nodeBefore, List.take_left, ← lastOf_none_eq_find?,
    flatMap_columnsOf]
  rfl

private theorem columnsAt_inside {before after : List Node} {count : Nat}
    (hopen : openCases (openCases 0 before) (after.take count) ≠ 0) :
    columnsAt (before ++ after) (before.length + count) = [] := by
  have htake : (before ++ after).take (before.length + count) = before ++ after.take count :=
    List.take_length_add_append count
  rw [columnsAt, htake, openCases_append]
  cases (before ++ after)[before.length + count]? with
  | none => rfl
  | some node => exact if_pos hopen

private theorem flatMap_columnsAt_inside {before after : List Node} {length : Nat}
    (hopen : ∀ count < length, openCases (openCases 0 before) (after.take count) ≠ 0) :
    (List.range' before.length length).flatMap (columnsAt (before ++ after)) = [] := by
  rw [List.flatMap_eq_nil_iff]
  intro place hmem
  obtain ⟨hstart, hlength⟩ := List.mem_range'_1.1 hmem
  obtain ⟨count, rfl⟩ := Nat.le.dest hstart
  exact columnsAt_inside (hopen count (by omega))

private theorem flatMap_columnsAt_block {before : List Node} (hopen : openCases 0 before = 1)
    (after : List Node) :
    (List.range' before.length after.length).flatMap (columnsAt (before ++ after)) =
      match blockLength? 1 after with
      | some count => (List.range' (before.length + count) (after.length - count)).flatMap
          (columnsAt (before ++ after))
      | none => [] := by
  cases hblock : blockLength? 1 after with
  | none =>
    apply flatMap_columnsAt_inside
    intro count hlt
    rw [hopen]
    exact of_blockLength?_eq_none hblock Nat.one_ne_zero count (Nat.le_of_lt hlt)
  | some count =>
    obtain ⟨hcount, -, hwithin⟩ := of_blockLength?_eq_some hblock Nat.one_ne_zero
    have hrange : List.range' before.length after.length =
        List.range' before.length count ++
          List.range' (before.length + count) (after.length - count) := by
      rw [List.range'_append_1, Nat.add_sub_cancel' hcount]
    rw [hrange, List.flatMap_append, flatMap_columnsAt_inside fun place hlt ↦ ?_, List.nil_append]
    rw [hopen]
    exact hwithin place hlt

private theorem scanItems_eq_flatMap (before after : List Node) (hopen : openCases 0 before = 0)
    (hstop : ∀ place, stopsAt (before ++ after) place = false) :
    scanItems .items (lastOf none before) after =
      (List.range' before.length after.length).flatMap (columnsAt (before ++ after)) := by
  match after with
  | [] => rfl
  | node :: rest =>
    have hfrom : node.isKeyword "FROM" = false := by
      have hnone := hstop before.length
      rw [stopsAt, List.take_left, hopen] at hnone
      simpa using hnone
    have hlast : lastSignificant (lastOf none before) node = lastOf none (before ++ [node]) :=
      (lastOf_append none before [node]).symm
    have hlength : (before ++ [node]).length = before.length + 1 := List.length_append
    have hplace := columnsAt_append_cons before node rest
    rw [if_neg (by simp [hopen])] at hplace
    rw [List.length_cons, List.range'_succ, List.flatMap_cons, hplace, List.append_cons, ← hlength]
    rw [List.append_cons] at hstop
    by_cases hcase : node.isKeyword "CASE" = true
    · have hinside : openCases 0 (before ++ [node]) = 1 := by
        rw [openCases_append, hopen, openCases, if_pos hcase]
        rfl
      rw [if_pos hcase, scanItems_case hcase, scanItems_block, hlast,
        flatMap_columnsAt_block hinside]
      cases hblock : blockLength? 1 rest with
      | none => rfl
      | some count =>
        -- The block is one column, and the scan goes on behind it.
        obtain ⟨hcount, hzero, -⟩ := of_blockLength?_eq_some hblock Nat.one_ne_zero
        have hsplit : before ++ [node] ++ rest.take count ++ rest.drop count =
            before ++ [node] ++ rest := by
          rw [List.append_assoc, List.take_append_drop]
        have hafter := scanItems_eq_flatMap (before ++ [node] ++ rest.take count) (rest.drop count)
          (by rw [openCases_append, hinside]; exact hzero)
          fun place ↦ by rw [hsplit]; exact hstop place
        rw [hsplit, List.length_append, List.length_take, Nat.min_eq_left hcount,
          List.length_drop, lastOf_append] at hafter
        exact congrArg _ hafter
    · have hclosed : openCases 0 (before ++ [node]) = 0 := by
        rw [openCases_append, hopen, openCases, if_neg hcase]
        split <;> rfl
      rw [if_neg hcase, scanItems_items hfrom (by simpa using hcase), hlast,
        scanItems_eq_flatMap (before ++ [node]) rest hclosed hstop]
  termination_by after.length

/-- A projection is what stands at the places before the first `FROM` outside all blocks. -/
theorem projection_eq_projectionByPlace (nodes : List Node) :
    projection nodes = projectionByPlace nodes := by
  rw [projection, projectionByPlace]
  cases afterKeyword? "SELECT" nodes with
  | none => rfl
  | some rest =>
    obtain ⟨hread, hstop⟩ := scanItems_untilFrom rest none
    have hplaces := scanItems_eq_flatMap [] (untilFrom rest) rfl hstop
    dsimp only
    rw [hread, List.range_eq_range']
    exact hplaces

end Columns

/-- The scan of a projection gives what stands at its places, for any nodes and in place, whatever
positions the calls and the roots of a tree name. -/
theorem projection_by_place :
    (∀ nodes, Columns.projection nodes = Columns.projectionByPlace nodes) ∧
      ∀ (calls : List Builder.Call) (roots : List Nat),
        let tree := (Builder.run calls).finish roots
        InPlace.projection tree = pure (Columns.projectionByPlace tree.nodes) := by
  refine ⟨Columns.projection_eq_projectionByPlace, fun calls roots ↦ ?_⟩
  have hordered := (Builder.Records.run calls).normalForm roots |>.ordered
  have hprojection := InPlace.projection_eq hordered
  rwa [Columns.projection_eq_projectionByPlace] at hprojection

end SqlFootprint
