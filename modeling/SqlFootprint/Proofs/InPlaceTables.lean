import SqlFootprint.Analysis.InPlace
import SqlFootprint.Proofs.InPlaceTree
import SqlFootprint.Proofs.Scans

/-!
# The kind and the tables of an ordered tree in place

The kind of a statement and its tables are read from an ordered tree as from the nodes that it
holds. A scan that stands at a place looks back over the nodes before it; those that it has still to
read are held at the positions that follow.
-/

namespace SqlFootprint.InPlace

open List (Forall₂)
open Grouping (lastOf lastOf_append)

variable {tree : TokenTree} {sequence positions : List Nat} {nodes : List Node}

/-- One more node is read after others. -/
theorem lastOf_concat (last : Option Node) (nodes : List Node) (node : Node) :
    lastOf last (nodes ++ [node]) = Node.lastSignificant (lastOf last nodes) node :=
  lastOf_append last nodes [node]

section

variable (h : tree.Ordered)

include h

/-- The entry at a position is there, and is by itself what the node is. -/
theorem entryAt_alone_eq {position : Nat} {node : Node} (hnode : tree.Holds position node) :
    ∃ entry, entryAt tree position = pure entry ∧ entry.alone = node.alone := by
  obtain ⟨entry, hentry, -, rfl⟩ := entryAt_eq h hnode
  exact ⟨entry, hentry, Entry.alone_eq entry tree.allNodes⟩

/-! ### Kind -/

/-- The first kind named outside parentheses is that among the nodes. -/
theorem firstOutside_eq (hnodes : Forall₂ tree.Holds positions nodes) (depth : Nat) :
    firstOutside tree depth positions = pure (StatementKind.firstOutside depth nodes) := by
  induction hnodes generalizing depth with
  | nil => rfl
  | @cons position node positions nodes hnode _ ih =>
    obtain ⟨entry, hentry, halone⟩ := entryAt_alone_eq h hnode
    have hkind : StatementKind.ofNode? node.alone = StatementKind.ofNode? node := by
      rw [StatementKind.ofNode?, StatementKind.ofNode?, Node.isAnyKeyword_alone, Node.text_alone]
    rw [firstOutside, hentry, pure_bind, StatementKind.firstOutside]
    simp only [halone, Node.isPunctuation_alone, hkind, ih]
    by_cases hopen : node.isPunctuation "(" = true
    · rw [if_pos hopen, if_pos hopen]
    · rw [if_neg hopen, if_neg hopen]
      by_cases hclose : node.isPunctuation ")" = true
      · rw [if_pos hclose, if_pos hclose]
      · rw [if_neg hclose, if_neg hclose]
        cases if depth = 0 then StatementKind.ofNode? node else none with
        | none => rfl
        | some kind => rfl

/-- The kind of an ordered tree is that of its nodes. -/
theorem statementKind_eq : statementKind tree = pure (StatementKind.ofNodes tree.nodes) := by
  have hnodes := h.holds_roots
  have hfirst := firstPlace_eq h (fun node ↦ !node.isBlank)
    (fun node ↦ by rw [Node.isBlank_alone]) hnodes
  rw [statementKind, hfirst, pure_bind, StatementKind.ofNodes, List.dropWhile_eq_drop_findIdx_not]
  cases hfound : tree.nodes.findIdx? fun node ↦ !node.isBlank with
  | none =>
    rw [List.findIdx?_eq_none_iff_findIdx_eq.1 hfound, List.drop_length]
  | some first =>
    obtain ⟨hbound, hindex⟩ := List.findIdx?_eq_some_iff_findIdx_eq.1 hfound
    obtain ⟨position, hposition, hholds⟩ :=
      placeAt_eq hnodes (List.getElem?_eq_getElem hbound)
    obtain ⟨entry, hentry, halone⟩ := entryAt_alone_eq h hholds
    obtain ⟨rest, hpart, hrest⟩ := part_rest_eq hnodes hbound
    rw [hindex, List.drop_eq_getElem_cons hbound]
    generalize tree.nodes[first] = leading at halone
    simp only [hposition, hentry, hpart, pure_bind, halone, Node.isAnyKeyword_alone,
      Node.text_alone, Node.isKeyword_alone, firstOutside_eq h hrest, StatementKind.ofNode?]
    cases hkeyword : leading.isAnyKeyword with
    | false =>
      have hwith : leading.isKeyword "WITH" = false := by rw [Node.isKeyword, hkeyword]; rfl
      simp [hwith]
    | true =>
      cases StatementKind.ofKeyword? leading.text with
      | some kind => rfl
      | none => cases leading.isKeyword "WITH" <;> rfl

/-! ### Clauses -/

/-- The first place of a keyword is that of the first node that is the keyword. -/
theorem keywordPlace_eq (hnodes : Forall₂ tree.Holds sequence nodes) (word : String) :
    keywordPlace tree word sequence = pure (nodes.findIdx? (·.isKeyword word)) :=
  firstPlace_eq h _ (fun node ↦ Node.isKeyword_alone node word) hnodes

/-- What stands at a place is an alias as by the last node before it. -/
theorem introducesAlias_eq (hnodes : Forall₂ tree.Holds sequence nodes) (place : Nat) :
    introducesAlias tree sequence place =
      pure (Node.introducesAlias (lastOf none (nodes.take place))) := by
  apply testBefore_eq h _ _ hnodes
  intro node
  rw [Node.isKeyword_alone, Node.isKeyword_alone, Node.isPunctuation_alone]

/-! ### Tables -/

/-- A name at a place is an alias as by the last node before it. -/
theorem isAliasPlace_eq (hnodes : Forall₂ tree.Holds sequence nodes) (place : Nat) :
    isAliasPlace tree sequence place =
      pure (Tables.isAliasPlace (lastOf none (nodes.take place))) := by
  have hname := testBefore_eq h (fun node ↦ node.identifier?.isSome)
    (fun node ↦ by rw [Node.identifier?_alone]) hnodes place
  rw [isAliasPlace, introducesAlias_eq h hnodes, pure_bind, hname, Tables.isAliasPlace]
  cases Node.introducesAlias (lastOf none (nodes.take place)) <;> rfl

/-- A name or list contributes the tables that its node does. -/
theorem namesAt_eq (hnodes : Forall₂ tree.Holds sequence nodes) (place : Nat) {position : Nat}
    {node : Node} (hnode : tree.Holds position node) :
    namesAt tree sequence place position =
      pure (Tables.namesAt (lastOf none (nodes.take place)) node) := by
  have hitems := List.forall₂_drop 1 (holds_items h hnode)
  have hnames : ((items tree position).drop 1).mapM (realNames tree) =
      pure ((node.items.drop 1).map Node.realNames) := by
    apply mapM_eq_pure
    rw [List.forall₂_map_right_iff]
    exact hitems.imp fun _ _ hitem ↦ realNames_eq h hitem
  rw [namesAt, isAliasPlace_eq h hnodes, pure_bind, hnames, realNames_eq h hnode, pure_bind,
    Tables.namesAt, List.flatMap_def]
  cases Tables.isAliasPlace (lastOf none (nodes.take place)) <;> rfl

/-- A scan from a place on finds the tables that follow. -/
theorem scanLists_eq {before after : List Node}
    (hnodes : Forall₂ tree.Holds sequence (before ++ after))
    (hafter : Forall₂ tree.Holds positions after) (scan : Tables.Scan) :
    scanLists tree sequence scan before.length positions =
      pure (Tables.scanLists scan (lastOf none before) after) := by
  induction hafter generalizing before scan with
  | nil => rfl
  | @cons position node positions after hnode _ ih =>
    obtain ⟨entry, hentry, halone⟩ := entryAt_alone_eq h hnode
    have hnames := namesAt_eq h hnodes before.length hnode
    have hrest (scan : Tables.Scan) := @ih (before ++ [node]) (by simpa using hnodes) scan
    rw [List.take_left] at hnames
    simp only [lastOf_concat, List.length_append, List.length_singleton] at hrest
    rw [scanLists, hentry, pure_bind, Tables.scanLists]
    simp only [halone, Node.isAnyKeyword_alone, Node.text_alone, Node.isName_alone, hnames, hrest,
      pure_bind]
    by_cases hkeyword : node.isAnyKeyword = true
    · rw [if_pos hkeyword, if_pos hkeyword, Node.lastSignificant,
        Node.isBlank_of_isAnyKeyword hkeyword]
      rfl
    · rw [if_neg hkeyword, if_neg hkeyword]
      by_cases hname : node.isName = true ∧ scan = .inList
      · rw [if_pos hname, if_pos hname, Node.lastSignificant, Node.isBlank_of_isName hname.1]
        rfl
      · rw [if_neg hname, if_neg hname]

/-- A scan of a whole sequence finds the tables of its nodes. -/
theorem scanLists_start_eq (hnodes : Forall₂ tree.Holds sequence nodes) :
    scanLists tree sequence .outside 0 sequence = pure (Tables.scanLists .outside none nodes) := by
  have hnone : scanLists tree sequence .outside ([] : List Node).length sequence =
      pure (Tables.scanLists .outside (lastOf none []) nodes) :=
    scanLists_eq h hnodes hnodes .outside
  exact hnone

end

/-- What stands after a keyword follows the first node that is the keyword. -/
theorem afterKeyword?_eq_map_findIdx? (word : String) (nodes : List Node) :
    Node.afterKeyword? word nodes =
      (nodes.findIdx? (·.isKeyword word)).map fun place ↦ nodes.drop (place + 1) := by
  induction nodes with
  | nil => rfl
  | cons node rest ih =>
    rw [Node.afterKeyword?, List.findIdx?_cons]
    by_cases hword : node.isKeyword word = true
    · rw [if_pos hword, if_pos hword]
      rfl
    · rw [if_neg hword, if_neg hword, ih, Option.map_map]
      rfl

section

variable (h : tree.Ordered)

include h

/-- The table of an insertion is that of its nodes. -/
theorem insertTarget_eq : insertTarget tree = pure (Tables.insertTarget tree.nodes) := by
  have hnodes := h.holds_roots
  rw [insertTarget, keywordPlace_eq h hnodes, pure_bind, Tables.insertTarget,
    afterKeyword?_eq_map_findIdx?]
  cases tree.nodes.findIdx? (·.isKeyword "INTO") with
  | none => rfl
  | some into =>
    have hnext := Node.nextSignificant?_bind tree.nodes into
    simp only [nextSignificant_eq h hnodes, pure_bind, Option.map_some, Option.bind_some]
    cases hfound : Node.nextSignificant? tree.nodes into with
    | none =>
      rw [hfound] at hnext
      have hnone := Option.map_eq_none_iff.1 hnext.symm
      rw [hnone]
    | some next =>
      have hnode := List.getElem?_eq_getElem (Node.lt_of_nextSignificant? hfound)
      obtain ⟨position, hposition, hholds⟩ := placeAt_eq hnodes hnode
      rw [hfound, Option.bind_some, hnode] at hnext
      obtain ⟨⟨node, count⟩, hfront, hsame⟩ := Option.map_eq_some_iff.1 hnext.symm
      simp only [← hsame] at hholds
      simp only [hfront, hposition, pure_bind, testAt_eq h Node.isName_alone hholds,
        realNames_eq h hholds]
      cases node.isName <;> rfl

/-- A search finds the first position whose node passes a test. -/
theorem findM?_testAt_eq {test : Node → Bool} (htest : ∀ node, test node.alone = test node)
    (hnodes : Forall₂ tree.Holds positions nodes) :
    (positions.findM? (testAt tree test) = pure none ∧ nodes.find? test = none) ∨
      ∃ position node, positions.findM? (testAt tree test) = pure (some position) ∧
        nodes.find? test = some node ∧ tree.Holds position node := by
  induction hnodes with
  | nil => exact .inl ⟨rfl, rfl⟩
  | @cons position node positions nodes hnode _ ih =>
    rw [List.findM?, testAt_eq h htest hnode, pure_bind, List.find?_cons]
    cases test node with
    | true => exact .inr ⟨position, node, rfl, rfl, hnode⟩
    | false => exact ih

/-- The table of a deletion is that of its nodes. -/
theorem deleteTarget_eq : deleteTarget tree = pure (Tables.deleteTarget tree.nodes) := by
  have hnodes := h.holds_roots
  rw [deleteTarget, keywordPlace_eq h hnodes, pure_bind, Tables.deleteTarget,
    afterKeyword?_eq_map_findIdx?]
  cases hfound : tree.nodes.findIdx? (·.isKeyword "FROM") with
  | none => rfl
  | some start =>
    obtain ⟨hbound, -⟩ := List.findIdx?_eq_some_iff_getElem.1 hfound
    obtain ⟨rest, hpart, hrest⟩ := part_rest_eq hnodes hbound
    simp only [hpart, pure_bind, Option.map_some, Option.bind_some]
    rcases findM?_testAt_eq h Node.isName_alone hrest with
      ⟨hnone, hfind⟩ | ⟨position, node, hsome, hfind, hnode⟩
    · rw [hnone, hfind]
      rfl
    · rw [hsome, hfind, pure_bind]
      exact realNames_eq h hnode

/-- The table of an update is that of its nodes. -/
theorem updateTarget_eq : updateTarget tree = pure (Tables.updateTarget tree.nodes) := by
  have hfind : ∀ {positions nodes}, Forall₂ tree.Holds positions nodes →
      (positions.findSomeM? fun position ↦ return (← entryAt tree position).alone.identifier?) =
        (pure (nodes.findSome? Node.identifier?) : Access (Option Identifier)) := by
    intro positions nodes hnodes
    induction hnodes with
    | nil => rfl
    | @cons position node positions nodes hnode _ ih =>
      obtain ⟨entry, hentry, halone⟩ := entryAt_alone_eq h hnode
      rw [List.findSomeM?, hentry, pure_bind, pure_bind, halone, Node.identifier?_alone, ih,
        List.findSome?_cons]
      cases node.identifier? <;> rfl
  rw [updateTarget, hfind h.holds_roots]
  rfl

/-- The tables of an ordered tree are those of its nodes. -/
theorem tableCandidates_eq (kind : StatementKind) :
    tableCandidates tree kind = pure (Tables.candidates kind tree.nodes) := by
  have hnodes := h.holds_roots
  cases kind with
  | select => exact scanLists_start_eq h hnodes
  | insert =>
    rw [tableCandidates, insertTarget_eq h, pure_bind, keywordPlace_eq h hnodes, pure_bind,
      Tables.candidates, afterKeyword?_eq_map_findIdx?]
    cases hfound : tree.nodes.findIdx? (·.isKeyword "SELECT") with
    | none => simp only [Option.map_none, List.append_nil]
    | some start =>
      obtain ⟨hbound, -⟩ := List.findIdx?_eq_some_iff_getElem.1 hfound
      obtain ⟨rest, hpart, hrest⟩ := part_rest_eq hnodes hbound
      simp only [hpart, pure_bind, scanLists_start_eq h hrest, Option.map_some]
  | update => exact updateTarget_eq h
  | delete => exact deleteTarget_eq h
  | unknown => rfl

end

end SqlFootprint.InPlace
