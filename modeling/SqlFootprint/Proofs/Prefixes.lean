import SqlFootprint.Proofs.Parts
import SqlFootprint.Proofs.Shapes

/-!
# Where tokens go on

Tokens are grouped before others as they are alone, up to their last level, unless a call among them
is open (`exists_statementNodes_append`): the last level is read as it is alone, and what follows is
read after it and grouped with it. A call is open if the parentheses of its children do not balance,
which can be seen in the grouped tokens alone (`isOpenCall_callNode`).
-/

namespace SqlFootprint

/-- The node is a call without the parenthesis that closes it. -/
def Node.isOpenCall (node : Node) : Bool :=
  node.kind.isCall && nesting? 0 node.children != some 0

namespace Grouping

open Node

/-- A call that is not closed can be told by its children. -/
theorem isOpenCall_callNode {name : DottedName} {blanks inside : List Token}
    {arguments : List Node} (hblanks : ∀ blank ∈ blanks, blank.isBlank = true)
    (hinside : Reads none 0 inside arguments []) :
    (callNode name blanks (regroup arguments) false).isOpenCall = true := by
  obtain ⟨inner, hinner, -⟩ := hinside.exists_node_nesting?
  have hgap : ∀ node ∈ blanks.map plainNode, node.isBlank = true := by
    rw [List.forall_mem_map]
    intro blank hmem
    rw [plainNode, if_pos (hblanks blank hmem)]
    rfl
  have hchildren : Node.nesting? 0 (name.node :: (blanks.map plainNode ++ .punctuation "(" ::
      regroup arguments)) = some (inner + 1) := by
    have hname : name.node.isParen = false := rfl
    rw [nesting?_cons, nestAfter?_of_not_isParen hname, Option.bind_some,
      nesting?_blanks_append hgap, nesting?_cons]
    have hopen := nesting?_add hinner 1
    rw [Nat.zero_add, ← nesting?_regroup] at hopen
    exact hopen
  rw [callNode_eq, if_neg Bool.false_ne_true, List.append_nil, isOpenCall, children_group,
    hchildren]
  simp [Kind.isCall]

/-- The nodes of what a level leaves: the parenthesis at which it stops, and a statement. -/
def unreadNodes : List Token → List Node
  | [] => []
  | _ :: rest => .punctuation ")" :: statementNodes rest

/-- A statement is its first level and what the level leaves. -/
theorem Reads.statementNodes_eq_unread {tokens left : List Token} {nodes : List Node}
    (h : Reads none 0 tokens nodes left) :
    statementNodes tokens = regroup nodes ++ unreadNodes left := by
  rcases h.left_eq with rfl | ⟨more, rfl⟩
  · rw [h.statementNodes_eq, unreadNodes, List.append_nil]
  · rw [h.statementNodes_eq_append, unreadNodes]

/-- Unless a call among them is open, tokens are grouped before others as they are alone, up to
their last level; what follows is read within that level. -/
theorem exists_statementNodes_append (tokens : List Token)
    (hclosed : ∀ part ∈ partsOfAll (statementNodes tokens), part.isOpenCall = false) :
    ∃ front raw depth, statementNodes tokens = front ++ regroup raw ∧ partsOfAll raw = raw ∧
      ∀ {rest left : List Token} {more : List Node}, Parted tokens rest →
        Reads (lastOf none raw) depth rest more left → statementNodes (tokens ++ rest) =
          front ++ (regroup (raw ++ more) ++ unreadNodes left) := by
  revert hclosed
  refine statementNodes_induction (motive := fun tokens nodes ↦
    (∀ part ∈ partsOfAll nodes, part.isOpenCall = false) →
    ∃ front raw depth, nodes = front ++ regroup raw ∧ partsOfAll raw = raw ∧
      ∀ {rest left : List Token} {more : List Node}, Parted tokens rest →
        Reads (lastOf none raw) depth rest more left → statementNodes (tokens ++ rest) =
          front ++ (regroup (raw ++ more) ++ unreadNodes left))
    ?_ ?_ tokens
  · intro tokens nodes hreads hclosed
    rw [partsOfAll_regroup, hreads.partsOfAll_eq] at hclosed
    rcases hreads.append_or_open rfl with ⟨inner, -, happend⟩ | ⟨-, name, blanks, inside, arguments,
      hblanks, hopen, hmem⟩
    · refine ⟨[], nodes, inner, rfl, hreads.partsOfAll_eq, fun hparted hrest ↦ ?_⟩
      rw [← Nat.add_zero inner] at hrest
      exact (happend hparted hrest).statementNodes_eq_unread
    · have hcall : (callNode name blanks (regroup arguments) false).isOpenCall = true :=
        isOpenCall_callNode hblanks hopen
      rw [hclosed _ hmem] at hcall
      cases hcall
  · intro tokens nodes more hreads ih hclosed
    rw [partsOfAll_append, partsOfAll] at hclosed
    obtain ⟨front, raw, depth, hnodes, hraw, hrest⟩ := ih fun part hmem ↦
      hclosed part (List.mem_append_right _ (List.mem_append_right _ hmem))
    refine ⟨regroup nodes ++ .punctuation ")" :: front, raw, depth, ?_, hraw, ?_⟩
    · rw [hnodes, List.append_assoc, List.cons_append]
    · intro rest left following hparted hfollowing
      have hstop := hreads.append_of_stop List.mem_cons_self rest
      rw [List.cons_append] at hstop
      have hmore := hparted.of_suffix ((List.suffix_cons _ _).trans hreads.suffix)
      rw [hstop.statementNodes_eq_append, hrest hmore hfollowing, List.append_assoc,
        List.cons_append]

end Grouping

end SqlFootprint
