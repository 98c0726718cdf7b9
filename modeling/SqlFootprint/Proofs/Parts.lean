import SqlFootprint.Proofs.Clauses

/-!
# What a statement is made of

Grouping puts leaves and calls into groups. `Node.parts` takes the groups apart again and does not
look into calls, so the parts of a statement are what stands outside the arguments of all calls.
Grouping leaves them as they are (`partsOfAll_regroup`), and the keywords among them are those
outside all groups (`filter_partsOfAll_statementNodes`).
-/

namespace SqlFootprint

namespace Node

mutual

/-- The leaves and calls that a node is made of, calls as a whole. -/
def parts : Node → List Node
  | mk kind text children =>
    if kind.isCall || children.isEmpty then [mk kind text children] else partsOfAll children

/-- The leaves and calls that nodes are made of, calls as a whole. -/
def partsOfAll : List Node → List Node
  | [] => []
  | node :: rest => node.parts ++ partsOfAll rest

end

/-- A leaf is its only part. -/
@[simp] theorem parts_leaf (kind : Kind Node) (text : String) :
    (leaf kind text).parts = [leaf kind text] := by
  rw [leaf, parts, List.isEmpty_nil, Bool.or_true, if_pos rfl]

private theorem parts_of_isCall {node : Node} (h : node.kind.isCall = true) : node.parts =
    [node] := by
  cases node with
  | mk kind text children =>
    have hcall : kind.isCall = true := h
    rw [parts, hcall, Bool.true_or, if_pos rfl]

private theorem parts_group {kind : Kind Node} {children : List Node} (hkind : kind.isCall = false)
    (hne : children ≠ []) : (group kind children).parts = partsOfAll children := by
  rw [group, parts, hkind, Bool.false_or, if_neg (by simpa using hne)]

/-- Two lists in a row have the parts of both. -/
@[simp] theorem partsOfAll_append (first second : List Node) :
    partsOfAll (first ++ second) = partsOfAll first ++ partsOfAll second := by
  induction first with
  | nil => rfl
  | cons node rest ih => rw [List.cons_append, partsOfAll, partsOfAll, ih, List.append_assoc]

end Node

namespace Grouping

open Node

/-! ### Levels -/

private theorem Regroups.partsOfAll_eq {before after : List Node} (h : Regroups before after) :
    partsOfAll after = partsOfAll before := by
  induction h with
  | nil => rfl
  | keep _ ih => rw [partsOfAll, partsOfAll, ih]
  | fold two _ hcall _ ih =>
    have hne := List.ne_nil_of_length_pos (Nat.zero_lt_of_lt two)
    rw [partsOfAll, parts_group hcall hne, partsOfAll_append, ih]

/-- Grouping a level leaves its parts as they are. -/
theorem partsOfAll_regroup (nodes : List Node) :
    partsOfAll (regroup nodes) = partsOfAll nodes := by
  rw [regroup, (regroups_groupLists _).partsOfAll_eq, (regroups_groupComparisons _).partsOfAll_eq,
    (regroups_groupAliases _).partsOfAll_eq]

/-- A level is read as its parts. -/
theorem Reads.partsOfAll_eq {last : Option Node} {depth : Nat} {tokens left : List Token}
    {nodes : List Node} (h : Reads last depth tokens nodes left) : partsOfAll nodes = nodes := by
  induction h with
  | done => rfl
  | stop => rfl
  | skip _ ih => exact ih
  | leaf hnode _ _ ih =>
    obtain ⟨-, kind, rfl, -⟩ := tokenNode?_eq_leaf hnode
    rw [partsOfAll, parts_leaf, ih, List.singleton_append]
  | name _ _ _ ih => rw [partsOfAll, DottedName.node, parts_leaf, ih, List.singleton_append]
  | call _ _ _ _ hnode _ _ ih =>
    subst hnode
    rw [partsOfAll, parts_of_isCall rfl, ih, List.singleton_append]
  | openCall _ _ _ _ hnode _ =>
    subst hnode
    rw [partsOfAll, parts_of_isCall rfl, partsOfAll, List.append_nil]

/-! ### Statements -/

/-- Keywords other than `AS` stand in no groups but calls: they are the same among the nodes of a
statement and among their parts. -/
theorem filter_partsOfAll_statementNodes {p : Node → Bool}
    (hp : ∀ node, p node = true → node.isAnyKeyword = true ∧ node.isKeyword "AS" = false)
    (tokens : List Token) :
    (partsOfAll (statementNodes tokens)).filter p = (statementNodes tokens).filter p := by
  have hlevel {last : Option Node} {depth : Nat} {tokens left : List Token} {nodes : List Node}
      (h : Reads last depth tokens nodes left) :
      (partsOfAll (regroup nodes)).filter p = (regroup nodes).filter p := by
    rw [partsOfAll_regroup, h.partsOfAll_eq, filter_regroup]
    · exact fun node hnode ↦ isBarrier_of_isAnyKeyword (hp node hnode).1 (hp node hnode).2
    · exact fun node hnode ↦ .inl (hp node hnode).1
  refine statementNodes_induction (motive := fun _ nodes ↦
    (partsOfAll nodes).filter p = nodes.filter p) ?_ ?_ tokens
  · intro tokens nodes hreads
    exact hlevel hreads
  · intro tokens nodes more hreads ih
    rw [partsOfAll_append, partsOfAll, List.filter_append, hlevel hreads, Node.punctuation,
      parts_leaf, List.singleton_append, List.filter_cons, ih, List.filter_append,
      List.filter_cons]

/-- A keyword other than `AS` is among the nodes of a statement if it is among their parts. -/
theorem exists_isKeyword_of_parts {word : String} (has : Text.sameWord word "AS" = false)
    {tokens : List Token}
    (h : ∃ part ∈ partsOfAll (statementNodes tokens), part.isKeyword word = true) :
    ∃ node ∈ statementNodes tokens, node.isKeyword word = true := by
  obtain ⟨part, hmem, hword⟩ := h
  have hfilter := filter_partsOfAll_statementNodes (p := fun node ↦ node.isKeyword word)
    (fun node hnode ↦ ⟨(Bool.and_eq_true_iff.1 hnode).1, isKeyword_eq_false hnode has⟩) tokens
  have hkept : part ∈ (statementNodes tokens).filter fun node ↦ node.isKeyword word := by
    rw [← hfilter]
    exact List.mem_filter.2 ⟨hmem, hword⟩
  exact ⟨part, List.mem_filter.1 hkept⟩

end Grouping

end SqlFootprint
