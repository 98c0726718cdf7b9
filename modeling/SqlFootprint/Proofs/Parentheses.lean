import SqlFootprint.Proofs.Outside

/-!
# Levels and the count of parentheses

Some parentheses of a statement are counted where they stand and others make a call, whose arguments
are read as a level of their own. `levels_match_parentheses` says that it comes to the same as one
count over all tokens: a level stops where the count does, calls end where the count says, and the
statement has one more level for each closing parenthesis that closes nothing.
-/

namespace SqlFootprint

namespace Token

/-- How many closing parentheses close nothing, that is, stand where no parenthesis is open. -/
def unmatched (tokens : List Token) : Nat := (outside 0 tokens).count .closeParen

private theorem closeParen_notMem_outside {tokens : List Token} {depth inner : Nat}
    (h : nesting? depth tokens = some inner) : .closeParen ∉ outside depth tokens := by
  induction tokens generalizing depth with
  | nil => exact List.not_mem_nil
  | cons token rest ih =>
    rw [nesting?_cons, Option.bind_eq_some_iff] at h
    obtain ⟨next, hnext, hrest⟩ := h
    have hafter := ih hrest
    rw [← depthAfter_of_nestAfter? hnext] at hafter
    rw [outside]
    split
    · next hzero =>
      refine List.not_mem_cons_of_ne_of_not_mem ?_ hafter
      rintro rfl
      rw [nestAfter?, if_pos hzero] at hnext
      cases hnext
    · exact hafter

/-- Tokens that close nothing too much have no parenthesis too many. -/
theorem unmatched_of_nesting? {tokens : List Token} {inner : Nat}
    (h : nesting? 0 tokens = some inner) : unmatched tokens = 0 :=
  List.count_eq_zero.2 (closeParen_notMem_outside h)

private theorem unmatched_append {run : List Token} (h : nesting? 0 run = some 0)
    (more : List Token) :
    unmatched (run ++ .closeParen :: more) = unmatched more + 1 := by
  have hrun : (outside 0 run).count .closeParen = 0 := unmatched_of_nesting? h
  have hmore : outside 0 (.closeParen :: more) = .closeParen :: outside 0 more := rfl
  rw [unmatched, outside_append, depth_of_nesting? h, List.count_append, hrun, hmore, Nat.zero_add,
    List.count_cons_self, unmatched]

end Token

namespace Grouping

/-! ### One level after the other -/

/-- How far a statement is read between two levels: the table, the positions of the nodes outside
all groups, and the tokens that are left. -/
structure Levels where
  builder : Builder
  roots : List Nat
  rest : List Token

namespace Levels

/-- Read a level after what was read before. -/
def read (builder : Builder) (roots : List Nat) (tokens : List Token) : Levels :=
  let level := storeLevel builder none 0 tokens
  let stored := level.1.regroup
  ⟨stored.builder, roots ++ stored.positions, tokens.drop level.2⟩

/-- One round of the loop over levels: the token at which a level stopped becomes a parenthesis, and
the level after it is read. There is no round once all tokens are read. -/
def round? (levels : Levels) : Option Levels :=
  match levels.rest with
  | [] => none
  | _ :: rest =>
    let stray := levels.builder.next
    some (read (levels.builder.addLeaf (.punctuation ")")) (levels.roots ++ [stray]) rest)

/-- So many rounds, one after the other. -/
def rounds? : Levels → Nat → Option Levels
  | levels, 0 => some levels
  | levels, count + 1 => levels.round?.bind (rounds? · count)

/-- After one round for each parenthesis that closes nothing, the statement is read and stored. -/
theorem rounds?_read (tokens : List Token) : ∀ (builder : Builder) (roots : List Nat),
    (read builder roots tokens).rounds? (Token.unmatched tokens) =
      some ⟨(storeStatement builder tokens).1, roots ++ (storeStatement builder tokens).2, []⟩ := by
  refine statementNodes_induction (motive := fun tokens _ ↦
    ∀ (builder : Builder) (roots : List Nat),
      (read builder roots tokens).rounds? (Token.unmatched tokens) =
        some ⟨(storeStatement builder tokens).1, roots ++ (storeStatement builder tokens).2, []⟩)
    ?_ ?_ tokens
  · intro tokens nodes hreads builder roots
    obtain ⟨run, inner, htokens, hnesting, -⟩ := hreads.exists_nesting?
    rw [List.append_nil] at htokens
    obtain ⟨-, hdrop, -⟩ := hreads.storeLevel_eq builder
    rw [htokens, Token.unmatched_of_nesting? hnesting, ← htokens, rounds?, read, hdrop,
      hreads.storeStatement_eq]
  · intro tokens nodes more hreads ih builder roots
    obtain ⟨run, inner, htokens, hnesting, hinner⟩ := hreads.exists_nesting?
    rw [hinner (List.cons_ne_nil _ _)] at hnesting
    obtain ⟨-, hdrop, -⟩ := hreads.storeLevel_eq builder
    have hcount : Token.unmatched tokens = Token.unmatched more + 1 := by
      rw [htokens, Token.unmatched_append hnesting]
    let stored := (storeLevel builder none 0 tokens).1.regroup
    have hround := ih (stored.builder.addLeaf (.punctuation ")"))
      (roots ++ stored.positions ++ [stored.builder.next])
    rw [hcount, rounds?, read, round?, hdrop, Option.bind_some, hround,
      hreads.storeStatement_eq_append, List.append_assoc, List.append_assoc, List.singleton_append]

end Levels

end Grouping

/-- A level that is read from any place of the tokens stops at the first closing parenthesis that
closes more than was opened since, or at the end, and it never counts below zero. So every call of a
statement goes from its name to the parenthesis that the count matches, or to the end, and the loop
over the levels runs once for each parenthesis that closes nothing. -/
theorem levels_match_parentheses (tokens : List Token) :
    (∀ (builder : Builder) (start : Fin (tokens.length + 1)),
      let level := Grouping.storeLevel builder none 0 (tokens.drop start)
      start + level.2 = Token.levelEnd tokens start ∧
        (Node.nesting? 0 level.1.nodes).isSome = true) ∧
    Grouping.Covers tokens [] (groupStatement tokens).nodes ∧
    ∃ levels : Grouping.Levels,
      (Grouping.Levels.read {} [] tokens).rounds? (Token.unmatched tokens) = some levels ∧
        levels.rest = [] ∧ groupStatement tokens = levels.builder.finish levels.roots := by
  refine ⟨fun builder start ↦ ?_, ?_, ?_⟩
  · obtain ⟨nodes, left, hreads⟩ := Grouping.exists_reads none 0 (tokens.drop start)
    obtain ⟨hnodes, -, hcount⟩ := hreads.storeLevel_eq builder
    obtain ⟨inner, hnesting, -⟩ := hreads.exists_node_nesting?
    have hend := hreads.levelEnd_eq
    refine ⟨?_, ?_⟩
    · rw [Token.levelEnd_eq_add (Nat.le_of_lt_succ start.isLt)]
      omega
    · rw [hnodes, hnesting, Option.isSome_some]
  · rw [nodes_groupStatement]
    exact Grouping.covers_statementNodes tokens
  · exact ⟨_, Grouping.Levels.rounds?_read tokens {} [], rfl, rfl⟩

end SqlFootprint
