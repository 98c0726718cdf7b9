import SqlFootprint.Proofs.Barriers
import SqlFootprint.Proofs.Front
import SqlFootprint.Script.Split

/-!
# Where a statement can be cut

A token that makes the same node wherever it stands, and a barrier of it, cuts a statement in two
(`Cuts`). `Cuts.statementNodes_append` says that tokens which end outside all parentheses are
grouped before such a token as they are alone, with parentheses too many among them or without, and
that what follows is grouped as a statement of its own.
-/

namespace SqlFootprint

namespace Token

/-- How deep in parentheses tokens end; a parenthesis too many closes nothing. -/
def depth (outer : Nat) (tokens : List Token) : Nat := tokens.foldl depthAfter outer

/-- The first token leads to the depth at which the others start. -/
theorem depth_cons (outer : Nat) (token : Token) (rest : List Token) :
    depth outer (token :: rest) = depth (token.depthAfter outer) rest := rfl

/-- The first tokens lead to the depth at which the others start. -/
theorem depth_append (outer : Nat) (first second : List Token) :
    depth outer (first ++ second) = depth (depth outer first) second := List.foldl_append

/-- Where a token closes nothing too much, the two ways to count agree. -/
theorem depthAfter_of_nestAfter? {outer inner : Nat} {token : Token}
    (h : token.nestAfter? outer = some inner) : token.depthAfter outer = inner := by
  cases token with
  | closeParen =>
    simp only [nestAfter?] at h
    split at h
    · cases h
    · cases h
      rfl
  | _ =>
    cases h
    rfl

/-- Where nothing is closed too much, the two ways to count agree. -/
theorem depth_of_nesting? {tokens : List Token} {outer inner : Nat}
    (h : nesting? outer tokens = some inner) : depth outer tokens = inner := by
  induction tokens generalizing outer with
  | nil =>
    cases h
    rfl
  | cons token rest ih =>
    rw [nesting?_cons, Option.bind_eq_some_iff] at h
    obtain ⟨next, hnext, hrest⟩ := h
    rw [depth_cons, depthAfter_of_nestAfter? hnext, ih hrest]

/-- Tokens other than parentheses leave the depth as it is. -/
theorem depth_eq_self {outer : Nat} {tokens : List Token}
    (h : ∀ token ∈ tokens, token ≠ .openParen ∧ token ≠ .closeParen) :
    depth outer tokens = outer := depth_of_nesting? (nesting?_eq_some h)

end Token

namespace Grouping

private theorem depth_afterName (outer : Nat) (word : Word) (rest : List Token) :
    Token.depth outer (.word word :: rest) = Token.depth outer (afterName word rest) := by
  have hword : Token.depth outer (.word word :: rest) = Token.depth outer rest := rfl
  conv => lhs; rw [hword, ← take_append_afterName word rest]
  rw [Token.depth_append, Token.depth_eq_self ne_paren_of_mem_take]

private theorem Reads.depth_eq {last : Option Node} {depth : Nat} {tokens left : List Token}
    {nodes : List Node} (h : Reads last depth tokens nodes left) (hleft : left ≠ []) (outer : Nat) :
    Token.depth (depth + outer) tokens = Token.depth outer left := by
  induction h generalizing outer with
  | done => exact absurd rfl hleft
  | openCall => exact absurd rfl hleft
  | stop => rw [Nat.zero_add]
  | skip _ ih => exact ih hleft outer
  | leaf _ hnest _ ih =>
    rw [Token.depth_cons, Token.depthAfter_of_nestAfter? (Token.nestAfter?_add hnest outer)]
    exact ih hleft outer
  | name _ _ _ ih =>
    rw [depth_afterName]
    exact ih hleft outer
  | @call _ depth _ _ _ inside _ _ _ _ _ _ hafter hgap _ _ _ ihArguments ih =>
    have hblanks := ne_paren_of_isBlank (isBlank_of_callGap? hgap)
    have hinside := ihArguments (List.cons_ne_nil _ _) (depth + outer + 1)
    rw [Nat.zero_add, Token.depth_cons] at hinside
    rw [depth_afterName, hafter, Token.depth_append, Token.depth_eq_self hblanks]
    exact hinside.trans (ih hleft outer)

/-- A token that makes one node wherever it stands, and the node is a barrier. -/
structure Cuts (token : Token) (node : Node) : Prop where
  front : ∀ last rest, Front last [token] rest [node]
  barrier : IsBarrier node
  solid : node.isBlank = false
  apart : ∀ rest, Apart (token :: rest)

namespace Cuts

variable {token : Token} {node : Node}

private theorem exists_after (h : Cuts token node) (rest : List Token) :
    ∃ after, ∀ tokens raw, Front none tokens (token :: rest) raw →
      statementNodes (tokens ++ token :: rest) = regroup raw ++ node :: after := by
  obtain ⟨more, left, hmore⟩ := exists_reads (some node) 0 rest
  have hreads (last : Option Node) : Reads last 0 (token :: rest) (node :: more) left := by
    apply h.front last rest
    rwa [lastOf, List.foldl_cons, List.foldl_nil, Node.lastSignificant, h.solid]
  have hwhole {tokens : List Token} {raw : List Node}
      (hraw : Front none tokens (token :: rest) raw) :
      Reads none 0 (tokens ++ token :: rest) (raw ++ node :: more) left :=
    hraw 0 (node :: more) left (hreads _)
  rcases (hreads none).left_eq with rfl | ⟨unread, rfl⟩
  · refine ⟨regroup more, fun tokens raw hraw ↦ ?_⟩
    rw [(hwhole hraw).statementNodes_eq, regroup_append_cons h.barrier]
  · refine ⟨regroup more ++ .punctuation ")" :: statementNodes unread, fun tokens raw hraw ↦ ?_⟩
    rw [(hwhole hraw).statementNodes_eq_append, regroup_append_cons h.barrier, List.append_assoc,
      List.cons_append]

/-- A statement that starts with a cut has the node of the cut first. -/
theorem exists_statementNodes_eq (h : Cuts token node) (rest : List Token) :
    ∃ after, statementNodes (token :: rest) = node :: after := by
  obtain ⟨after, hafter⟩ := h.exists_after rest
  refine ⟨after, (hafter [] [] .nil).trans ?_⟩
  rw [regroup_nil, List.nil_append]

/-- What is read before a cut is grouped on its own, and so is the rest from the cut on. -/
theorem statementNodes_of_front (h : Cuts token node) {tokens rest : List Token} {raw : List Node}
    (hraw : Front none tokens (token :: rest) raw) :
    statementNodes (tokens ++ token :: rest) = regroup raw ++ statementNodes (token :: rest) := by
  obtain ⟨after, hafter⟩ := h.exists_after rest
  have halone : statementNodes (token :: rest) = regroup [] ++ node :: after := hafter [] [] .nil
  rw [hafter tokens raw hraw, halone, regroup_nil, List.nil_append]

/-- Tokens that end outside all parentheses are grouped before a cut as they are alone, and the rest
as a statement of its own. -/
theorem statementNodes_append (h : Cuts token node) {tokens : List Token} (rest : List Token)
    (hdepth : Token.depth 0 tokens = 0)
    (hlast : tokens.getLast? = some .period → continuesName [token] = false) :
    statementNodes (tokens ++ token :: rest) =
      statementNodes tokens ++ statementNodes (token :: rest) := by
  revert hdepth hlast
  refine statementNodes_induction (motive := fun tokens nodes ↦ Token.depth 0 tokens = 0 →
    (tokens.getLast? = some .period → continuesName [token] = false) →
      statementNodes (tokens ++ token :: rest) = nodes ++ statementNodes (token :: rest))
    ?_ ?_ tokens
  · intro tokens nodes hreads hdepth hlast
    have hcontinues : continuesName (token :: rest) = continuesName [token] := by
      cases token <;> rfl
    have hparted : Parted tokens (token :: rest) := ⟨h.apart rest, hcontinues ▸ hlast⟩
    obtain ⟨inner, hnesting, -, -⟩ := hreads.nesting? 0
    have hinner : Token.nesting? 0 tokens = some inner := hnesting
    have hzero := Token.depth_of_nesting? hinner
    rw [hdepth] at hzero
    rw [← hzero] at hinner
    exact h.statementNodes_of_front (.of_reads hreads hinner hparted)
  · intro tokens nodes more hreads ih hdepth hlast
    have hstop : Reads none 0 (tokens ++ token :: rest) nodes
        (.closeParen :: (more ++ token :: rest)) :=
      hreads.append_of_stop List.mem_cons_self _
    have hmore : Token.depth 0 more = 0 := by
      have hclose := hreads.depth_eq (List.cons_ne_nil _ _) 0
      rw [Nat.zero_add, hdepth, Token.depth_cons] at hclose
      exact hclose.symm
    have hsuffix : more <:+ tokens := (List.suffix_cons _ _).trans hreads.suffix
    rw [hstop.statementNodes_eq_append, ih hmore, List.append_assoc, List.cons_append]
    intro hperiod
    obtain ⟨front, rfl⟩ := hsuffix
    apply hlast
    rw [List.getLast?_append, hperiod]
    rfl

end Cuts

end Grouping

end SqlFootprint
