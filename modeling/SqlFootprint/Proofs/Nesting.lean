import SqlFootprint.Analysis.StatementKind
import SqlFootprint.Proofs.Barriers
import SqlFootprint.Proofs.Front

/-!
# Parentheses among nodes

Tokens with as many parentheses closed as opened make nodes of the same kind
(`Reads.node_nesting?`), and grouping keeps them so (`nesting?_statementNodes`): parentheses that
belong to no call stay as they are. In parentheses such tokens are read as they are alone
(`Front.within`), and a search for the kind of a statement passes over what stands between them
(`StatementKind.firstOutside_nested`).
-/

namespace SqlFootprint

namespace Node

/-- How deep in parentheses the next node stands; `none` after one that closes nothing. -/
def nestAfter? (depth : Nat) (node : Node) : Option Nat :=
  if node.isPunctuation "(" then some (depth + 1)
  else if node.isPunctuation ")" then if depth = 0 then none else some (depth - 1)
  else some depth

/-- How deep in parentheses nodes end; `none` where one of them closes nothing. -/
def nesting? (depth : Nat) (nodes : List Node) : Option Nat := nodes.foldlM nestAfter? depth

/-- The first node leads to the depth at which the others start. -/
theorem nesting?_cons (depth : Nat) (node : Node) (rest : List Node) :
    nesting? depth (node :: rest) = (node.nestAfter? depth).bind (nesting? · rest) := by
  rw [nesting?, List.foldlM_cons]
  rfl

/-- The node is a parenthesis that belongs to no call. -/
def isParen (node : Node) : Bool := node.isPunctuation "(" || node.isPunctuation ")"

/-- Other nodes leave the depth as it is. -/
theorem nestAfter?_of_not_isParen {node : Node} (h : node.isParen = false) (depth : Nat) :
    node.nestAfter? depth = some depth := by
  obtain ⟨hopen, hclose⟩ := Bool.or_eq_false_iff.1 h
  rw [nestAfter?, hopen, hclose]
  rfl

/-- Only parentheses count. -/
theorem nesting?_filter (depth : Nat) (nodes : List Node) :
    nesting? depth (nodes.filter isParen) = nesting? depth nodes := by
  induction nodes generalizing depth with
  | nil => rfl
  | cons node rest ih =>
    rw [List.filter_cons]
    split
    · rw [nesting?_cons, nesting?_cons]
      exact congrArg _ (funext ih)
    · next hparen =>
      rw [nesting?_cons, nestAfter?_of_not_isParen (by simpa using hparen), ih]
      rfl

/-- Blanks leave the depth as it is. -/
theorem nesting?_blanks_append {blanks : List Node} (h : ∀ blank ∈ blanks, blank.isBlank = true)
    (depth : Nat) (rest : List Node) : nesting? depth (blanks ++ rest) = nesting? depth rest := by
  have hnone : blanks.filter isParen = [] := by
    rw [List.filter_eq_nil_iff]
    intro node hmem
    have hblank := h node hmem
    cases node with
    | mk kind text children =>
      cases kind with
      | blank => exact Bool.false_ne_true
      | _ => cases hblank
  rw [← nesting?_filter, List.filter_append, hnone, List.nil_append, nesting?_filter]

/-- Nodes that are closed within parentheses are closed within more of them. -/
theorem nesting?_add {depth inner : Nat} {nodes : List Node} (h : nesting? depth nodes = some inner)
    (outer : Nat) : nesting? (depth + outer) nodes = some (inner + outer) := by
  induction nodes generalizing depth with
  | nil =>
    cases h
    rfl
  | cons node nodes ih =>
    rw [nesting?_cons, Option.bind_eq_some_iff] at h
    obtain ⟨next, hnext, hrest⟩ := h
    have hstep : node.nestAfter? (depth + outer) = some (next + outer) := by
      unfold nestAfter? at hnext ⊢
      split at hnext
      · next hopen =>
        cases hnext
        rw [if_pos hopen, Option.some.injEq]
        omega
      · next hopen =>
        rw [if_neg hopen]
        split at hnext
        · next hclose =>
          split at hnext
          · cases hnext
          · cases hnext
            rw [if_pos hclose, if_neg (by omega), Option.some.injEq]
            omega
        · next hclose =>
          cases hnext
          rw [if_neg hclose]
    rw [nesting?_cons, hstep]
    exact ih hrest

end Node

namespace Grouping

/-- A level reads the same after what is followed by the same: of what stands before it, only which
keyword it is and whether an operand ends there count. -/
theorem Reads.congr_last {last other : Option Node} {depth : Nat} {tokens left : List Token}
    {nodes : List Node} (h : Reads last depth tokens nodes left)
    (hfollows : ∀ word, follows last word = follows other word)
    (hends : endsOperand last = endsOperand other) : Reads other depth tokens nodes left := by
  induction h generalizing other with
  | done => exact .done
  | stop => exact .stop
  | skip _ ih => exact .skip (ih hfollows hends)
  | @leaf last _ _ token node rest _ _ hnode hnest h ih =>
    have hsame : tokenNode? other rest token = tokenNode? last rest token := by
      cases token with
      | star => simp only [tokenNode?, starNode, hends]
      | _ => rfl
    refine .leaf (hsame.trans hnode) hnest ?_
    cases hblank : node.isBlank with
    | true =>
      simp only [Node.lastSignificant, hblank, ↓reduceIte] at ih ⊢
      exact ih hfollows hends
    | false =>
      simp only [Node.lastSignificant, hblank, Bool.false_eq_true, ↓reduceIte] at h ⊢
      exact h
  | name hrole hgap h _ =>
    refine .name hrole ?_ h
    rw [← hgap]
    simp only [callGap?, hfollows]
  | call hrole hafter hgap hinside hnode h _ _ =>
    refine .call hrole hafter ?_ hinside hnode h
    rw [← hgap]
    simp only [callGap?, hfollows]
  | openCall hrole hafter hgap hinside hnode _ =>
    refine .openCall hrole hafter ?_ hinside hnode
    rw [← hgap]
    simp only [callGap?, hfollows]

private theorem isParen_plainNode {token : Token} (h : token.render ∉ ["(", ")"]) :
    (plainNode token).isParen = false := by
  unfold plainNode
  split
  · rfl
  · split
    · rfl
    · simpa [Node.isParen, Node.isPunctuation, Node.isAnyPunctuation, Node.punctuation] using h

/-- A token and the node it makes on its own lead to the same depth. -/
theorem nestAfter?_of_tokenNode? {last : Option Node} {rest : List Token} {token : Token}
    {node : Node} {depth inner : Nat} (hnode : tokenNode? last rest token = some node)
    (hnest : token.nestAfter? depth = some inner) : node.nestAfter? depth = some inner := by
  have hflat (hparen : node.isParen = false) (htoken : token.nestAfter? depth = some depth) :
      node.nestAfter? depth = some inner := by
    rw [Node.nestAfter?_of_not_isParen hparen, ← htoken, hnest]
  cases token with
  | openParen =>
    cases hnode
    exact hnest
  | closeParen =>
    cases hnode
    exact hnest
  | endOfInput => cases hnode
  | word word =>
    refine hflat ?_ rfl
    simp only [tokenNode?] at hnode
    split at hnode
    · cases hnode
      rfl
    · cases hnode
      rfl
    · cases hnode
  | star =>
    cases hnode
    refine hflat ?_ rfl
    unfold starNode
    split
    · decide
    · rfl
  | string form body =>
    cases hnode
    exact hflat (isParen_plainNode (Token.render_string_notMem body (by cases form <;> decide))) rfl
  | symbol symbol =>
    cases hnode
    have hordinary := symbol.ordinary
    refine hflat (isParen_plainNode fun hmem ↦ hordinary ?_) rfl
    exact List.mem_append_left [",", ";", ".", "*"] hmem
  | number => cases hnode; exact hflat rfl rfl
  | dollarString => cases hnode; exact hflat rfl rfl
  | placeholder => cases hnode; exact hflat rfl rfl
  | blank => cases hnode; exact hflat rfl rfl
  | comma => cases hnode; exact hflat (by decide) rfl
  | semicolon => cases hnode; exact hflat (by decide) rfl
  | period => cases hnode; exact hflat (by decide) rfl

/-- Where all parentheses of the tokens are closed, so are those of their nodes. -/
theorem Reads.node_nesting? {last : Option Node} {depth : Nat} {tokens left : List Token}
    {nodes : List Node} (h : Reads last depth tokens nodes left) (hleft : left = [])
    (hnesting : Token.nesting? depth tokens = some 0) : Node.nesting? depth nodes = some 0 := by
  induction h with
  | done => exact hnesting
  | stop => cases hleft
  | skip _ ih => exact ih hleft hnesting
  | leaf hnode hnest _ ih =>
    rw [Token.nesting?_cons, hnest] at hnesting
    rw [Node.nesting?_cons, nestAfter?_of_tokenNode? hnode hnest]
    exact ih hleft hnesting
  | name _ _ _ ih =>
    rw [nesting?_afterName] at hnesting
    rw [Node.nesting?_cons, Node.nestAfter?_of_not_isParen rfl]
    exact ih hleft hnesting
  | call _ hafter hgap hinside hnode _ _ ih =>
    subst hnode
    rw [nesting?_call hafter hgap hinside] at hnesting
    rw [Node.nesting?_cons, Node.nestAfter?_of_not_isParen rfl]
    exact ih hleft hnesting
  | openCall _ hafter hgap hinside => exact absurd hnesting (nesting?_openCall hafter hgap hinside)

/-- Grouping leaves the parentheses that belong to no call as they are. -/
theorem nesting?_regroup (depth : Nat) (nodes : List Node) :
    Node.nesting? depth (regroup nodes) = Node.nesting? depth nodes := by
  have hparen {node : Node} (h : node.isParen = true) :
      IsBarrier node ∧ node.isAnyPunctuation = true := by
    rcases Bool.or_eq_true_iff.1 h with hopen | hclose
    · exact ⟨isBarrier_of_isPunctuation hopen (by decide) (by decide),
        (Bool.and_eq_true_iff.1 hopen).1⟩
    · exact ⟨isBarrier_of_isPunctuation hclose (by decide) (by decide),
        (Bool.and_eq_true_iff.1 hclose).1⟩
  rw [← Node.nesting?_filter, filter_regroup (fun node h ↦ (hparen h).1)
    (fun node h ↦ .inr (hparen h).2), Node.nesting?_filter]

/-- Tokens with as many parentheses closed as opened are grouped to such nodes. -/
theorem nesting?_statementNodes {tokens : List Token} (h : Token.nesting? 0 tokens = some 0) :
    Node.nesting? 0 (statementNodes tokens) = some 0 := by
  obtain ⟨nodes, hreads⟩ := exists_reads_of_nesting none h
  rw [hreads.statementNodes_eq, nesting?_regroup, hreads.node_nesting? rfl h]

/-- Tokens with as many parentheses closed as opened are one level, and the whole statement. -/
theorem statementNodes_of_nesting {tokens : List Token} (h : Token.nesting? 0 tokens = some 0) :
    statementNodes tokens = regroup (level none 0 tokens).1 := by
  obtain ⟨nodes, hreads⟩ := exists_reads_of_nesting none h
  rw [hreads.statementNodes_eq, hreads.level_eq]

/-- In parentheses, such tokens are read as they are alone. -/
theorem Front.within {tokens : List Token} (h : Token.nesting? 0 tokens = some 0)
    (rest : List Token) :
    Front (some (.punctuation "(")) tokens (.closeParen :: rest) (level none 0 tokens).1 := by
  obtain ⟨nodes, hreads⟩ := exists_reads_of_nesting none h
  have hinside : Reads (some (.punctuation "(")) 0 tokens nodes [] :=
    hreads.congr_last (fun _ ↦ rfl) rfl
  have hparted : Parted tokens (.closeParen :: rest) :=
    ⟨apart_cons rest rfl Token.noConfusion Token.noConfusion, fun _ ↦ rfl⟩
  rw [hreads.level_eq]
  exact .of_reads hinside h hparted

end Grouping

/-- Within parentheses, no kind of statement is looked for. -/
theorem StatementKind.firstOutside_nested {depth inner : Nat} {nodes : List Node}
    (h : Node.nesting? depth nodes = some inner) (rest : List Node) :
    firstOutside (depth + 1) (nodes ++ rest) = firstOutside (inner + 1) rest := by
  induction nodes generalizing depth with
  | nil =>
    cases h
    rfl
  | cons node nodes ih =>
    rw [Node.nesting?_cons, Option.bind_eq_some_iff] at h
    obtain ⟨next, hnext, hmore⟩ := h
    rw [List.cons_append, firstOutside]
    unfold Node.nestAfter? at hnext
    split at hnext
    · next hopen =>
      cases hnext
      rw [if_pos hopen, ih hmore]
    · next hopen =>
      rw [if_neg hopen]
      split at hnext
      · next hclose =>
        split at hnext
        · cases hnext
        · cases hnext
          rw [if_pos hclose, ← ih hmore]
          congr 1
          omega
      · next hclose =>
        cases hnext
        rw [if_neg hclose, if_neg (Nat.succ_ne_zero _)]
        exact ih hmore

end SqlFootprint
