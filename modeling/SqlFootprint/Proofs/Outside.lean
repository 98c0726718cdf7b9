import SqlFootprint.Proofs.Cuts
import SqlFootprint.Proofs.Shapes

/-!
# What stands outside parentheses

Tokens are nested by all their parentheses, nodes only by those that belong to no call, and groups
take tokens out of sight. `Marks f g` says that nodes are marked by `f` as tokens are by `g`, and
that no marked token hides in a name; `Marks.outside_statementNodes` then says that the marks of a
grouped statement outside its parentheses are those of its tokens outside theirs, whatever
parentheses are too many or missing.
-/

namespace SqlFootprint

namespace Token

/-- The tokens before which no parenthesis is open; one too many closes nothing. -/
def outside (depth : Nat) : List Token → List Token
  | [] => []
  | token :: rest =>
    let after := outside (token.depthAfter depth) rest
    if depth = 0 then token :: after else after

private theorem outside_cons_succ (depth : Nat) (token : Token) (rest : List Token) :
    outside (depth + 1) (token :: rest) = outside (token.depthAfter (depth + 1)) rest := rfl

/-- Behind the first tokens, the others stand at the depth to which these lead. -/
theorem outside_append (outer : Nat) (first second : List Token) :
    outside outer (first ++ second) =
      outside outer first ++ outside (depth outer first) second := by
  induction first generalizing outer with
  | nil => rfl
  | cons token first ih =>
    rw [List.cons_append, depth_cons, outside, outside, ih]
    split
    · rfl
    · rfl

/-- Tokens other than parentheses are all outside or all within. -/
theorem outside_flat_append {tokens : List Token} (outer : Nat)
    (h : ∀ token ∈ tokens, token ≠ .openParen ∧ token ≠ .closeParen) (rest : List Token) :
    outside outer (tokens ++ rest) = (if outer = 0 then tokens else []) ++ outside outer rest := by
  induction tokens with
  | nil => rw [ite_self, List.nil_append, List.nil_append]
  | cons token tokens ih =>
    rw [List.forall_mem_cons] at h
    have hflat : token.depthAfter outer = outer :=
      depth_eq_self (List.forall_mem_singleton.2 h.1)
    rw [List.cons_append, outside, hflat, ih h.2]
    split
    · rfl
    · rfl

end Token

namespace Node

/-- How deep in parentheses the next node stands; one too many closes nothing. -/
def depthAfter (depth : Nat) (node : Node) : Nat :=
  if node.isPunctuation "(" then depth + 1
  else if node.isPunctuation ")" then depth - 1
  else depth

/-- How deep in parentheses nodes end. -/
def depth (outer : Nat) (nodes : List Node) : Nat := nodes.foldl depthAfter outer

/-- The nodes before which no parenthesis is open that belongs to no call. -/
def outside (depth : Nat) : List Node → List Node
  | [] => []
  | node :: rest =>
    let after := outside (node.depthAfter depth) rest
    if depth = 0 then node :: after else after

/-- The first node leads to the depth at which the others start. -/
theorem depth_cons (outer : Nat) (node : Node) (rest : List Node) :
    depth outer (node :: rest) = depth (node.depthAfter outer) rest := rfl

/-- Behind the first nodes, the others stand at the depth to which these lead. -/
theorem outside_append (outer : Nat) (first second : List Node) :
    outside outer (first ++ second) =
      outside outer first ++ outside (depth outer first) second := by
  induction first generalizing outer with
  | nil => rfl
  | cons node first ih =>
    rw [List.cons_append, depth_cons, outside, outside, ih]
    split
    · rfl
    · rfl

/-- Where a node closes nothing too much, the two ways to count agree. -/
theorem depthAfter_of_nestAfter? {outer inner : Nat} {node : Node}
    (h : node.nestAfter? outer = some inner) : node.depthAfter outer = inner := by
  unfold nestAfter? at h
  unfold depthAfter
  split at h
  · next hopen =>
    cases h
    rw [if_pos hopen]
  · next hopen =>
    rw [if_neg hopen]
    split at h
    · next hclose =>
      split at h
      · cases h
      · cases h
        rw [if_pos hclose]
    · next hclose =>
      cases h
      rw [if_neg hclose]

private theorem depth_of_nesting? {nodes : List Node} {outer inner : Nat}
    (h : nesting? outer nodes = some inner) : depth outer nodes = inner := by
  induction nodes generalizing outer with
  | nil =>
    cases h
    rfl
  | cons node rest ih =>
    rw [nesting?_cons, Option.bind_eq_some_iff] at h
    obtain ⟨next, hnext, hrest⟩ := h
    rw [depth_cons, depthAfter_of_nestAfter? hnext, ih hrest]

/-- Other nodes than parentheses leave the depth as it is. -/
theorem depthAfter_of_not_isParen {node : Node} (h : node.isParen = false) (depth : Nat) :
    node.depthAfter depth = depth :=
  depthAfter_of_nestAfter? (nestAfter?_of_not_isParen h depth)

private theorem filterMap_outside_filter {α : Type} (f : Node → Option α) (depth : Nat)
    (nodes : List Node) :
    (outside depth (nodes.filter fun node ↦ node.isParen || (f node).isSome)).filterMap f =
      (outside depth nodes).filterMap f := by
  induction nodes generalizing depth with
  | nil => rfl
  | cons node rest ih =>
    rw [List.filter_cons]
    split
    · rw [outside, outside]
      split
      · rw [List.filterMap_cons, List.filterMap_cons, ih]
      · exact ih _
    · next hother =>
      obtain ⟨hparen, hmark⟩ : node.isParen = false ∧ f node = none := by simpa using hother
      rw [ih, outside, depthAfter_of_not_isParen hparen]
      split
      · rw [List.filterMap_cons_none hmark]
      · rfl

end Node

namespace Grouping

private theorem isBlank_of_tokenNode? {last : Option Node} {rest : List Token} {token : Token}
    {node : Node}
    (h : tokenNode? last rest token = some node) (hblank : token.isBlank = false) :
    node.isBlank = false := by
  have hplain (token : Token) (hblank : token.isBlank = false) :
      (plainNode token).isBlank = false := by
    unfold plainNode
    rw [if_neg (by simp [hblank])]
    split
    · rfl
    · rfl
  cases token with
  | endOfInput => cases h
  | word word =>
    simp only [tokenNode?] at h
    split at h
    · cases h
      rfl
    · cases h
      rfl
    · cases h
  | star =>
    cases h
    unfold starNode
    split
    · rfl
    · rfl
  | _ =>
    cases h
    exact hplain _ hblank

/-! ### Marks -/

/-- Nodes are marked as the tokens of which they are made, and only keywords and marks that bar
every group are. No token of a name is marked, unless one follows a period. -/
structure Marks {α : Type} (f : Node → Option α) (g : Token → Option α) : Prop where
  leaf : ∀ {last rest token node}, tokenNode? last rest token = some node → f node = g token
  barrier : ∀ node, (f node).isSome = true →
    IsBarrier node ∧ (node.isAnyKeyword = true ∨ node.isAnyPunctuation = true)
  name : ∀ {word rest}, wordRole word rest = .name → g (.word word) = none
  silent : ∀ token ∈ [Token.openParen, .closeParen, .period, .endOfInput], g token = none

/-- No marked word stands right behind a period. -/
def ClearOfPeriods {α : Type} (g : Token → Option α) (tokens : List Token) : Prop :=
  ∀ before word after, tokens = before ++ .period :: .word word :: after → g (.word word) = none

/-- What is so of tokens is so of those that follow some of them. -/
theorem ClearOfPeriods.of_suffix {α : Type} {g : Token → Option α} {tokens rest : List Token}
    (h : ClearOfPeriods g tokens) (hsuffix : rest <:+ tokens) : ClearOfPeriods g rest := by
  obtain ⟨front, rfl⟩ := hsuffix
  intro before word after heq
  apply h (front ++ before) word after
  rw [heq, List.append_assoc]

namespace Marks

variable {α : Type} {f : Node → Option α} {g : Token → Option α}

/-- Nodes that are neither keywords nor marks are not marked. -/
theorem eq_none (h : Marks f g) {node : Node} (hkeyword : node.isAnyKeyword = false)
    (hmark : node.isAnyPunctuation = false) : f node = none := by
  cases hnode : f node with
  | none => rfl
  | some a =>
    obtain ⟨-, hkind⟩ := h.barrier node (by rw [hnode]; rfl)
    rw [hkeyword, hmark] at hkind
    exact absurd hkind (by decide)

/-- Stars and blanks are not marked. -/
theorem star_blank (h : Marks f g) {token : Token} (htoken : token = .star ∨ token.isBlank = true) :
    g token = none := by
  rcases htoken with rfl | hblank
  · have hleaf : tokenNode? none [] .star = some (starNode none) := rfl
    rw [← h.leaf hleaf]
    exact h.eq_none rfl rfl
  · cases token with
    | blank blank =>
      have hleaf : tokenNode? none [] (.blank blank) = some (plainNode (.blank blank)) := rfl
      rw [← h.leaf hleaf]
      exact h.eq_none rfl rfl
    | _ => cases hblank

private theorem of_mem_take (h : Marks f g) {rest : List Token} (hclear : ClearOfPeriods g rest)
    {token : Token} (hmem : token ∈ rest.take (2 * (furtherParts rest).length)) :
    g token = none := by
  have hperiod : g .period = none := h.silent _ (by simp)
  have hstarToken : g .star = none := h.star_blank (.inl rfl)
  induction rest using furtherParts.induct with
  | case1 word rest hstar =>
    simp only [furtherParts, hstar, ↓reduceIte, List.length_singleton, Nat.mul_one,
      List.take_succ_cons, List.take_zero, List.mem_cons, List.not_mem_nil, or_false] at hmem
    rcases hmem with rfl | rfl
    · exact hperiod
    · exact hclear [] _ rest rfl
  | case2 word rest hstar ih =>
    simp only [furtherParts, hstar, ↓reduceIte, List.length_cons, Nat.mul_succ,
      List.take_succ_cons, List.mem_cons] at hmem
    rcases hmem with rfl | rfl | hmem
    · exact hperiod
    · exact hclear [] _ rest rfl
    · exact ih (hclear.of_suffix ⟨[.period, .word word], rfl⟩) hmem
  | case3 rest =>
    simp only [furtherParts, List.length_singleton, Nat.mul_one, List.take_succ_cons,
      List.take_zero, List.mem_cons, List.not_mem_nil, or_false] at hmem
    rcases hmem with rfl | rfl
    · exact hperiod
    · exact hstarToken
  | case4 tokens hword hstar =>
    rw [furtherParts.eq_3 tokens hword hstar] at hmem
    cases hmem

/-- A name has no marks outside parentheses. -/
theorem outside_afterName (h : Marks f g) {word : Word} {rest : List Token}
    (hrole : wordRole word rest = .name) (hclear : ClearOfPeriods g rest) (depth : Nat) :
    (Token.outside depth (.word word :: rest)).filterMap g =
      (Token.outside depth (afterName word rest)).filterMap g := by
  have hflat : ∀ token ∈ Token.word word :: rest.take (DottedName.read word rest).furtherTokens,
      token ≠ .openParen ∧ token ≠ .closeParen :=
    List.forall_mem_cons.2 ⟨⟨Token.noConfusion, Token.noConfusion⟩, ne_paren_of_mem_take⟩
  have hsilent : ∀ token ∈ Token.word word :: rest.take (DottedName.read word rest).furtherTokens,
      g token = none :=
    List.forall_mem_cons.2 ⟨h.name hrole, fun _ ↦ h.of_mem_take hclear⟩
  have hsplit : Token.word word :: rest =
      (Token.word word :: rest.take (DottedName.read word rest).furtherTokens) ++
        afterName word rest := by
    rw [List.cons_append, take_append_afterName]
  conv => lhs; rw [hsplit]
  rw [Token.outside_flat_append depth hflat, List.filterMap_append]
  split
  · rw [List.filterMap_eq_nil_iff.2 hsilent, List.nil_append]
  · rfl

end Marks

/-! ### Levels -/

private theorem Reads.outside_within {last : Option Node} {depth : Nat} {tokens left : List Token}
    {nodes : List Node} (h : Reads last depth tokens nodes left) (outer : Nat) :
    Token.outside (depth + outer + 1) tokens = Token.outside (outer + 1) left := by
  have hname (outer : Nat) (word : Word) (rest : List Token) :
      Token.outside (outer + 1) (.word word :: rest) =
        Token.outside (outer + 1) (afterName word rest) := by
    have hflat := @ne_paren_of_mem_take word rest
    conv => lhs; rw [Token.outside_cons_succ, ← take_append_afterName word rest]
    exact Token.outside_flat_append (outer + 1) hflat _
  have hblanks {blanks : List Token} (hblank : ∀ blank ∈ blanks, blank.isBlank = true) (outer : Nat)
      (inside : List Token) : Token.outside (outer + 1) (blanks ++ .openParen :: inside) =
        Token.outside (outer + 1 + 1) inside :=
    Token.outside_flat_append (outer + 1) (ne_paren_of_isBlank hblank) (.openParen :: inside)
  induction h generalizing outer with
  | done => rfl
  | stop => rw [Nat.zero_add]
  | skip _ ih => exact ih outer
  | leaf _ hnest _ ih =>
    rw [Token.outside_cons_succ, Nat.add_assoc,
      Token.depthAfter_of_nestAfter? (Token.nestAfter?_add hnest (outer + 1))]
    exact ih outer
  | name _ _ _ ih =>
    rw [hname]
    exact ih outer
  | @call _ depth _ _ _ inside _ _ _ _ _ _ hafter hgap _ _ _ ihArguments ih =>
    have hinside := ihArguments (depth + outer + 1)
    rw [Nat.zero_add] at hinside
    rw [hname, hafter, hblanks (isBlank_of_callGap? hgap), hinside]
    exact ih outer
  | @openCall _ depth _ _ _ inside _ _ _ hafter hgap _ _ ihArguments =>
    have hinside := ihArguments (depth + outer + 1)
    rw [Nat.zero_add] at hinside
    rw [hname, hafter, hblanks (isBlank_of_callGap? hgap), hinside]
    rfl

namespace Marks

variable {α : Type} {f : Node → Option α} {g : Token → Option α}

private theorem outside_call (h : Marks f g) {last : Option Node} {word : Word}
    {rest blanks inside left : List Token} {arguments : List Node}
    (hrole : wordRole word rest = .name) (hclear : ClearOfPeriods g rest)
    (hafter : afterName word rest = blanks ++ .openParen :: inside)
    (hgap : callGap? last (.read word rest) (blanks ++ .openParen :: inside) = some blanks.length)
    (hinside : Reads none 0 inside arguments left) (depth : Nat) :
    (Token.outside depth (.word word :: rest)).filterMap g =
      (Token.outside (depth + 1) left).filterMap g := by
  have hblank := isBlank_of_callGap? hgap
  have hsilent : (if depth = 0 then blanks else []).filterMap g = [] := by
    rw [List.filterMap_eq_nil_iff]
    intro token hmem
    split at hmem
    · exact h.star_blank (.inr (hblank token hmem))
    · cases hmem
  have hopen : (Token.outside depth (.openParen :: inside)).filterMap g =
      (Token.outside (depth + 1) inside).filterMap g := by
    rw [Token.outside]
    split
    · exact List.filterMap_cons_none (h.silent _ (by simp))
    · rfl
  have hwithin := hinside.outside_within depth
  rw [Nat.zero_add] at hwithin
  rw [h.outside_afterName hrole hclear, hafter,
    Token.outside_flat_append depth (ne_paren_of_isBlank hblank), List.filterMap_append, hsilent,
    List.nil_append, hopen, hwithin]

private theorem outside_reads (h : Marks f g) {last : Option Node} {depth : Nat}
    {tokens left : List Token} {nodes : List Node} (hreads : Reads last depth tokens nodes left)
    (hclear : ClearOfPeriods g tokens) :
    (Node.outside depth nodes).filterMap f ++ (Token.outside 0 left).filterMap g =
      (Token.outside depth tokens).filterMap g := by
  -- A node without marks that is no parenthesis, and what follows it.
  have hpass {node : Node} (hkeyword : node.isAnyKeyword = false)
      (hmark : node.isAnyPunctuation = false) (depth : Nat) (rest : List Node) :
      (Node.outside depth (node :: rest)).filterMap f = (Node.outside depth rest).filterMap f := by
    have hparen : node.isParen = false := by
      simp [Node.isParen, Node.isPunctuation, hmark]
    rw [Node.outside, Node.depthAfter_of_not_isParen hparen]
    split
    · rw [List.filterMap_cons_none (h.eq_none hkeyword hmark)]
    · rfl
  induction hreads with
  | done => rfl
  | stop => rfl
  | skip _ ih =>
    rw [ih (hclear.of_suffix (List.suffix_cons _ _)), Token.outside]
    split
    · exact (List.filterMap_cons_none (h.silent _ (by simp))).symm
    · rfl
  | leaf hnode hnest _ ih =>
    have hrest := ih (hclear.of_suffix (List.suffix_cons _ _))
    rw [Node.outside, Token.outside, Token.depthAfter_of_nestAfter? hnest,
      Node.depthAfter_of_nestAfter? (nestAfter?_of_tokenNode? hnode hnest)]
    split
    · rw [List.filterMap_cons, List.filterMap_cons, h.leaf hnode]
      cases g _ with
      | none => exact hrest
      | some a => exact congrArg (a :: ·) hrest
    · exact hrest
  | @name _ _ word rest _ _ hrole _ _ ih =>
    have hrest : ClearOfPeriods g rest := hclear.of_suffix (List.suffix_cons _ _)
    rw [hpass rfl rfl, ih (hrest.of_suffix (afterName_suffix word rest)),
      h.outside_afterName hrole hrest]
  | call hrole hafter hgap hinside hnode _ _ ih =>
    subst hnode
    rw [hpass rfl rfl, ih (hclear.of_suffix (hinside.suffix_call hafter)),
      h.outside_call hrole (hclear.of_suffix (List.suffix_cons _ _)) hafter hgap hinside]
    rfl
  | openCall hrole hafter hgap hinside hnode =>
    subst hnode
    rw [hpass rfl rfl,
      h.outside_call hrole (hclear.of_suffix (List.suffix_cons _ _)) hafter hgap hinside]
    rfl

/-! ### Statements -/

private theorem outside_regroup (h : Marks f g) (depth : Nat) (nodes : List Node) :
    (Node.outside depth (regroup nodes)).filterMap f = (Node.outside depth nodes).filterMap f := by
  have hparen {node : Node} (hnode : node.isParen = true) :
      IsBarrier node ∧ (node.isAnyKeyword = true ∨ node.isAnyPunctuation = true) := by
    rcases Bool.or_eq_true_iff.1 hnode with hopen | hclose
    · exact ⟨isBarrier_of_isPunctuation hopen (by decide) (by decide),
        .inr (Bool.and_eq_true_iff.1 hopen).1⟩
    · exact ⟨isBarrier_of_isPunctuation hclose (by decide) (by decide),
        .inr (Bool.and_eq_true_iff.1 hclose).1⟩
  have hnode (node : Node) (hmark : (node.isParen || (f node).isSome) = true) :
      IsBarrier node ∧ (node.isAnyKeyword = true ∨ node.isAnyPunctuation = true) := by
    rcases Bool.or_eq_true_iff.1 hmark with hnode | hnode
    · exact hparen hnode
    · exact h.barrier node hnode
  rw [← Node.filterMap_outside_filter, filter_regroup (fun node hmark ↦ (hnode node hmark).1)
    (fun node hmark ↦ (hnode node hmark).2), Node.filterMap_outside_filter]

/-- A statement has the marks of its tokens outside its parentheses. -/
theorem outside_statementNodes (h : Marks f g) {tokens : List Token}
    (hclear : ClearOfPeriods g tokens) :
    (Node.outside 0 (statementNodes tokens)).filterMap f =
      (Token.outside 0 tokens).filterMap g := by
  revert hclear
  refine statementNodes_induction (motive := fun tokens nodes ↦ ClearOfPeriods g tokens →
    (Node.outside 0 nodes).filterMap f = (Token.outside 0 tokens).filterMap g) ?_ ?_ tokens
  · intro tokens nodes hreads hclear
    have hlevel := h.outside_reads hreads hclear
    rw [h.outside_regroup, ← hlevel]
    exact (List.append_nil _).symm
  · intro tokens nodes more hreads ih hclear
    have hlevel := h.outside_reads hreads hclear
    obtain ⟨inner, hnesting, hinner⟩ := hreads.exists_node_nesting?
    rw [hinner (List.cons_ne_nil _ _)] at hnesting
    have hdepth : Node.depth 0 (regroup nodes) = 0 := by
      apply Node.depth_of_nesting?
      rw [nesting?_regroup, hnesting]
    have hmark : tokenNode? none more .closeParen = some (.punctuation ")") := rfl
    have hstray : f (.punctuation ")") = none := (h.leaf hmark).trans (h.silent _ (by simp))
    have hsuffix : more <:+ tokens := (List.suffix_cons _ _).trans hreads.suffix
    have hafter : Token.outside 0 (.closeParen :: more) = .closeParen :: Token.outside 0 more := rfl
    have hafterNode : Node.outside 0 (.punctuation ")" :: statementNodes more) =
        .punctuation ")" :: Node.outside 0 (statementNodes more) := rfl
    rw [Node.outside_append, hdepth, List.filterMap_append, h.outside_regroup, hafterNode,
      List.filterMap_cons_none hstray, ih (hclear.of_suffix hsuffix), ← hlevel, hafter,
      List.filterMap_cons_none (h.silent _ (by simp))]

/-! ### The first node -/

private theorem exists_head_regroup (h : Marks f g) {node : Node} (hblank : node.isBlank = false)
    (rest : List Node) :
    ∃ first after, regroup (node :: rest) = first :: after ∧ first.isBlank = false ∧
      f first = f node := by
  -- No pass folds from a marked node on, and a group that begins elsewhere has no mark.
  have hpass {step : Step} {pass : List Node → List Node} (hfolds : Folds step pass)
      (hbars : ∀ node, (f node).isSome = true → Bars step node)
      (hgroup : ∀ {node rest kind count}, step node rest = some (kind, count) → ∀ children,
        (Node.group kind children).isBlank = false ∧
          (Node.group kind children).isAnyKeyword = false ∧
          (Node.group kind children).isAnyPunctuation = false)
      {node : Node} (hblank : node.isBlank = false) (rest : List Node) :
      ∃ first after, pass (node :: rest) = first :: after ∧ first.isBlank = false ∧
        f first = f node := by
    cases hstep : step node rest with
    | none => exact ⟨node, pass rest, hfolds.keep hstep, hblank, rfl⟩
    | some found =>
      obtain ⟨hsolid, hkeyword, hmark⟩ := hgroup hstep (node :: rest.take found.2)
      refine ⟨_, _, hfolds.fold hstep, hsolid, ?_⟩
      rw [h.eq_none hkeyword hmark]
      cases hnode : f node with
      | none => rfl
      | some a =>
        rw [(hbars node (by rw [hnode]; rfl)).keeps rest] at hstep
        cases hstep
  obtain ⟨first, after, haliases, hsolid, hfirst⟩ :=
    hpass folds_groupAliases (fun node hmark ↦ (h.barrier node hmark).1.aliases)
      (fun hstep children ↦ by
        have hoperand := isOperand_of_aliasStep hstep children
        refine ⟨?_, of_isOperand hoperand⟩
        unfold isOperand at hoperand
        unfold Node.isBlank
        split at hoperand
        all_goals simp_all) hblank rest
  obtain ⟨second, after', hcomparisons, hsolid', hsecond⟩ :=
    hpass folds_groupComparisons (fun node hmark ↦ (h.barrier node hmark).1.comparisons)
      (fun hstep children ↦ by
        obtain ⟨_, _, -, -, rfl⟩ := comparisonStep_eq_some hstep
        exact ⟨rfl, rfl, rfl⟩) hsolid after
  obtain ⟨third, after'', hlists, hsolid'', hthird⟩ :=
    hpass folds_groupLists (fun node hmark ↦ (h.barrier node hmark).1.lists)
      (fun hstep children ↦ by
        obtain ⟨-, -, rfl, -⟩ := listStep_eq_some hstep
        exact ⟨rfl, rfl, rfl⟩) hsolid' after'
  refine ⟨third, after'', ?_, hsolid'', hthird.trans (hsecond.trans hfirst)⟩
  rw [regroup, haliases, hcomparisons, hlists]

/-- The first node of a statement is marked as its first token is. -/
theorem exists_head (h : Marks f g) {token : Token} (hblank : token.isBlank = false)
    (hend : token ≠ .endOfInput) (rest : List Token) :
    ∃ first after, statementNodes (token :: rest) = first :: after ∧ first.isBlank = false ∧
      f first = g token := by
  -- A level that has a first node puts it first in the statement.
  have hlevel {node : Node} {nodes : List Node} {left : List Token}
      (hreads : Reads none 0 (token :: rest) (node :: nodes) left)
      (hsolid : node.isBlank = false) (hmark : f node = g token) :
      ∃ first after, statementNodes (token :: rest) = first :: after ∧ first.isBlank = false ∧
        f first = g token := by
    obtain ⟨first, after, hregroup, hfirst, hsame⟩ := h.exists_head_regroup hsolid nodes
    rcases hreads.left_eq with rfl | ⟨more, rfl⟩
    · rw [hreads.statementNodes_eq, hregroup]
      exact ⟨first, after, rfl, hfirst, hsame.trans hmark⟩
    · rw [hreads.statementNodes_eq_append, hregroup]
      exact ⟨first, _, rfl, hfirst, hsame.trans hmark⟩
  obtain ⟨nodes, left, hreads⟩ := exists_reads none 0 (token :: rest)
  have hwhole := hreads
  cases hreads with
  | stop =>
    rw [hwhole.statementNodes_eq_append, regroup_nil]
    exact ⟨_, _, rfl, rfl, @Marks.leaf _ _ _ h none rest _ _ rfl⟩
  | skip => exact absurd rfl hend
  | leaf hnode => exact hlevel hwhole (isBlank_of_tokenNode? hnode hblank) (h.leaf hnode)
  | name hrole =>
    exact hlevel hwhole rfl ((h.eq_none rfl rfl).trans (h.name hrole).symm)
  | call hrole _ _ _ hnode =>
    subst hnode
    exact hlevel hwhole rfl ((h.eq_none rfl rfl).trans (h.name hrole).symm)
  | openCall hrole _ _ _ hnode =>
    subst hnode
    exact hlevel hwhole rfl ((h.eq_none rfl rfl).trans (h.name hrole).symm)

end Marks

end Grouping

end SqlFootprint
