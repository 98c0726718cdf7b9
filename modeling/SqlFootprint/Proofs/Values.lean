import SqlFootprint.Proofs.Targets

/-!
# Values of assignments

The tokens of a value make quiet nodes (`Reads.isQuiet`): nodes that assign nothing, are compared
with nothing and end no assignment. Folding aliases leaves them quiet, and a search for targets
passes over them (`looseTargets_quiet`). Of comparisons among them, it finds the columns on the left
(`looseTargets_settled`).
-/

namespace SqlFootprint

/-- The token can stand in a value: it is no parenthesis, no comma, no operator that compares and
not `WHERE`. -/
def Token.isAssignable : Token → Bool
  | openParen | closeParen | comma => false
  | symbol s => !Grouping.comparisonOperators.contains s.text
  | word w => w.quote.isSome || !Text.sameWord w.value "WHERE"
  | _ => true

namespace Grouping

/-- The node neither assigns nor ends an assignment: it is no comparison and no list, no comma, no
operator that compares and not `WHERE`. -/
def isQuiet (node : Node) : Bool :=
  match node.kind with
  | .comparison _ _ _ | .identifierList => false
  | .punctuation => !("," :: comparisonOperators).contains node.text
  | .keyword => !Text.sameWord node.text "WHERE"
  | _ => true

/-- No operator that compares is quiet, and no comma. -/
theorem isPunctuation_of_isQuiet {node : Node} (h : isQuiet node = true) :
    isComparisonOperator node = false ∧ node.isPunctuation "," = false := by
  cases node with
  | mk kind text children =>
    cases kind with
    | punctuation =>
      have htext : ¬text = "," ∧ text ∉ comparisonOperators := by
        simpa [isQuiet, Node.kind, Node.text] using h
      constructor
      · simpa [isComparisonOperator, Node.isAnyPunctuation, Node.kind, Node.text] using htext.2
      · simpa [Node.isPunctuation, Node.isAnyPunctuation, Node.kind, Node.text] using htext.1
    | _ => exact ⟨rfl, rfl⟩

/-- The keyword `WHERE` is not quiet. -/
theorem isKeyword_of_isQuiet {node : Node} (h : isQuiet node = true) :
    node.isKeyword "WHERE" = false := by
  cases node with
  | mk kind text children =>
    cases kind with
    | keyword =>
      have htext : Text.sameWord text "WHERE" = false := by
        simpa [isQuiet, Node.kind, Node.text] using h
      rw [Node.isKeyword, Node.text, htext, Bool.and_false]
    | _ => rfl

private theorem targetsOf_of_isQuiet {node : Node} (h : isQuiet node = true) (last : Option Node)
    {rest : List Node} (hequals : Node.meets Columns.isEquals rest = false) :
    Columns.targetsOf last rest node = [] := by
  cases node with
  | mk kind text children =>
    cases kind with
    | identifier identifier => exact Columns.targetsOf_name rfl last hequals
    | comparison => cases h
    | identifierList => cases h
    | _ => simp only [Columns.targetsOf]

/-- An operand is quiet. -/
theorem isQuiet_of_isOperand {node : Node} (h : isOperand node = true) : isQuiet node = true := by
  cases node with
  | mk kind text children =>
    cases kind with
    | identifier => rfl
    | function => rfl
    | literal => rfl
    | _ => cases h

private theorem isQuiet_plainNode {token : Token} (h : token.render ∉ "," :: comparisonOperators) :
    isQuiet (plainNode token) = true := by
  unfold plainNode
  split
  · rfl
  · split
    · rfl
    · simpa [isQuiet, Node.punctuation] using h

private theorem isQuiet_of_tokenNode? {last : Option Node} {rest : List Token} {token : Token}
    {node : Node}
    (h : tokenNode? last rest token = some node) (htoken : token.isAssignable = true) :
    isQuiet node = true := by
  cases token with
  | word word =>
    simp only [tokenNode?] at h
    split at h
    · cases h
      rfl
    · next hrole =>
      cases h
      have hquote := quote_eq_none_of_wordRole fun hname ↦
        WordRole.noConfusion (hrole.symm.trans hname)
      rw [Token.isAssignable, hquote, Option.isSome_none, Bool.false_or] at htoken
      exact htoken
    · cases h
  | star =>
    cases h
    unfold starNode
    split
    · decide
    · rfl
  | string form body =>
    cases h
    exact isQuiet_plainNode (Token.render_string_notMem body (by cases form <;> decide))
  | symbol symbol =>
    cases h
    have hcomma : symbol.text ≠ "," := by
      intro heq
      have hordinary := symbol.ordinary
      rw [heq] at hordinary
      exact hordinary (by decide)
    have hoperator : symbol.text ∉ comparisonOperators := by
      simpa [Token.isAssignable] using htoken
    exact isQuiet_plainNode (List.not_mem_cons_of_ne_of_not_mem hcomma hoperator)
  | openParen => cases htoken
  | closeParen => cases htoken
  | comma => cases htoken
  | endOfInput => cases h
  | semicolon =>
    cases h
    decide
  | period =>
    cases h
    decide
  | _ =>
    cases h
    rfl

/-- The nodes of a value are quiet. -/
theorem Reads.isQuiet {last : Option Node} {depth : Nat} {tokens left : List Token}
    {nodes : List Node} (h : Reads last depth tokens nodes left)
    (htokens : ∀ token ∈ tokens, token.isAssignable = true) :
    ∀ node ∈ nodes, isQuiet node = true := by
  have hflat {word : Word} {rest blanks inside : List Token}
      (htokens : ∀ token ∈ Token.word word :: rest, token.isAssignable = true)
      (hafter : afterName word rest = blanks ++ .openParen :: inside) : False := by
    have hmem : Token.openParen ∈ afterName word rest := by simp [hafter]
    have hparen := htokens _ (List.mem_cons_of_mem _ ((afterName_suffix word rest).mem hmem))
    cases hparen
  induction h with
  | done => nofun
  | stop => nofun
  | skip _ ih => exact ih fun token hmem ↦ htokens token (List.mem_cons_of_mem _ hmem)
  | leaf hnode _ _ ih =>
    rw [List.forall_mem_cons] at htokens ⊢
    exact ⟨isQuiet_of_tokenNode? hnode htokens.1, ih htokens.2⟩
  | name _ _ _ ih =>
    rw [List.forall_mem_cons] at htokens ⊢
    exact ⟨rfl, ih fun token hmem ↦ htokens.2 token ((afterName_suffix _ _).mem hmem)⟩
  | call _ hafter => exact (hflat htokens hafter).elim
  | openCall _ hafter => exact (hflat htokens hafter).elim

/-- Folding aliases leaves quiet nodes quiet. -/
theorem isQuiet_groupAliases {nodes : List Node} (h : ∀ node ∈ nodes, isQuiet node = true) :
    ∀ node ∈ groupAliases nodes, isQuiet node = true := by
  refine folds_groupAliases.forall_mem ?_ h
  intro node rest kind count hstep children
  exact isQuiet_of_isOperand (isOperand_of_aliasStep hstep children)

/-! ### Comparisons among quiet nodes -/

/-- The column that a node compares, if it is a comparison of one. -/
def comparedNames (node : Node) : List String :=
  match node.kind with
  | .comparison left _ _ => left.identifier?.toList.map Identifier.name
  | _ => []

/-- The node is a comparison. -/
def isComparison (node : Node) : Bool :=
  match node.kind with
  | .comparison _ _ _ => true
  | _ => false

/-- The node is a comparison, or it is quiet. -/
def isSettled (node : Node) : Bool := isComparison node || isQuiet node

/-- A quiet node compares nothing. -/
theorem of_isQuiet {node : Node} (h : isQuiet node = true) :
    isSettled node = true ∧ comparedNames node = [] := by
  constructor
  · rw [isSettled, h, Bool.or_true]
  · cases node with
    | mk kind text children =>
      cases kind with
      | comparison => cases h
      | _ => rfl

private theorem isEquals_of_isQuiet {node : Node} (h : isQuiet node = true) :
    Columns.isEquals node = false := by
  have hoperator := (isPunctuation_of_isQuiet h).1
  rw [Columns.isEquals, Node.isPunctuation]
  by_cases hequals : node.text = "="
  · rw [isComparisonOperator, hequals] at hoperator
    have hmark : node.isAnyPunctuation = false := by simpa [comparisonOperators] using hoperator
    rw [hmark, Bool.false_and]
  · rw [beq_eq_false_iff_ne.2 hequals, Bool.and_false]

/-- What a comparison and a quiet node are not. -/
theorem of_isSettled {node : Node} (h : isSettled node = true) :
    Columns.isEquals node = false ∧ node.isPunctuation "," = false ∧
      node.isKeyword "WHERE" = false := by
  rcases Bool.or_eq_true_iff.1 h with hcomparison | hquiet
  · cases node with
    | mk kind text children =>
      cases kind with
      | comparison => exact ⟨rfl, rfl, rfl⟩
      | _ => cases hcomparison
  · exact ⟨isEquals_of_isQuiet hquiet, (isPunctuation_of_isQuiet hquiet).2,
      isKeyword_of_isQuiet hquiet⟩

private theorem targetsOf_of_isSettled {node : Node} (h : isSettled node = true)
    (last : Option Node)
    {rest : List Node} (hequals : Node.meets Columns.isEquals rest = false) :
    Columns.targetsOf last rest node = comparedNames node := by
  rcases Bool.or_eq_true_iff.1 h with hcomparison | hquiet
  · cases node with
    | mk kind text children =>
      cases kind with
      | comparison left operator right => rw [Columns.targetsOf, comparedNames, Node.kind]
      | _ => cases hcomparison
  · rw [targetsOf_of_isQuiet hquiet last hequals, (of_isQuiet hquiet).2]

private theorem meets_isEquals_append {nodes : List Node}
    (h : ∀ node ∈ nodes, isSettled node = true)
    {rest : List Node} (hrest : Node.meets Columns.isEquals rest = false) :
    Node.meets Columns.isEquals (nodes ++ rest) = false := by
  induction nodes with
  | nil => exact hrest
  | cons node nodes ih =>
    rw [List.forall_mem_cons] at h
    cases hblank : node.isBlank with
    | true => rw [List.cons_append, Node.meets_blank hblank, ih h.2]
    | false => rw [List.cons_append, Node.meets_cons hblank, (of_isSettled h.1).1]

/-- Of comparisons and quiet nodes, the columns that are compared are found. -/
theorem looseTargets_settled {nodes : List Node} (h : ∀ node ∈ nodes, isSettled node = true)
    (last : Option Node) {rest : List Node} (hrest : Node.meets Columns.isEquals rest = false) :
    Columns.looseTargets last false (nodes ++ rest) =
      nodes.flatMap comparedNames ++ Columns.looseTargets (lastOf last nodes) false rest := by
  induction nodes generalizing last with
  | nil => rfl
  | cons node nodes ih =>
    rw [List.forall_mem_cons] at h
    have hnode : Columns.targetsOf last (nodes ++ rest) node = comparedNames node :=
      targetsOf_of_isSettled h.1 last (meets_isEquals_append h.2 hrest)
    have hjoins : Columns.joins last false node = false := by
      rw [Columns.joins, (of_isSettled h.1).2.1, Bool.false_and, ite_self]
    rw [List.cons_append, Columns.looseTargets, hnode, hjoins, ih h.2, List.flatMap_cons,
      List.append_assoc]
    rfl

/-- Quiet nodes are no targets. -/
theorem looseTargets_quiet {nodes : List Node} (h : ∀ node ∈ nodes, isQuiet node = true)
    (last : Option Node) {rest : List Node} (hrest : Node.meets Columns.isEquals rest = false) :
    Columns.looseTargets last false (nodes ++ rest) =
      Columns.looseTargets (lastOf last nodes) false rest := by
  have hnone : nodes.flatMap comparedNames = [] :=
    List.flatMap_eq_nil_iff.2 fun node hmem ↦ (of_isQuiet (h node hmem)).2
  rw [looseTargets_settled (fun node hmem ↦ (of_isQuiet (h node hmem)).1) last hrest, hnone,
    List.nil_append]

/-- What comes last of nodes depends little on what stands before them. -/
theorem any_lastOf_congr {p : Node → Bool} {last last' : Option Node}
    (h : last.any p = last'.any p) (nodes : List Node) :
    (lastOf last nodes).any p = (lastOf last' nodes).any p := by
  induction nodes generalizing last last' with
  | nil => exact h
  | cons node nodes ih =>
    apply ih
    unfold Node.lastSignificant
    split
    · exact h
    · rfl

end Grouping

end SqlFootprint
