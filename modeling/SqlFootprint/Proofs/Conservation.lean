import SqlFootprint.Proofs.CallSpans

/-!
# No token is lost

`Token.Runs tokens runs` cuts tokens into runs that leave out nothing but ends of input. The leaves
of a grouped statement stand for the runs of such a cut, one leaf for each run and in their order,
and groups show what their children show (`groupStatement_conserves`), whatever the parentheses of
the statement.
-/

namespace SqlFootprint

namespace Token

/-- The runs, none of them empty, follow each other and make up the tokens but for ends of input. -/
inductive Runs : List Token → List (List Token) → Prop
  | nil : Runs [] []
  | skip {tokens : List Token} {runs : List (List Token)} :
    Runs tokens runs → Runs (.endOfInput :: tokens) runs
  | run {run tokens : List Token} {runs : List (List Token)} :
    run ≠ [] → .endOfInput ∉ run → Runs tokens runs → Runs (run ++ tokens) (run :: runs)

private theorem Runs.flatten_eq {tokens : List Token} {runs : List (List Token)}
    (h : Runs tokens runs) :
    runs.flatten = tokens.filter (· ≠ .endOfInput) := by
  induction h with
  | nil => rfl
  | skip _ ih => simpa using ih
  | run _ hend _ ih =>
    have hkept (token : Token) (hmem : token ∈ _) : decide (token ≠ endOfInput) = true :=
      decide_eq_true fun heq ↦ hend (heq ▸ hmem)
    rw [List.flatten_cons, ih, List.filter_append, List.filter_eq_self.2 hkept]

private theorem Runs.join_shown {tokens : List Token} {runs : List (List Token)}
    (h : Runs tokens runs) :
    String.join (runs.map shown) = shown (tokens.filter (· ≠ .endOfInput)) := by
  rw [← h.flatten_eq]
  clear h
  induction runs with
  | nil => rfl
  | cons run rest ih => rw [List.map_cons, String.join_cons, ih, List.flatten_cons, shown_append]

end Token

namespace Grouping

/-- The leaves of the nodes are the runs of some cut of the tokens. -/
def Conserve (tokens : List Token) (nodes : List Node) : Prop :=
  ∃ runs, Token.Runs tokens runs ∧
    (Node.leavesOfAll nodes).map Node.text = runs.map Token.shown

private theorem LeavesOf.exists_runs {tokens : List Token} {leaves : List Node}
    (h : LeavesOf tokens leaves) :
    ∃ runs, Token.Runs tokens runs ∧ leaves.map Node.text = runs.map Token.shown := by
  induction h with
  | nil => exact ⟨[], .nil, rfl⟩
  | skip _ ih =>
    rcases ih with ⟨runs, hruns, htexts⟩
    exact ⟨runs, .skip hruns, htexts⟩
  | leaf hleaf _ ih =>
    rcases ih with ⟨runs, hruns, htexts⟩
    obtain ⟨htext, hne, hend⟩ := hleaf.text_eq
    exact ⟨_ :: runs, .run hne hend hruns, by rw [List.map_cons, List.map_cons, htext, htexts]⟩

/-- Nodes whose leaves stand for tokens conserve them. -/
theorem Yields.conserve {tokens : List Token} {nodes : List Node} (h : Yields tokens nodes) :
    Conserve tokens nodes := h.exists_runs

/-! ### Leaves and groups over them -/

private theorem formed_plainNode (token : Token) : Node.Formed (plainNode token) := by
  unfold plainNode
  split
  · exact .leaf trivial
  · split
    · exact .leaf trivial
    · exact .leaf trivial

private theorem formed_callNode {name : DottedName} {blanks : List Token} {arguments : List Node}
    {closed : Bool} (harguments : ∀ node ∈ arguments, Node.Formed node) :
    Node.Formed (callNode name blanks (regroup arguments) closed) := by
  have hclose : ∀ node ∈ if closed then [Node.punctuation ")"] else [], Node.Formed node := by
    intro node hmem
    split at hmem
    · rw [List.mem_singleton.1 hmem]
      exact .leaf trivial
    · cases hmem
  apply Node.Formed.group
  · simp only [List.length_append, List.length_cons]
    omega
  · trivial
  · simp only [List.forall_mem_append, List.forall_mem_cons, List.forall_mem_map]
    refine ⟨⟨⟨.leaf trivial, fun token _ ↦ formed_plainNode token⟩, ?_⟩, hclose⟩
    exact ⟨.leaf trivial, formed_regroup harguments⟩

/-! ### A whole level, a whole statement -/

/-- The nodes of a level stand for the tokens that were read. -/
theorem Reads.conserve {last : Option Node} {depth : Nat} {tokens left : List Token}
    {nodes : List Node} (h : Reads last depth tokens nodes left) :
    ∃ consumed, tokens = consumed ++ left ∧ Conserve consumed nodes := by
  obtain ⟨consumed, htokens, hnodes⟩ := h.covers
  exact ⟨consumed, htokens, hnodes.yields.conserve⟩

/-- The nodes of a level are leaves and groups over them. -/
theorem Reads.formed {last : Option Node} {depth : Nat} {tokens left : List Token}
    {nodes : List Node} (h : Reads last depth tokens nodes left) :
    ∀ node ∈ nodes, Node.Formed node := by
  induction h with
  | done => simp
  | stop => simp
  | skip _ ih => exact ih
  | leaf hnode _ _ ih =>
    obtain ⟨-, kind, rfl, hkind⟩ := tokenNode?_eq_leaf hnode
    exact List.forall_mem_cons.2 ⟨.leaf (Node.spans_of_isPlain hkind []), ih⟩
  | name _ _ _ ih => exact List.forall_mem_cons.2 ⟨.leaf trivial, ih⟩
  | call _ _ _ _ hnode _ ihArguments ih =>
    rw [hnode]
    exact List.forall_mem_cons.2 ⟨formed_callNode ihArguments, ih⟩
  | openCall _ _ _ _ hnode ihArguments =>
    rw [hnode, List.forall_mem_singleton]
    exact formed_callNode ihArguments

/-- The nodes of a statement are leaves and groups over them. -/
theorem formed_statementNodes (tokens : List Token) :
    ∀ node ∈ statementNodes tokens, Node.Formed node := by
  refine statementNodes_induction (motive := fun _ nodes ↦ ∀ node ∈ nodes, Node.Formed node)
    ?_ ?_ tokens
  · intro tokens nodes h
    exact formed_regroup h.formed
  · intro tokens nodes more h hmore
    rw [List.forall_mem_append, List.forall_mem_cons]
    exact ⟨formed_regroup h.formed, .leaf trivial, hmore⟩

/-- The nodes of a statement stand for all its tokens. -/
theorem conserve_statementNodes (tokens : List Token) :
    Conserve tokens (statementNodes tokens) := (yields_statementNodes tokens).conserve

/-- What nodes that stand for tokens show, the tokens show. -/
theorem Conserve.textOf_eq {tokens : List Token} {nodes : List Node} (h : Conserve tokens nodes)
    (hformed : ∀ node ∈ nodes, Node.Formed node) :
    Node.textOf nodes = Token.shown (tokens.filter (· ≠ .endOfInput)) := by
  rcases h with ⟨runs, hruns, htexts⟩
  rw [← Node.textOf_leavesOfAll hformed, Node.textOf, htexts, hruns.join_shown]

end Grouping

/-- The leaves of a grouped statement are consecutive runs of its tokens, which are all its tokens
but for ends of input; each group shows its children in a row, and the statement its tokens. -/
theorem groupStatement_conserves (tokens : List Token) :
    (∃ runs, Token.Runs tokens runs ∧
      (Node.leavesOfAll (groupStatement tokens).nodes).map Node.text = runs.map Token.shown) ∧
    (∀ place ∈ Node.preorderOfAll 0 (groupStatement tokens).nodes, place.2.children ≠ [] →
      place.2.text = Node.textOf place.2.children) ∧
    (groupStatement tokens).text = Token.shown (tokens.filter (· ≠ .endOfInput)) := by
  have hformed := Grouping.formed_statementNodes tokens
  have hconserve := Grouping.conserve_statementNodes tokens
  rw [TokenTree.text, nodes_groupStatement]
  refine ⟨hconserve, ?_, hconserve.textOf_eq hformed⟩
  intro place hmem hchildren
  exact (Node.formed_of_mem_preorderOfAll hformed 0 hmem).text_eq hchildren

end SqlFootprint
