import SqlFootprint.Grouping
import SqlFootprint.Proofs.Reads
import SqlFootprint.Proofs.Stored

/-!
# A statement stored while it is read

The table of a statement is built while the statement is read, and what is read of a level is what
the rules of `Reads` give. `exists_built_groupStatement` says that the table comes about by leaves
and by groups over nodes that are in no group yet, until the nodes of the statement are left, so
the stored tree has the nodes of the statement (`nodes_groupStatement`).
-/

namespace SqlFootprint

namespace Grouping

open Builder

/-! ### Nodes after the ones that are there -/

/-- The stored nodes with their positions. -/
def Stored.places (stored : Stored) : List (Node × Nat) := stored.nodes.zip stored.positions

/-- What holds of a table and of its nodes that are in no group, and goes on to hold over every leaf
and over every group of two nodes or more in a row. -/
structure Invariant (P : Builder → List (Node × Nat) → Prop) : Prop where
  leaf : ∀ {builder places kind text}, P builder places → kind.isPlain = true →
    P (builder.addLeaf (.leaf kind text)) (places ++ [(.leaf kind text, builder.next)])
  group : ∀ {builder before inside after kind}, P builder (before ++ (inside ++ after)) →
    2 ≤ inside.length → Node.Spans (inside.map Prod.fst) kind →
    P (builder.addGroup kind (inside.map Prod.snd))
      (before ++ (.group kind (inside.map Prod.fst), builder.next) :: after)

private theorem invariant_built : Invariant Built := ⟨.leaf, .group⟩

private theorem invariant_true : Invariant fun _ _ ↦ True :=
    ⟨fun _ _ ↦ trivial, fun _ _ _ ↦ trivial⟩

/-- The nodes are stored after the places that are in no group. -/
structure Stored.Holds (P : Builder → List (Node × Nat) → Prop) (stored : Stored)
    (before : List (Node × Nat)) (nodes : List Node) : Prop where
  nodes_eq : stored.nodes = nodes
  length_eq : stored.positions.length = nodes.length
  built : P stored.builder (before ++ stored.places)

variable {P : Builder → List (Node × Nat) → Prop}

namespace Stored.Holds

variable {stored : Stored} {before : List (Node × Nat)} {nodes : List Node}

/-- Nothing is stored yet. -/
theorem nil {builder : Builder} (h : P builder before) : Holds P ⟨builder, [], []⟩ before [] where
  nodes_eq := rfl
  length_eq := rfl
  built := by rwa [places, List.zip_nil_left, List.append_nil]

/-- A node that is stored before the others. -/
theorem cons {node : Node} {position : Nat}
    (h : Holds P stored (before ++ [(node, position)]) nodes) :
    Holds P (stored.cons node position) before (node :: nodes) where
  nodes_eq := by rw [Stored.cons, h.nodes_eq]
  length_eq := by rw [Stored.cons, List.length_cons, List.length_cons, h.length_eq]
  built := by
    have hbuilt := h.built
    rwa [List.append_assoc] at hbuilt

/-- The places of the nodes have the nodes. -/
theorem map_fst_places (h : Holds P stored before nodes) : stored.places.map Prod.fst = nodes := by
  have hlength : stored.nodes.length = stored.positions.length := by rw [h.nodes_eq, h.length_eq]
  rw [places, List.map_fst_zip (Nat.le_of_eq hlength), h.nodes_eq]

/-- The places of the nodes have the positions. -/
theorem map_snd_places (h : Holds P stored before nodes) :
    stored.places.map Prod.snd = stored.positions := by
  have hlength : stored.nodes.length = stored.positions.length := by rw [h.nodes_eq, h.length_eq]
  rw [places, List.map_snd_zip (Nat.le_of_eq hlength.symm)]

private theorem length_places (h : Holds P stored before nodes) :
    stored.places.length = nodes.length := by
  rw [← h.map_fst_places, List.length_map]

end Stored.Holds

/-! ### Leaves and groups -/

/-- Leaves are stored one after the other. -/
theorem holds_storeLeaves (hP : Invariant P) {builder : Builder} {before : List (Node × Nat)}
    {nodes : List Node} (h : P builder before)
    (hnodes : ∀ node ∈ nodes, ∃ kind text, node = .leaf kind text ∧ kind.isPlain = true) :
    (storeLeaves builder nodes).Holds P before nodes := by
  induction nodes generalizing builder before with
  | nil => exact .nil h
  | cons node rest ih =>
    rw [List.forall_mem_cons] at hnodes
    obtain ⟨⟨kind, text, rfl, hkind⟩, hrest⟩ := hnodes
    exact (ih (hP.leaf h hkind) hrest).cons

/-- The groups of a step are stored after the nodes that they are made of. -/
theorem Folds.holds_storeGroups (hP : Invariant P) {step : Step}
    {pass : List Node → List Node} (h : Folds step pass)
    (hspans : ∀ {node rest kind count}, step node rest = some (kind, count) →
      0 < count ∧ Node.Spans (node :: rest.take count) kind)
    {stored : Stored} {before : List (Node × Nat)} {nodes : List Node}
    (hstored : stored.Holds P before nodes) :
    (storeGroups step stored.builder stored.nodes stored.positions).Holds P before
      (pass nodes) := by
  obtain ⟨builder, nodes, positions⟩ := stored
  obtain ⟨rfl, hlength, hbuilt⟩ := hstored
  dsimp only [Stored.places] at hlength hbuilt ⊢
  induction nodes using h.induction generalizing builder positions before with
  | nil =>
    rw [storeGroups, h.nil]
    · exact .nil (by simpa using hbuilt)
    · simp
  | @keep node rest hstep ih =>
    obtain ⟨position, positions, rfl⟩ := List.exists_cons_of_length_eq_add_one hlength
    rw [storeGroups, hstep, h.keep hstep]
    refine (ih _ _ ?_ (Nat.succ.inj hlength)).cons
    rwa [List.append_assoc]
  | @fold node rest kind count hstep ih =>
    obtain ⟨position, positions, rfl⟩ := List.exists_cons_of_length_eq_add_one hlength
    obtain ⟨hpositive, hkind⟩ := hspans hstep
    have hbound := h.bound hstep
    have hrest : positions.length = rest.length := Nat.succ.inj hlength
    let more := rest.zip positions
    have hnodes : ((node, position) :: more.take count).map Prod.fst = node :: rest.take count := by
      rw [List.map_cons, List.map_take, List.map_fst_zip (Nat.le_of_eq hrest.symm)]
    have hpositions : ((node, position) :: more.take count).map Prod.snd =
        position :: positions.take count := by
      rw [List.map_cons, List.map_take, List.map_snd_zip (Nat.le_of_eq hrest)]
    have htwo : 2 ≤ ((node, position) :: more.take count).length := by
      rw [List.length_cons, List.length_take, List.length_zip]
      omega
    rw [List.zip_cons_cons, ← List.take_append_drop count (rest.zip positions),
      ← List.cons_append] at hbuilt
    have hgroup := hP.group hbuilt htwo (by rwa [hnodes])
    rw [hnodes, hpositions, List.zip_eq_zipWith, List.drop_zipWith] at hgroup
    rw [storeGroups, hstep, h.fold hstep]
    refine (ih _ _ ?_ ?_).cons
    · rwa [List.append_assoc]
    · rw [List.length_drop, List.length_drop, hrest]

/-- The groups of a level are stored after its nodes. -/
theorem Stored.Holds.regroup (hP : Invariant P) {stored : Stored} {before : List (Node × Nat)}
    {nodes : List Node} (h : stored.Holds P before nodes) :
    stored.regroup.Holds P before (Grouping.regroup nodes) :=
  folds_groupLists.holds_storeGroups hP spans_listStep
    (folds_groupComparisons.holds_storeGroups hP spans_comparisonStep
      (folds_groupAliases.holds_storeGroups hP spans_aliasStep h))

/-! ### Levels -/

/-- A quoted word is always part of a name. -/
theorem quote_eq_none_of_wordRole {word : Word} {rest : List Token}
    (h : wordRole word rest ≠ .name) : word.quote = none := by
  unfold wordRole at h
  split at h
  · exact absurd rfl h
  · next hquote => simpa using hquote

/-- A node that a token makes on its own is a leaf that shows the token. -/
theorem tokenNode?_eq_leaf {last : Option Node} {rest : List Token} {token : Token} {node : Node}
    (h : tokenNode? last rest token = some node) :
    token ≠ .endOfInput ∧ ∃ kind, node = .leaf kind token.render ∧ kind.isPlain = true := by
  cases token with
  | endOfInput => cases h
  | word word =>
    refine ⟨Token.noConfusion, ?_⟩
    simp only [tokenNode?] at h
    split at h
    · next hrole =>
      have hquote := quote_eq_none_of_wordRole fun hname ↦
        WordRole.noConfusion (hrole.symm.trans hname)
      cases h
      exact ⟨.literal, by simp only [Token.render, Word.render, hquote], rfl⟩
    · next hrole =>
      have hquote := quote_eq_none_of_wordRole fun hname ↦
        WordRole.noConfusion (hrole.symm.trans hname)
      cases h
      exact ⟨.keyword, by simp only [Token.render, Word.render, hquote], rfl⟩
    · cases h
  | star =>
    refine ⟨Token.noConfusion, ?_⟩
    cases h
    unfold starNode
    split
    · exact ⟨.punctuation, rfl, rfl⟩
    · exact ⟨.wildcard, rfl, rfl⟩
  | _ =>
    refine ⟨Token.noConfusion, ?_⟩
    cases h
    unfold plainNode
    split
    · exact ⟨.blank, rfl, rfl⟩
    · split
      · exact ⟨.literal, rfl, rfl⟩
      · exact ⟨.punctuation, rfl, rfl⟩

private theorem plainNode_eq_leaf (token : Token) :
    ∃ kind text, plainNode token = .leaf kind text ∧ kind.isPlain = true := by
  unfold plainNode
  split
  · exact ⟨.blank, _, rfl, rfl⟩
  · split
    · exact ⟨.literal, _, rfl, rfl⟩
    · exact ⟨.punctuation, _, rfl, rfl⟩

/-- The head of a call is made of leaves. -/
theorem holds_storeHead (hP : Invariant P) {builder : Builder} {before : List (Node × Nat)}
    (h : P builder before) (name : DottedName) (blanks : List Token) :
    (storeHead builder name blanks).Holds P before
      (name.node :: blanks.map plainNode ++ [.punctuation "("]) := by
  refine holds_storeLeaves hP h ?_
  simp only [List.forall_mem_append, List.forall_mem_cons, List.forall_mem_map]
  exact ⟨⟨⟨_, _, rfl, rfl⟩, fun token _ ↦ plainNode_eq_leaf token⟩, ⟨_, _, rfl, rfl⟩, nofun⟩

/-- A call is stored over what stands before its arguments, the arguments, and what closes it. -/
theorem holds_storeCall (hP : Invariant P) {head arguments : Stored}
    {before : List (Node × Nat)} {name : DottedName} {blanks : List Token} {nodes : List Node}
    (closed : Bool)
    (hhead : head.Holds P before (name.node :: blanks.map plainNode ++ [.punctuation "("]))
    (harguments : arguments.Holds P (before ++ head.places) nodes) :
    let node := callNode name blanks nodes closed
    let call := storeCall node.kind head arguments closed
    P call.1 (before ++ [(node, call.2)]) := by
  let mark := storeLeaves arguments.builder (if closed then [.punctuation ")"] else [])
  let places := head.places ++ arguments.places ++ mark.places
  have hmark : mark.Holds P (before ++ head.places ++ arguments.places)
      (if closed then [.punctuation ")"] else []) := by
    refine holds_storeLeaves hP harguments.built ?_
    cases closed with
    | true => exact List.forall_mem_singleton.2 ⟨_, _, rfl, rfl⟩
    | false => exact nofun
  have hnodes : places.map Prod.fst = name.node :: blanks.map plainNode ++
      .punctuation "(" :: nodes ++ if closed then [.punctuation ")"] else [] := by
    rw [List.map_append, List.map_append, hhead.map_fst_places, harguments.map_fst_places,
      hmark.map_fst_places, List.append_assoc _ [_] nodes, List.singleton_append]
  have hpositions : places.map Prod.snd =
      head.positions ++ arguments.positions ++ mark.positions := by
    rw [List.map_append, List.map_append, hhead.map_snd_places, harguments.map_snd_places,
      hmark.map_snd_places]
  have htwo : 2 ≤ places.length := by
    rw [List.length_append, List.length_append, hhead.length_places]
    simp only [List.length_append, List.length_cons, List.length_nil]
    omega
  have hbuilt : P mark.builder (before ++ (places ++ [])) := by
    rw [List.append_nil, ← List.append_assoc, ← List.append_assoc]
    exact hmark.built
  have hspans : Node.Spans (places.map Prod.fst) (.function name.identifier.fullName none) :=
    trivial
  have hgroup := hP.group hbuilt htwo hspans
  rwa [hnodes, hpositions] at hgroup

/-- A name that is no call is stored in one step. -/
theorem storeLevel_name {builder : Builder} {last : Option Node} {depth : Nat} {word : Word}
    {rest : List Token} (hrole : wordRole word rest = .name)
    (hgap : callGap? last (.read word rest) (afterName word rest) = none) :
    storeLevel builder last depth (.word word :: rest) =
      let name := DottedName.read word rest
      let more := storeLevel (builder.addLeaf name.node) (some name.node) depth
        (afterName word rest)
      (more.1.cons name.node builder.next, more.2 + 1 + name.furtherTokens) := by
  have hnode : tokenNode? last rest (.word word) = none := by simp only [tokenNode?, hrole]
  rw [storeLevel.eq_def]
  simp only [hnode]
  rw [show rest.drop (DottedName.read word rest).furtherTokens = afterName word rest from rfl, hgap]

/-- A call is stored with its arguments as a level of their own. -/
theorem storeLevel_call {builder : Builder} {last : Option Node} {depth : Nat} {word : Word}
    {rest blanks inside : List Token} (hrole : wordRole word rest = .name)
    (hafter : afterName word rest = blanks ++ .openParen :: inside)
    (hgap : callGap? last (.read word rest) (blanks ++ .openParen :: inside) =
      some blanks.length) :
    storeLevel builder last depth (.word word :: rest) =
      let name := DottedName.read word rest
      let head := storeHead builder name blanks
      let level := storeLevel head.builder none 0 inside
      let arguments := level.1.regroup
      let closed := (inside.drop level.2).head? == some .closeParen
      let read := level.2 + if closed then 1 else 0
      let node := callNode name blanks arguments.nodes closed
      let call := storeCall node.kind head arguments closed
      let more := storeLevel call.1 (some node) depth (inside.drop read)
      (more.1.cons node call.2,
        more.2 + 1 + name.furtherTokens + (blanks.length + 1) + read) := by
  have hnode : tokenNode? last rest (.word word) = none := by simp only [tokenNode?, hrole]
  rw [storeLevel.eq_def]
  simp only [hnode]
  rw [show rest.drop (DottedName.read word rest).furtherTokens = afterName word rest from rfl,
    hafter, hgap]
  simp

private theorem drop_of_suffix {tokens left : List Token} {count : Nat} (h : left <:+ tokens)
    (hcount : count + left.length = tokens.length) : tokens.drop count = left := by
  obtain ⟨read, rfl⟩ := h
  rw [List.length_append, Nat.add_right_cancel_iff] at hcount
  rw [hcount, List.drop_left]

/-- A level is stored as the rules read it. -/
theorem Reads.holds_storeLevel (hP : Invariant P) {last : Option Node} {depth : Nat}
    {tokens left : List Token} {nodes : List Node} (h : Reads last depth tokens nodes left)
    {builder : Builder} {before : List (Node × Nat)} (hbuilt : P builder before) :
    (storeLevel builder last depth tokens).1.Holds P before nodes ∧
      (storeLevel builder last depth tokens).2 + left.length = tokens.length := by
  induction h generalizing builder before with
  | done =>
    rw [storeLevel]
    exact ⟨.nil hbuilt, rfl⟩
  | stop =>
    rw [storeLevel.eq_def]
    exact ⟨.nil hbuilt, Nat.zero_add _⟩
  | skip _ ih =>
    obtain ⟨hholds, hcount⟩ := ih hbuilt
    rw [storeLevel.eq_def, List.length_cons, ← hcount]
    exact ⟨hholds, Nat.add_right_comm _ _ _⟩
  | leaf hnode hnest _ ih =>
    obtain ⟨-, kind, rfl, hkind⟩ := tokenNode?_eq_leaf hnode
    obtain ⟨hholds, hcount⟩ := ih (hP.leaf hbuilt hkind)
    rw [storeLevel.eq_def, List.length_cons, ← hcount]
    simp only [hnode, hnest]
    exact ⟨hholds.cons, Nat.add_right_comm _ _ _⟩
  | @name _ _ word rest _ _ hrole hgap _ ih =>
    have hfurther := length_afterName word rest
    have hname : P (builder.addLeaf (DottedName.read word rest).node)
        (before ++ [((DottedName.read word rest).node, builder.next)]) := hP.leaf hbuilt rfl
    obtain ⟨hholds, hcount⟩ := ih hname
    rw [storeLevel_name hrole hgap, List.length_cons]
    refine ⟨hholds.cons, ?_⟩
    dsimp only
    omega
  | @call _ _ word rest blanks inside more left _ _ _ hrole hafter hgap hinside hnode _
      ihArguments ih =>
    have hfurther := length_afterName word rest
    have hhead := holds_storeHead hP hbuilt (.read word rest) blanks
    obtain ⟨harguments, hinner⟩ := ihArguments hhead.built
    rw [storeLevel_call hrole hafter hgap]
    dsimp only
    generalize storeLevel (storeHead builder (.read word rest) blanks).builder none 0 inside =
      level at harguments hinner ⊢
    have hdrop := drop_of_suffix hinside.suffix hinner
    have hread : inside.drop (level.2 + 1) = more := by
      rw [← List.drop_drop, hdrop, List.drop_succ_cons, List.drop_zero]
    have hregroup := harguments.regroup hP
    obtain ⟨hholds, hcount⟩ := ih (hnode ▸ holds_storeCall hP true hhead hregroup)
    simp only [hdrop, List.head?_cons, BEq.rfl, ↓reduceIte, hregroup.nodes_eq, ← hnode, hread]
    refine ⟨hholds.cons, ?_⟩
    simp only [hafter, List.length_append, List.length_cons] at hfurther hinner ⊢
    omega
  | @openCall _ _ word rest blanks inside _ _ hrole hafter hgap hinside hnode ihArguments =>
    have hfurther := length_afterName word rest
    have hhead := holds_storeHead hP hbuilt (.read word rest) blanks
    obtain ⟨harguments, hinner⟩ := ihArguments hhead.built
    rw [storeLevel_call hrole hafter hgap]
    dsimp only
    generalize storeLevel (storeHead builder (.read word rest) blanks).builder none 0 inside =
      level at harguments hinner ⊢
    have hdrop : inside.drop level.2 = [] := List.drop_of_length_le (Nat.le_of_eq hinner.symm)
    have hclosed : (([] : List Token).head? == some .closeParen) = false := rfl
    have hregroup := harguments.regroup hP
    have hcall := holds_storeCall hP false hhead hregroup
    simp only [hdrop, hclosed, Bool.false_eq_true, ↓reduceIte, Nat.add_zero, hregroup.nodes_eq,
      ← hnode, storeLevel]
    refine ⟨(Stored.Holds.nil (hnode ▸ hcall)).cons, ?_⟩
    simp only [hafter, List.length_append, List.length_cons, List.length_nil] at hfurther hinner ⊢
    omega

/-- Where the reading of a level stops, and the nodes it has, do not depend on the table. -/
theorem Reads.storeLevel_eq {last : Option Node} {depth : Nat} {tokens left : List Token}
    {nodes : List Node} (h : Reads last depth tokens nodes left) (builder : Builder) :
    (storeLevel builder last depth tokens).1.nodes = nodes ∧
      tokens.drop (storeLevel builder last depth tokens).2 = left ∧
      (storeLevel builder last depth tokens).2 + left.length = tokens.length := by
  let level := storeLevel builder last depth tokens
  obtain ⟨hholds, hcount⟩ : level.1.Holds (fun _ _ ↦ True) [] nodes ∧
      level.2 + left.length = tokens.length := h.holds_storeLevel invariant_true trivial
  exact ⟨hholds.nodes_eq, drop_of_suffix h.suffix hcount, hcount⟩

/-! ### Statements -/

/-- A statement that is one level is stored as the level is. -/
theorem Reads.storeStatement_eq {tokens : List Token} {nodes : List Node}
    (h : Reads none 0 tokens nodes []) (builder : Builder) :
    storeStatement builder tokens =
      let stored := (storeLevel builder none 0 tokens).1.regroup
      (stored.builder, stored.positions) := by
  obtain ⟨-, hdrop, -⟩ := h.storeLevel_eq builder
  rw [storeStatement]
  split
  · rfl
  · next hcons =>
    rw [hdrop] at hcons
    cases hcons

/-- A parenthesis that closes too much is stored between two levels of the statement. -/
theorem Reads.storeStatement_eq_append {tokens more : List Token} {nodes : List Node}
    (h : Reads none 0 tokens nodes (.closeParen :: more)) (builder : Builder) :
    storeStatement builder tokens =
      let stored := (storeLevel builder none 0 tokens).1.regroup
      let after := storeStatement (stored.builder.addLeaf (.punctuation ")")) more
      (after.1, stored.positions ++ stored.builder.next :: after.2) := by
  obtain ⟨-, hdrop, -⟩ := h.storeLevel_eq builder
  rw [storeStatement]
  split
  · next hnil =>
    rw [hdrop] at hnil
    cases hnil
  · next hcons =>
    rw [hdrop] at hcons
    cases hcons
    rfl

private theorem exists_built_storeStatement (tokens : List Token) :
    ∀ {builder : Builder} {before : List (Node × Nat)}, Built builder before →
      ∃ places, places.map Prod.fst = statementNodes tokens ∧
        places.map Prod.snd = (storeStatement builder tokens).2 ∧
        Built (storeStatement builder tokens).1 (before ++ places) := by
  refine statementNodes_induction (motive := fun tokens nodes ↦
    ∀ {builder : Builder} {before : List (Node × Nat)}, Built builder before →
      ∃ places, places.map Prod.fst = nodes ∧
        places.map Prod.snd = (storeStatement builder tokens).2 ∧
        Built (storeStatement builder tokens).1 (before ++ places)) ?_ ?_ tokens
  · intro tokens nodes hreads builder before hbuilt
    have hregroup := (hreads.holds_storeLevel invariant_built hbuilt).1.regroup invariant_built
    rw [hreads.storeStatement_eq]
    exact ⟨_, hregroup.map_fst_places, hregroup.map_snd_places, hregroup.built⟩
  · intro tokens nodes more hreads ih builder before hbuilt
    have hregroup := (hreads.holds_storeLevel invariant_built hbuilt).1.regroup invariant_built
    let stored := (storeLevel builder none 0 tokens).1.regroup
    have hmark : Built (stored.builder.addLeaf (.punctuation ")"))
        (before ++ stored.places ++ [(.punctuation ")", stored.builder.next)]) :=
      hregroup.built.leaf rfl
    obtain ⟨places, hnodes, hpositions, hplaces⟩ := ih hmark
    rw [hreads.storeStatement_eq_append]
    refine ⟨stored.places ++ (.punctuation ")", stored.builder.next) :: places, ?_, ?_, ?_⟩
    · rw [List.map_append, List.map_cons, hregroup.map_fst_places, hnodes]
    · rw [List.map_append, List.map_cons, hregroup.map_snd_places, hpositions]
    · rw [List.append_cons stored.places, ← List.append_assoc, ← List.append_assoc]
      exact hplaces

/-- The stored tree of a statement is the table that comes about while the statement is read, over
the nodes of the statement. -/
theorem exists_built_groupStatement (tokens : List Token) :
    ∃ builder places, Built builder places ∧ places.map Prod.fst = statementNodes tokens ∧
      groupStatement tokens = builder.finish (places.map Prod.snd) := by
  obtain ⟨places, hnodes, hpositions, hbuilt⟩ := exists_built_storeStatement tokens .empty
  refine ⟨_, places, hbuilt, hnodes, ?_⟩
  rw [groupStatement, hpositions]

end Grouping

/-- The stored tree of a statement has the nodes of the statement. -/
theorem nodes_groupStatement (tokens : List Token) :
    (groupStatement tokens).nodes = Grouping.statementNodes tokens := by
  obtain ⟨builder, places, hbuilt, hnodes, htree⟩ := Grouping.exists_built_groupStatement tokens
  rw [htree, hbuilt.nodes_finish, hnodes]

end SqlFootprint
