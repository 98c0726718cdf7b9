import SqlFootprint.Proofs.Front
import SqlFootprint.Proofs.Leaves

/-!
# Where levels and calls end

Read after a parenthesis, a level ends where a count of parentheses does: before the first closing
one with as many closed as opened since (`Token.levelEnd`, `Reads.levelEnd_eq`). `Covers` lays the
nodes of a statement over its tokens, each call from its name to the parenthesis that the count
matches with the one of its arguments, or to the end of the statement. `covers_statementNodes` says
that they lie so, whatever parentheses are too many or missing.
-/

namespace SqlFootprint

namespace Token

/-- Up to the closing parenthesis at `place`, as many parentheses are closed as opened from `start`
on. -/
def closesAt (tokens : List Token) (start place : Nat) : Bool :=
  let between := (tokens.take place).drop start
  tokens[place]? == some .closeParen && between.count .closeParen == between.count .openParen

/-- The first closing parenthesis from `start` on that closes more than was opened since; the end of
the tokens where there is none. -/
def levelEnd (tokens : List Token) (start : Nat) : Nat :=
  ((List.range' start (tokens.length - start)).find? (closesAt tokens start)).getD tokens.length

private theorem closesAt_add (tokens : List Token) (start place : Nat) :
    closesAt tokens start (start + place) = closesAt (tokens.drop start) 0 place := by
  rw [closesAt, closesAt, List.getElem?_drop, List.drop_take, Nat.add_sub_cancel_left,
    List.drop_zero]

/-- Where a level ends depends on the tokens of the level only. -/
theorem levelEnd_eq_add {tokens : List Token} {start : Nat} (h : start ≤ tokens.length) :
    levelEnd tokens start = start + levelEnd (tokens.drop start) 0 := by
  have hcloses : closesAt tokens start ∘ (start + ·) = closesAt (tokens.drop start) 0 :=
    funext (closesAt_add tokens start)
  rw [levelEnd, levelEnd, List.range'_eq_map_range, List.find?_map, hcloses, Nat.sub_zero,
    List.length_drop, ← List.range_eq_range']
  cases (List.range (tokens.length - start)).find? (closesAt (tokens.drop start) 0) with
  | none => exact (Nat.add_sub_cancel' h).symm
  | some place => rfl

/-- How deep tokens end is what they open less what they close. -/
theorem count_of_nesting? {depth inner : Nat} {tokens : List Token}
    (h : nesting? depth tokens = some inner) :
    depth + tokens.count .openParen = inner + tokens.count .closeParen := by
  induction tokens generalizing depth with
  | nil =>
    cases h
    rfl
  | cons token rest ih =>
    rw [nesting?_cons, Option.bind_eq_some_iff] at h
    obtain ⟨next, hnext, hrest⟩ := h
    have hcount := ih hrest
    rw [List.count_cons, List.count_cons]
    cases token with
    | openParen =>
      cases hnext
      simp only [BEq.rfl, ↓reduceIte, beq_iff_eq, reduceCtorEq]
      omega
    | closeParen =>
      simp only [nestAfter?, Option.ite_none_left_eq_some, Option.some.injEq] at hnext
      simp only [BEq.rfl, ↓reduceIte, beq_iff_eq, reduceCtorEq]
      omega
    | _ =>
      cases hnext
      simpa using hcount

/-- Among tokens that close nothing too much, no level ends. -/
theorem closesAt_eq_false {run : List Token} {inner : Nat} (h : nesting? 0 run = some inner)
    (rest : List Token) {place : Nat} (hplace : place < run.length) :
    closesAt (run ++ rest) 0 place = false := by
  rw [Bool.eq_false_iff]
  intro hcloses
  simp only [closesAt, List.drop_zero, Bool.and_eq_true, beq_iff_eq,
    List.getElem?_append_left hplace,
    List.take_append_of_le_length (Nat.le_of_lt hplace)] at hcloses
  obtain ⟨hclose, hcount⟩ := hcloses
  -- Before the parenthesis, as many would be closed as opened, so it would close nothing.
  have hsplit : run = run.take place ++ .closeParen :: run.drop (place + 1) := by
    rw [List.getElem?_eq_getElem hplace, Option.some.injEq] at hclose
    rw [← hclose, List.getElem_cons_drop, List.take_append_drop]
  rw [hsplit, nesting?_append, Option.bind_eq_some_iff] at h
  obtain ⟨depth, hbefore, hafter⟩ := h
  have hzero := count_of_nesting? hbefore
  obtain rfl : depth = 0 := by omega
  cases hafter

private theorem levelEnd_of_nesting? {tokens : List Token} {inner : Nat}
    (h : nesting? 0 tokens = some inner) : levelEnd tokens 0 = tokens.length := by
  have hnone : (List.range' 0 (tokens.length - 0)).find? (closesAt tokens 0) = none := by
    rw [List.find?_range'_eq_none]
    intro place _ hplace
    have hfalse : closesAt (tokens ++ []) 0 place = false := closesAt_eq_false h [] (by omega)
    rw [List.append_nil] at hfalse
    rw [hfalse]
    rfl
  rw [levelEnd, hnone]
  rfl

private theorem levelEnd_append {run : List Token} (h : nesting? 0 run = some 0)
    (more : List Token) :
    levelEnd (run ++ .closeParen :: more) 0 = run.length := by
  have hcount := count_of_nesting? h
  have hsome : (List.range' 0 ((run ++ .closeParen :: more).length - 0)).find?
      (closesAt (run ++ .closeParen :: more) 0) = some run.length := by
    rw [List.find?_range'_eq_some]
    refine ⟨?_, ?_, fun place _ hplace ↦ by rw [closesAt_eq_false h _ hplace]; rfl⟩
    · rw [Nat.zero_add, Nat.zero_add] at hcount
      simp [closesAt, hcount]
    · simp
  rw [levelEnd, hsome]
  rfl

end Token

namespace Grouping

/-- A level ends where the count of parentheses does. -/
theorem Reads.levelEnd_eq {last : Option Node} {tokens left : List Token} {nodes : List Node}
    (h : Reads last 0 tokens nodes left) :
    Token.levelEnd tokens 0 + left.length = tokens.length := by
  obtain ⟨run, inner, rfl, hnesting, hinner⟩ := h.exists_nesting?
  rcases h.left_eq with rfl | ⟨more, rfl⟩
  · rw [List.append_nil, Token.levelEnd_of_nesting? hnesting]
    rfl
  · rw [hinner (List.cons_ne_nil _ _)] at hnesting
    rw [Token.levelEnd_append hnesting, List.length_append]

/-! ### Nodes over tokens -/

/-- The tokens are a call and `after` is what follows it: the call goes from the words of its name
to the parenthesis that closes its arguments, or to the end of the statement. -/
inductive CallOver : String → List Token → List Token → Prop
  | mk {word : Word} {tail blanks inside : List Token} : Token.NameTail tail →
    (∀ blank ∈ blanks, blank.isBlank = true) →
    CallOver (Token.valued (.word word :: tail))
      (.word word :: tail ++ (blanks ++ .openParen :: inside.take (Token.levelEnd inside 0 + 1)))
      (inside.drop (Token.levelEnd inside 0 + 1))

/-- The nodes lie over the tokens, in their order, and `after` is what follows the tokens in the
statement. Leaves stand for their tokens, groups lie over the tokens of their children, and a call
without an alias ends where its parentheses do. -/
inductive Covers : List Token → List Token → List Node → Prop
  | nil {after : List Token} : Covers [] after []
  | skip {run after : List Token} {nodes : List Node} :
    Covers run after nodes → Covers (.endOfInput :: run) after nodes
  | leaf {run more after : List Token} {kind : Kind Node} {text : String} {nodes : List Node} :
    kind.isPlain = true → LeafOf run (.leaf kind text) → Covers more after nodes →
    Covers (run ++ more) after (.leaf kind text :: nodes)
  | group {run more after : List Token} {kind : Kind Node} {children nodes : List Node} :
    children ≠ [] → Covers run (more ++ after) children →
    (∀ name, kind = .function name none → CallOver name run (more ++ after)) →
    Covers more after nodes → Covers (run ++ more) after (.group kind children :: nodes)

namespace Covers

variable {run more after : List Token} {nodes others : List Node}

private theorem ofLeaf {kind : Kind Node} {text : String} (hkind : kind.isPlain = true)
    (h : LeafOf run (.leaf kind text)) : Covers run after [.leaf kind text] := by
  have hleaf : Covers (run ++ []) after [.leaf kind text] := .leaf hkind h .nil
  rwa [List.append_nil] at hleaf

private theorem ofGroup {kind : Kind Node} {children : List Node} (hne : children ≠ [])
    (hchildren : Covers run after children)
    (hcall : ∀ name, kind = .function name none → CallOver name run after) :
    Covers run after [.group kind children] := by
  have hgroup : Covers (run ++ []) after [.group kind children] := .group hne hchildren hcall .nil
  rwa [List.append_nil] at hgroup

/-- Nodes in a row lie over tokens in a row. -/
theorem append (h : Covers run (more ++ after) nodes) (hmore : Covers more after others) :
    Covers (run ++ more) after (nodes ++ others) := by
  generalize hrest : more ++ after = rest at h
  induction h with
  | nil => exact hmore
  | skip _ ih => exact .skip (ih hrest)
  | leaf hkind hleaf _ ih =>
    rw [List.append_assoc]
    exact .leaf hkind hleaf (ih hrest)
  | group hne hchildren hcall _ _ ih =>
    rw [← hrest, ← List.append_assoc] at hchildren hcall
    rw [List.append_assoc]
    exact .group hne hchildren hcall (ih hrest)

private theorem exists_append {first second : List Node} (h : Covers run after (first ++ second)) :
    ∃ front back, run = front ++ back ∧ Covers front (back ++ after) first ∧
      Covers back after second := by
  -- By induction on the covering, which meets the seam between two nodes, never inside a group.
  generalize hnodes : first ++ second = nodes at h
  induction h generalizing first with
  | nil =>
    obtain ⟨rfl, rfl⟩ := List.append_eq_nil_iff.1 hnodes
    exact ⟨[], [], rfl, .nil, .nil⟩
  | skip _ ih =>
    obtain ⟨front, back, rfl, hfirst, hsecond⟩ := ih hnodes
    exact ⟨.endOfInput :: front, back, rfl, .skip hfirst, hsecond⟩
  | leaf hkind hleaf hrest ih =>
    cases first with
    | nil =>
      rw [List.nil_append] at hnodes
      exact ⟨[], _, rfl, .nil, hnodes ▸ .leaf hkind hleaf hrest⟩
    | cons node first =>
      rw [List.cons_append, List.cons.injEq] at hnodes
      obtain ⟨rfl, hnodes⟩ := hnodes
      obtain ⟨front, back, rfl, hfirst, hsecond⟩ := ih hnodes
      exact ⟨_, back, (List.append_assoc _ _ _).symm, .leaf hkind hleaf hfirst, hsecond⟩
  | group hne hchildren hcall hrest _ ih =>
    cases first with
    | nil =>
      rw [List.nil_append] at hnodes
      exact ⟨[], _, rfl, .nil, hnodes ▸ .group hne hchildren hcall hrest⟩
    | cons node first =>
      rw [List.cons_append, List.cons.injEq] at hnodes
      obtain ⟨rfl, hnodes⟩ := hnodes
      obtain ⟨front, back, rfl, hfirst, hsecond⟩ := ih hnodes
      rw [List.append_assoc] at hchildren hcall
      exact ⟨_, back, (List.append_assoc _ _ _).symm, .group hne hchildren hcall hfirst, hsecond⟩

private theorem regroups (hregroups : Regroups nodes others) (h : Covers run after nodes) :
    Covers run after others := by
  induction hregroups generalizing run with
  | nil => exact h
  | @keep node before _ _ ih =>
    rw [← List.singleton_append] at h
    obtain ⟨front, back, rfl, hnode, hrest⟩ := h.exists_append
    exact hnode.append (ih hrest)
  | fold two _ hcall _ ih =>
    obtain ⟨front, back, rfl, hchildren, hrest⟩ := h.exists_append
    refine .group (List.ne_nil_of_length_pos (Nat.zero_lt_of_lt two)) hchildren ?_ (ih hrest)
    rintro name rfl
    cases hcall

/-- A level is grouped over the same tokens. -/
theorem regroup (h : Covers run after nodes) : Covers run after (Grouping.regroup nodes) :=
  ((h.regroups (regroups_groupAliases _)).regroups (regroups_groupComparisons _)).regroups
    (regroups_groupLists _)

/-- The leaves stand for the tokens that the nodes lie over. -/
theorem yields (h : Covers run after nodes) : Yields run nodes := by
  induction h with
  | nil => exact .nil
  | skip _ ih => exact .skip ih
  | leaf _ hleaf _ ih => exact .leaf hleaf ih
  | group hne _ _ _ ihChildren ih =>
    rw [Yields, Node.leavesOfAll, Node.leaves_group hne]
    exact ihChildren.append ih

end Covers

/-! ### Levels -/

private theorem covers_blanks {blanks after : List Token}
    (h : ∀ blank ∈ blanks, blank.isBlank = true) : Covers blanks after (blanks.map plainNode) := by
  induction blanks with
  | nil => exact .nil
  | cons blank rest ih =>
    rw [List.forall_mem_cons] at h
    rw [List.map_cons, plainNode, if_pos h.1]
    exact .leaf rfl (leafOf_blank h.1) (ih h.2)

private theorem covers_punctuation {token : Token} {after : List Token} (h : token ≠ .endOfInput) :
    Covers [token] after [.punctuation token.render] := .ofLeaf rfl (.token h rfl rfl)

/-- The children of a call, one after the other. -/
theorem callNode_eq (name : DottedName) (blanks : List Token) (arguments : List Node)
    (closed : Bool) :
    callNode name blanks arguments closed = .group (.function name.identifier.fullName none)
      (name.node :: (blanks.map plainNode ++ .punctuation "(" ::
        (arguments ++ if closed then [.punctuation ")"] else []))) := by
  rw [callNode, List.append_assoc, List.cons_append, List.cons_append]

private theorem callOver_of_reads (word : Word) (rest : List Token) {blanks run left : List Token}
    {arguments : List Node} (hblanks : ∀ blank ∈ blanks, blank.isBlank = true)
    (hinside : Reads none 0 (run ++ left) arguments left) :
    CallOver (DottedName.read word rest).identifier.fullName
      (.word word :: rest.take (DottedName.read word rest).furtherTokens ++
        (blanks ++ .openParen :: (run ++ left.take 1))) (left.drop 1) := by
  have hend : Token.levelEnd (run ++ left) 0 = run.length := by
    have hlength := hinside.levelEnd_eq
    rwa [List.length_append, Nat.add_right_cancel_iff] at hlength
  have htake : (run ++ left).take (Token.levelEnd (run ++ left) 0 + 1) = run ++ left.take 1 := by
    rw [hend, List.take_length_add_append]
  have hdrop : (run ++ left).drop (Token.levelEnd (run ++ left) 0 + 1) = left.drop 1 := by
    rw [hend, List.drop_length_add_append]
  rw [← htake, ← hdrop, ← valued_name]
  exact .mk (nameTail_take_furtherParts rest).1 hblanks

private theorem covers_call (word : Word) (rest : List Token) {blanks run left : List Token}
    {arguments : List Node} (hblanks : ∀ blank ∈ blanks, blank.isBlank = true)
    (hinside : Reads none 0 (run ++ left) arguments left) (harguments : Covers run left arguments) :
    Covers (.word word :: rest.take (DottedName.read word rest).furtherTokens ++
        (blanks ++ .openParen :: (run ++ left.take 1))) (left.drop 1)
      [callNode (.read word rest) blanks (regroup arguments) (left.head? == some .closeParen)] := by
  have hopen (after : List Token) : Covers [.openParen] after [.punctuation "("] :=
    covers_punctuation Token.noConfusion
  have hclose : Covers (left.take 1) (left.drop 1)
      (if left.head? == some .closeParen then [.punctuation ")"] else []) := by
    rcases hinside.left_eq with rfl | ⟨more, rfl⟩
    · exact .nil
    · exact covers_punctuation Token.noConfusion
  have hregroup : Covers run (left.take 1 ++ left.drop 1) (regroup arguments) := by
    rw [List.take_append_drop]
    exact harguments.regroup
  have hchildren := Covers.leaf rfl (leafOf_name word rest)
    ((covers_blanks hblanks).append ((hopen _).append (hregroup.append hclose)))
  rw [callNode_eq]
  refine .ofGroup (List.cons_ne_nil _ _) hchildren fun name hname ↦ ?_
  cases hname
  exact callOver_of_reads word rest hblanks hinside

/-- The nodes of a level lie over the tokens that were read. -/
theorem Reads.covers {last : Option Node} {depth : Nat} {tokens left : List Token}
    {nodes : List Node} (h : Reads last depth tokens nodes left) :
    ∃ run, tokens = run ++ left ∧ Covers run left nodes := by
  induction h with
  | done => exact ⟨[], rfl, .nil⟩
  | stop => exact ⟨[], rfl, .nil⟩
  | skip _ ih =>
    rcases ih with ⟨run, rfl, hnodes⟩
    exact ⟨.endOfInput :: run, rfl, .skip hnodes⟩
  | leaf hnode _ _ ih =>
    rcases ih with ⟨run, rfl, hnodes⟩
    have hleaf := leafOf_tokenNode? hnode
    obtain ⟨-, kind, rfl, hkind⟩ := tokenNode?_eq_leaf hnode
    exact ⟨_ :: run, rfl, .leaf hkind hleaf hnodes⟩
  | @name _ _ word rest _ _ _ _ _ ih =>
    rcases ih with ⟨run, hafter, hnodes⟩
    refine ⟨_, ?_, .leaf rfl (leafOf_name word rest) hnodes⟩
    rw [List.append_assoc, ← hafter, List.cons_append, take_append_afterName]
  | @call _ _ word rest _ _ _ _ _ _ _ _ hafter hgap hinside hnode _ ihArguments ih =>
    rcases ihArguments with ⟨argumentTokens, rfl, harguments⟩
    rcases ih with ⟨run, rfl, hnodes⟩
    subst hnode
    have hcall := covers_call word rest (isBlank_of_callGap? hgap) hinside harguments
    refine ⟨_, ?_, hcall.append hnodes⟩
    conv => lhs; rw [← take_append_afterName word rest, hafter]
    simp
  | @openCall _ _ word rest _ _ _ _ _ hafter hgap hinside hnode ihArguments =>
    rcases ihArguments with ⟨argumentTokens, rfl, harguments⟩
    subst hnode
    have hcall := covers_call word rest (isBlank_of_callGap? hgap) hinside harguments
    refine ⟨_, ?_, hcall⟩
    conv => lhs; rw [← take_append_afterName word rest, hafter]
    simp

/-! ### Statements -/

/-- The nodes of a statement lie over all its tokens, and its calls end where their parentheses
do. -/
theorem covers_statementNodes (tokens : List Token) : Covers tokens [] (statementNodes tokens) := by
  refine statementNodes_induction (motive := fun tokens nodes ↦ Covers tokens [] nodes) ?_ ?_ tokens
  · intro tokens nodes h
    obtain ⟨run, rfl, hnodes⟩ := h.covers
    rw [List.append_nil]
    exact hnodes.regroup
  · intro tokens nodes more h hmore
    obtain ⟨run, rfl, hnodes⟩ := h.covers
    have hclose : Covers [.closeParen] (more ++ []) [.punctuation ")"] :=
      covers_punctuation Token.noConfusion
    rw [← List.append_nil (.closeParen :: more)] at hnodes
    exact hnodes.regroup.append (hclose.append hmore)

/-- The leaves of a statement stand for all its tokens. -/
theorem yields_statementNodes (tokens : List Token) : Yields tokens (statementNodes tokens) :=
  (covers_statementNodes tokens).yields

end Grouping

end SqlFootprint
