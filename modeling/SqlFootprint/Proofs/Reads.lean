import SqlFootprint.Grouping.Level

/-!
# Reading a level by rules

`Reads last depth tokens nodes left` says that a level read after the node `last`, with `depth`
parentheses open that belong to no call, gives `nodes` and stops before `left`. There is one rule
for each thing that can stand at the front of a level, and a call has the reading of its arguments
as a part. `exists_reads` says that a level is read by the rules, and `Reads.level_eq` that the
rules leave no choice, so facts about levels are proved by induction on the rules.
-/

namespace SqlFootprint

private theorem Token.nestAfter?_eq_none_iff {depth : Nat} {token : Token} :
    token.nestAfter? depth = none ↔ token = .closeParen ∧ depth = 0 := by
  cases token <;> simp [nestAfter?]

/-- A string is shown as none of the texts that start in another way. -/
theorem Token.render_string_notMem {form : StringForm} (body : String) {table : List String}
    (hfirst : ∀ entry ∈ table, entry.toList.head? ≠ form.opening.toList.head?) :
    (Token.string form body).render ∉ table := by
  intro hmem
  apply hfirst _ hmem
  rw [Token.render, String.toList_append, String.toList_append, List.append_assoc,
    List.head?_append]
  cases form <;> rfl

namespace Grouping

private theorem tokenNode?_eq_none {last : Option Node} {rest : List Token} {token : Token}
    (h : tokenNode? last rest token = none) :
    token = .endOfInput ∨ ∃ word, token = .word word ∧ wordRole word rest = .name := by
  cases token with
  | endOfInput => exact .inl rfl
  | word word =>
    refine .inr ⟨word, rfl, ?_⟩
    simp only [tokenNode?] at h
    split at h
    · cases h
    · cases h
    · next hrole => exact hrole
  | _ => cases h

/-- What follows the name that starts with a word before `rest`. -/
def afterName (word : Word) (rest : List Token) : List Token :=
  rest.drop (DottedName.read word rest).furtherTokens

/-- The rules by which a level is read. -/
inductive Reads : Option Node → Nat → List Token → List Node → List Token → Prop
  | done {last : Option Node} {depth : Nat} : Reads last depth [] [] []
  | stop {last : Option Node} {rest : List Token} :
    Reads last 0 (.closeParen :: rest) [] (.closeParen :: rest)
  | skip {last : Option Node} {depth : Nat} {rest left : List Token} {nodes : List Node} :
    Reads last depth rest nodes left → Reads last depth (.endOfInput :: rest) nodes left
  | leaf {last : Option Node} {depth inner : Nat} {token : Token} {node : Node}
      {rest left : List Token} {nodes : List Node} :
    tokenNode? last rest token = some node → token.nestAfter? depth = some inner →
    Reads (Node.lastSignificant last node) inner rest nodes left →
    Reads last depth (token :: rest) (node :: nodes) left
  | name {last : Option Node} {depth : Nat} {word : Word} {rest left : List Token}
      {nodes : List Node} :
    wordRole word rest = .name →
    callGap? last (.read word rest) (afterName word rest) = none →
    Reads (some (DottedName.read word rest).node) depth (afterName word rest) nodes left →
    Reads last depth (.word word :: rest) ((DottedName.read word rest).node :: nodes) left
  | call {last : Option Node} {depth : Nat} {word : Word}
      {rest blanks inside more left : List Token} {arguments nodes : List Node} {node : Node} :
    wordRole word rest = .name → afterName word rest = blanks ++ .openParen :: inside →
    callGap? last (.read word rest) (blanks ++ .openParen :: inside) = some blanks.length →
    Reads none 0 inside arguments (.closeParen :: more) →
    node = callNode (.read word rest) blanks (regroup arguments) true →
    Reads (some node) depth more nodes left →
    Reads last depth (.word word :: rest) (node :: nodes) left
  | openCall {last : Option Node} {depth : Nat} {word : Word} {rest blanks inside : List Token}
      {arguments : List Node} {node : Node} :
    wordRole word rest = .name → afterName word rest = blanks ++ .openParen :: inside →
    callGap? last (.read word rest) (blanks ++ .openParen :: inside) = some blanks.length →
    Reads none 0 inside arguments [] →
    node = callNode (.read word rest) blanks (regroup arguments) false →
    Reads last depth (.word word :: rest) [node] []

/-! ### Names and the blanks before arguments -/

/-- The further parts of a name take two tokens each, all of them there. -/
theorem two_mul_length_furtherParts_le (tokens : List Token) :
    2 * (furtherParts tokens).length ≤ tokens.length := by
  induction tokens using furtherParts.induct with
  | case1 word rest hstar => simp [furtherParts, hstar]
  | case2 word rest hstar ih =>
    simp only [furtherParts, hstar, ↓reduceIte, List.length_cons]
    omega
  | case3 rest => simp [furtherParts]
  | case4 tokens hword hstar =>
    rw [furtherParts]
    · simp
    · exact hword
    · exact hstar

/-- A name takes its first word and what stands before the rest. -/
theorem length_afterName (word : Word) (rest : List Token) :
    (afterName word rest).length + (DottedName.read word rest).furtherTokens = rest.length := by
  have hle := two_mul_length_furtherParts_le rest
  simp only [afterName, List.length_drop, DottedName.furtherTokens, DottedName.read]
  omega

/-- The tokens of a name and what follows it. -/
theorem take_append_afterName (word : Word) (rest : List Token) :
    rest.take (DottedName.read word rest).furtherTokens ++ afterName word rest = rest :=
  List.take_append_drop _ _

/-- The tokens of names are words, periods and stars. -/
def isNamePart : Token → Bool
  | .word _ | .period | .star => true
  | _ => false

/-- A name takes words, periods and stars only. -/
theorem isNamePart_of_mem_take {word : Word} {rest : List Token} {token : Token}
    (h : token ∈ rest.take (DottedName.read word rest).furtherTokens) :
    isNamePart token = true := by
  simp only [DottedName.furtherTokens, DottedName.read] at h
  induction rest using furtherParts.induct with
  | case1 word rest hstar =>
    simp only [furtherParts, hstar, ↓reduceIte, List.length_singleton, Nat.mul_one,
      List.take_succ_cons, List.take_zero, List.mem_cons, List.not_mem_nil, or_false] at h
    rcases h with rfl | rfl <;> rfl
  | case2 word rest hstar ih =>
    simp only [furtherParts, hstar, ↓reduceIte, List.length_cons, Nat.mul_succ,
      List.take_succ_cons, List.mem_cons] at h
    rcases h with rfl | rfl | h
    · rfl
    · rfl
    · exact ih h
  | case3 rest =>
    simp only [furtherParts, List.length_singleton, Nat.mul_one, List.take_succ_cons,
      List.take_zero, List.mem_cons, List.not_mem_nil, or_false] at h
    rcases h with rfl | rfl <;> rfl
  | case4 tokens hword hstar =>
    rw [furtherParts.eq_3 tokens hword hstar] at h
    cases h

/-- What follows a name is the end of what follows its first word. -/
theorem afterName_suffix (word : Word) (rest : List Token) : afterName word rest <:+ rest :=
  List.drop_suffix _ _

/-- Where a name is a call, nothing but blanks stands before the parenthesis. -/
theorem callGap?_eq_some {last : Option Node} {name : DottedName} {rest : List Token} {gap : Nat}
    (h : callGap? last name rest = some gap) :
    ∃ blanks inside, rest = blanks ++ .openParen :: inside ∧ blanks.length = gap ∧
      ∀ blank ∈ blanks, blank.isBlank = true := by
  unfold callGap? at h
  have hsplit := List.takeWhile_append_dropWhile (p := Token.isBlank) (l := rest)
  have hdrop : rest.drop (gapBefore rest) = rest.dropWhile Token.isBlank :=
    (congrArg (List.drop (gapBefore rest)) hsplit.symm).trans List.drop_left
  split at h
  · cases h
  · split at h
    · cases h
    · dsimp only at h
      split at h
      · next hparen =>
        cases h
        rw [hdrop] at hparen
        obtain ⟨inside, hinside⟩ := List.head?_eq_some_iff.1 hparen.1
        rw [hinside] at hsplit
        exact ⟨_, inside, hsplit.symm, rfl, List.all_eq_true.1 List.all_takeWhile⟩
      · cases h

/-- Only blanks stand before the parenthesis of a call. -/
theorem isBlank_of_callGap? {last : Option Node} {name : DottedName} {blanks inside : List Token}
    (h : callGap? last name (blanks ++ .openParen :: inside) = some blanks.length) :
    ∀ blank ∈ blanks, blank.isBlank = true := by
  obtain ⟨other, rest, heq, hlength, hblank⟩ := callGap?_eq_some h
  obtain ⟨rfl, -⟩ := List.append_inj heq hlength.symm
  exact hblank

/-! ### A level is read by the rules -/

/-- A level stops at the end of the tokens or before a closing parenthesis. -/
theorem Reads.left_eq {last : Option Node} {depth : Nat} {tokens left : List Token}
    {nodes : List Node} (h : Reads last depth tokens nodes left) :
    left = [] ∨ ∃ more, left = .closeParen :: more := by
  induction h with
  | done => exact .inl rfl
  | stop => exact .inr ⟨_, rfl⟩
  | openCall => exact .inl rfl
  | skip _ ih => exact ih
  | leaf _ _ _ ih => exact ih
  | name _ _ _ ih => exact ih
  | call _ _ _ _ _ _ _ ih => exact ih

/-- The arguments of a call are the end of what the call starts. -/
theorem arguments_suffix {word : Word} {rest blanks inside : List Token}
    (h : afterName word rest = blanks ++ .openParen :: inside) : inside <:+ .word word :: rest := by
  have hinside : inside <:+ afterName word rest :=
    h ▸ (List.suffix_cons _ _).trans (List.suffix_append _ _)
  exact hinside.trans ((afterName_suffix word rest).trans (List.suffix_cons _ _))

/-- What is left unread is the end of what was to be read. -/
theorem Reads.suffix {last : Option Node} {depth : Nat} {tokens left : List Token}
    {nodes : List Node} (h : Reads last depth tokens nodes left) : left <:+ tokens := by
  induction h with
  | done => exact List.suffix_refl _
  | stop => exact List.suffix_refl _
  | openCall => exact List.nil_suffix
  | skip _ ih => exact ih.trans (List.suffix_cons _ _)
  | leaf _ _ _ ih => exact ih.trans (List.suffix_cons _ _)
  | name _ _ _ ih => exact ih.trans ((afterName_suffix _ _).trans (List.suffix_cons _ _))
  | call _ hafter _ _ _ _ ihArguments ih =>
    exact ((ih.trans (List.suffix_cons _ _)).trans ihArguments).trans (arguments_suffix hafter)

/-- What follows a call is the end of what the call starts. -/
theorem Reads.suffix_call {word : Word} {rest blanks inside more : List Token}
    {arguments : List Node} (h : Reads none 0 inside arguments (.closeParen :: more))
    (hafter : afterName word rest = blanks ++ .openParen :: inside) : more <:+ .word word :: rest :=
  ((List.suffix_cons _ _).trans h.suffix).trans (arguments_suffix hafter)

private theorem level_leaf {last : Option Node} {depth inner : Nat} {token : Token} {node : Node}
    {rest : List Token} (hnode : tokenNode? last rest token = some node)
    (hnest : token.nestAfter? depth = some inner) :
    level last depth (token :: rest) =
      .cons node 1 (level (Node.lastSignificant last node) inner rest) := by
  cases token with
  | endOfInput => simp [tokenNode?] at hnode
  | word word =>
    cases hnest
    rw [level]
    cases hrole : wordRole word rest with
    | value =>
      simp only [tokenNode?, hrole] at hnode
      cases hnode
      rfl
    | keyword =>
      simp only [tokenNode?, hrole] at hnode
      cases hnode
      rfl
    | name => simp only [tokenNode?, hrole, reduceCtorEq] at hnode
  | closeParen =>
    cases depth with
    | zero => simp [Token.nestAfter?] at hnest
    | succ depth =>
      simp only [Token.nestAfter?, Nat.succ_ne_zero, ↓reduceIte, Option.some.injEq] at hnest
      cases hnode
      subst hnest
      rw [level]
      rfl
  | star =>
    cases hnode
    cases hnest
    rw [level]
    have hblank : (starNode last).isBlank = false := by unfold starNode; split <;> rfl
    simp only [Node.lastSignificant, hblank]
    rfl
  | openParen =>
    cases hnode
    cases hnest
    rw [level]
    rfl
  | _ =>
    cases hnode
    cases hnest
    rw [level] <;> simp

private theorem level_name {last : Option Node} {depth : Nat} {word : Word} {rest : List Token}
    (hrole : wordRole word rest = .name)
    (hgap : callGap? last (.read word rest) (afterName word rest) = none) :
    level last depth (.word word :: rest) =
      .cons (DottedName.read word rest).node (1 + (DottedName.read word rest).furtherTokens)
        (level (some (DottedName.read word rest).node) depth (afterName word rest)) := by
  rw [level]
  simp only [hrole]
  rw [show rest.drop (DottedName.read word rest).furtherTokens = afterName word rest from rfl, hgap]

private theorem level_call {last : Option Node} {depth : Nat} {word : Word}
    {rest blanks inside : List Token} (hrole : wordRole word rest = .name)
    (hafter : afterName word rest = blanks ++ .openParen :: inside)
    (hgap : callGap? last (.read word rest) (blanks ++ .openParen :: inside) =
      some blanks.length) :
    level last depth (.word word :: rest) =
      let arguments := level none 0 inside
      let closed := (inside.drop arguments.2).head? == some .closeParen
      let read := arguments.2 + if closed then 1 else 0
      let node := callNode (.read word rest) blanks (regroup arguments.1) closed
      .cons node (1 + (DottedName.read word rest).furtherTokens + (blanks.length + 1) + read)
        (level (some node) depth (inside.drop read)) := by
  rw [level]
  simp only [hrole]
  rw [show rest.drop (DottedName.read word rest).furtherTokens = afterName word rest from rfl,
    hafter, hgap]
  simp

/-- The rules leave no choice: what they give is what the level gives. -/
theorem Reads.level_eq {last : Option Node} {depth : Nat} {tokens left : List Token}
    {nodes : List Node} (h : Reads last depth tokens nodes left) :
    level last depth tokens = (nodes, tokens.length - left.length) := by
  induction h with
  | done => rw [level]; rfl
  | stop => rw [level]; simp
  | skip h ih =>
    have hle := h.suffix.length_le
    rw [level, ih]
    simp only [List.length_cons, Prod.mk.injEq, true_and]
    omega
  | leaf hnode hnest h ih =>
    have hle := h.suffix.length_le
    rw [level_leaf hnode hnest, ih, Reading.cons]
    simp only [List.length_cons, Prod.mk.injEq, true_and]
    omega
  | @name _ _ word rest left _ hrole hgap h ih =>
    have hle := h.suffix.length_le
    have hfurther := length_afterName word rest
    rw [level_name hrole hgap, ih, Reading.cons]
    simp only [List.length_cons, Prod.mk.injEq, true_and]
    omega
  | @call _ _ word rest blanks inside more left _ _ _ hrole hafter hgap hinside hnode h
      ihArguments ih =>
    have hmore := hinside.suffix
    have hdrop : inside.drop (inside.length - (more.length + 1)) = .closeParen :: more :=
      (List.suffix_iff_eq_drop.1 hmore).symm
    have hle := h.suffix.length_le
    have hinner := hmore.length_le
    have hfurther := length_afterName word rest
    rw [level_call hrole hafter hgap, ihArguments]
    simp only [List.length_cons, hdrop, List.head?_cons, BEq.rfl, ↓reduceIte, ← hnode]
    rw [← List.drop_drop, hdrop, List.drop_succ_cons, List.drop_zero, ih, Reading.cons]
    simp only [hafter, List.length_append, List.length_cons, Prod.mk.injEq, true_and]
      at hfurther hinner ⊢
    omega
  | @openCall _ _ word rest blanks inside _ _ hrole hafter hgap hinside hnode ihArguments =>
    have hfurther := length_afterName word rest
    rw [level_call hrole hafter hgap, ihArguments]
    simp only [List.length_nil, Nat.sub_zero, List.drop_length, List.head?_nil]
    rw [show ((none : Option Token) == some .closeParen) = false from rfl]
    simp only [Bool.false_eq_true, ↓reduceIte, Nat.add_zero, List.drop_length, ← hnode]
    rw [level, Reading.cons]
    simp only [hafter, List.length_append, List.length_cons, Prod.mk.injEq, true_and] at hfurther ⊢
    omega

/-- Every level is read by the rules. -/
theorem exists_reads (last : Option Node) (depth : Nat) (tokens : List Token) :
    ∃ nodes left, Reads last depth tokens nodes left := by
  match tokens with
  | [] => exact ⟨_, _, .done⟩
  | token :: rest =>
    cases hnode : tokenNode? last rest token with
    | some node =>
      cases hnest : token.nestAfter? depth with
      | none =>
        obtain ⟨rfl, rfl⟩ := Token.nestAfter?_eq_none_iff.1 hnest
        exact ⟨_, _, .stop⟩
      | some inner =>
        obtain ⟨nodes, left, h⟩ := exists_reads (Node.lastSignificant last node) inner rest
        exact ⟨_, _, .leaf hnode hnest h⟩
    | none =>
      obtain rfl | ⟨word, rfl, hrole⟩ := tokenNode?_eq_none hnode
      · obtain ⟨nodes, left, h⟩ := exists_reads last depth rest
        exact ⟨_, _, .skip h⟩
      · have hfurther := length_afterName word rest
        cases hgap : callGap? last (.read word rest) (afterName word rest) with
        | none =>
          obtain ⟨nodes, left, h⟩ :=
            exists_reads (some (DottedName.read word rest).node) depth (afterName word rest)
          exact ⟨_, _, .name hrole hgap h⟩
        | some gap =>
          obtain ⟨blanks, inside, hafter, rfl, hblank⟩ := callGap?_eq_some hgap
          have hinner : inside.length < rest.length := by
            rw [hafter, List.length_append, List.length_cons] at hfurther
            omega
          rw [hafter] at hgap
          obtain ⟨arguments, left, hinside⟩ := exists_reads none 0 inside
          obtain rfl | ⟨more, rfl⟩ := hinside.left_eq
          · exact ⟨_, _, .openCall hrole hafter hgap hinside rfl⟩
          · have hmore : more.length < inside.length := hinside.suffix.length_le
            let node := callNode (.read word rest) blanks (regroup arguments) true
            obtain ⟨nodes, left, h⟩ := exists_reads (some node) depth more
            exact ⟨_, _, .call hrole hafter hgap hinside rfl h⟩
termination_by tokens.length
decreasing_by all_goals simp only [List.length_cons]; omega

/-- A level that reads all its tokens is the whole statement. -/
theorem Reads.statementNodes_eq {tokens : List Token} {nodes : List Node}
    (h : Reads none 0 tokens nodes []) : statementNodes tokens = regroup nodes := by
  have hlevel := h.level_eq
  rw [List.length_nil, Nat.sub_zero] at hlevel
  rw [statementNodes]
  split
  · rw [hlevel]
  · next hcons =>
    rw [hlevel, List.drop_length] at hcons
    cases hcons

/-- A parenthesis that closes too much stands between two levels of the statement. -/
theorem Reads.statementNodes_eq_append {tokens more : List Token} {nodes : List Node}
    (h : Reads none 0 tokens nodes (.closeParen :: more)) :
    statementNodes tokens = regroup nodes ++ .punctuation ")" :: statementNodes more := by
  have hlevel := h.level_eq
  have hdrop := (List.suffix_iff_eq_drop.1 h.suffix).symm
  rw [statementNodes]
  split
  · next hnil =>
    rw [hlevel, hdrop] at hnil
    cases hnil
  · next hcons =>
    rw [hlevel, hdrop] at hcons
    cases hcons
    dsimp only
    rw [hlevel]

/-- What holds of a statement read as one level, and of a statement with a parenthesis too many if
it holds of what follows the parenthesis, holds of every statement. -/
theorem statementNodes_induction {motive : List Token → List Node → Prop}
    (whole : ∀ tokens nodes, Reads none 0 tokens nodes [] → motive tokens (regroup nodes))
    (stray : ∀ tokens nodes more, Reads none 0 tokens nodes (.closeParen :: more) →
      motive more (statementNodes more) →
      motive tokens (regroup nodes ++ .punctuation ")" :: statementNodes more))
    (tokens : List Token) : motive tokens (statementNodes tokens) := by
  obtain ⟨nodes, left, h⟩ := exists_reads none 0 tokens
  rcases h.left_eq with rfl | ⟨more, rfl⟩
  · rw [h.statementNodes_eq]
    exact whole tokens nodes h
  · have hmore : more.length < tokens.length := h.suffix.length_le
    rw [h.statementNodes_eq_append]
    exact stray tokens nodes more h (statementNodes_induction whole stray more)
termination_by tokens.length

end Grouping

end SqlFootprint
