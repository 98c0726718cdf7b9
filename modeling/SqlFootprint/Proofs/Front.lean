import SqlFootprint.Proofs.Reads

/-!
# What stands at the front of a level

`Front last tokens rest nodes` says that `tokens` make `nodes` wherever they are read after the node
`last` and before `rest`, so that a level is read part by part. A part depends on what follows it
only at its end: `Apart rest` says that no name goes on into `rest` and no parenthesis there makes a
call of it, and `Front.of_reads` that parts with as many parentheses closed as opened are read in
this way.
-/

namespace SqlFootprint

/-- How deep in parentheses tokens end; `none` where one of them closes nothing. -/
def Token.nesting? (depth : Nat) (tokens : List Token) : Option Nat :=
  tokens.foldlM nestAfter? depth

/-- The first token leads to the depth at which the others start. -/
theorem Token.nesting?_cons (depth : Nat) (token : Token) (rest : List Token) :
    nesting? depth (token :: rest) = (token.nestAfter? depth).bind (nesting? · rest) := by
  rw [nesting?, List.foldlM_cons]
  rfl

/-- The first tokens lead to the depth at which the others start. -/
theorem Token.nesting?_append (depth : Nat) (first second : List Token) :
    nesting? depth (first ++ second) = (nesting? depth first).bind (nesting? · second) := by
  rw [nesting?, List.foldlM_append]
  rfl

/-- Tokens other than parentheses leave the depth as it is. -/
theorem Token.nesting?_eq_some {depth : Nat} {tokens : List Token}
    (h : ∀ token ∈ tokens, token ≠ .openParen ∧ token ≠ .closeParen) :
    nesting? depth tokens = some depth := by
  induction tokens with
  | nil => rfl
  | cons token rest ih =>
    rw [List.forall_mem_cons] at h
    have hflat : token.nestAfter? depth = some depth := by
      cases token with
      | openParen => exact absurd rfl h.1.1
      | closeParen => exact absurd rfl h.1.2
      | _ => rfl
    rw [nesting?_cons, hflat]
    exact ih h.2

/-- Tokens other than parentheses leave the depth of what follows them as it is. -/
theorem Token.nesting?_flat_append {depth : Nat} {tokens : List Token}
    (h : ∀ token ∈ tokens, token ≠ .openParen ∧ token ≠ .closeParen) (rest : List Token) :
    nesting? depth (tokens ++ rest) = nesting? depth rest := by
  rw [nesting?_append, nesting?_eq_some h, Option.bind_some]

/-- A token that is read within parentheses is read within more of them. -/
theorem Token.nestAfter?_add {token : Token} {depth inner : Nat}
    (h : token.nestAfter? depth = some inner) (outer : Nat) :
    token.nestAfter? (depth + outer) = some (inner + outer) := by
  cases token with
  | openParen =>
    cases h
    simp only [nestAfter?, Option.some.injEq]
    omega
  | closeParen =>
    simp only [nestAfter?] at h ⊢
    split at h
    · cases h
    · cases h
      rw [if_neg (by omega), Option.some.injEq]
      omega
  | _ =>
    cases h
    rfl

/-- Tokens that are closed within parentheses are closed within more of them. -/
theorem Token.nesting?_add {depth inner : Nat} {tokens : List Token}
    (h : nesting? depth tokens = some inner) (outer : Nat) :
    nesting? (depth + outer) tokens = some (inner + outer) := by
  induction tokens generalizing depth with
  | nil =>
    cases h
    rfl
  | cons token tokens ih =>
    rw [nesting?_cons, Option.bind_eq_some_iff] at h
    obtain ⟨next, hnext, hrest⟩ := h
    rw [nesting?_cons, nestAfter?_add hnext, Option.bind_some, ih hrest]

namespace Grouping

/-! ### Where tokens can be cut -/

/-- No name before the tokens goes on in them, and no parenthesis in them makes a call of it. -/
def Apart (tokens : List Token) : Prop :=
  tokens.head? ≠ some .period ∧ (tokens.drop (gapBefore tokens)).head? ≠ some .openParen

/-- A name that ends in a period goes on in the tokens. -/
def continuesName : List Token → Bool
  | .word _ :: _ | .star :: _ => true
  | _ => false

/-- No name in the first tokens goes on in the others, and none becomes a call. -/
def Parted (tokens rest : List Token) : Prop :=
  Apart rest ∧ (tokens.getLast? = some .period → continuesName rest = false)

/-- The name at the front of the first tokens, if there is one, is the same before the others. -/
def Seam (tokens rest : List Token) : Prop := .closeParen ∈ tokens ∨ Parted tokens rest

/-- Behind the blanks at the front of tokens is what is left without them. -/
theorem drop_gapBefore (tokens : List Token) :
    tokens.drop (gapBefore tokens) = tokens.dropWhile Token.isBlank := by
  have hsplit := List.takeWhile_append_dropWhile (p := Token.isBlank) (l := tokens)
  exact (congrArg (List.drop (gapBefore tokens)) hsplit.symm).trans List.drop_left

/-- A parenthesis does not follow at once where none follows after blanks. -/
theorem Apart.head?_ne {tokens : List Token} (h : Apart tokens) :
    tokens.head? ≠ some .openParen := by
  intro hparen
  obtain ⟨rest, rfl⟩ := List.head?_eq_some_iff.1 hparen
  exact h.2 rfl

/-- Nothing at all stands apart. -/
theorem apart_nil : Apart [] := ⟨nofun, nofun⟩

/-- A token that is no blank, period or opening parenthesis stands apart with all that follows. -/
theorem apart_cons {token : Token} (rest : List Token) (hblank : token.isBlank = false)
    (hperiod : token ≠ .period) (hparen : token ≠ .openParen) : Apart (token :: rest) := by
  constructor
  · simpa using hperiod
  · rw [drop_gapBefore, List.dropWhile_cons_of_neg (by simp [hblank])]
    simpa using hparen

/-- Blanks stand apart before what stands apart. -/
theorem Apart.append_blanks {rest : List Token} (h : Apart rest) (blanks : List Blank) :
    Apart (blanks.map .blank ++ rest) := by
  constructor
  · cases blanks with
    | nil => exact h.1
    | cons blank blanks => simp
  · have hrest := h.2
    rw [drop_gapBefore] at hrest ⊢
    rwa [List.dropWhile_append_of_pos]
    simp [Token.isBlank]

/-- The end of tokens is parted from what the tokens are parted from. -/
theorem Parted.of_suffix {part tokens rest : List Token} (h : Parted tokens rest)
    (hpart : part <:+ tokens) : Parted part rest := by
  refine ⟨h.1, fun hlast ↦ h.2 ?_⟩
  rcases hpart with ⟨front, rfl⟩
  rw [List.getLast?_append, hlast]
  rfl

private theorem Seam.tail {token : Token} {tokens rest : List Token}
    (hseam : Seam (token :: tokens) rest)
    (htoken : token ≠ .closeParen) : Seam tokens rest := by
  rcases hseam with hclose | hparted
  · exact .inl (List.mem_of_ne_of_mem htoken.symm hclose)
  · exact .inr (hparted.of_suffix (List.suffix_cons _ _))

/-- The role of a word is the same before what is across a seam. -/
theorem wordRole_append {tokens rest : List Token} (hseam : Seam tokens rest) (word : Word) :
    wordRole word (tokens ++ rest) = wordRole word tokens := by
  have hparen : ((tokens ++ rest).head? == some Token.openParen) =
      (tokens.head? == some .openParen) := by
    cases tokens with
    | nil =>
      rcases hseam with hclose | ⟨hapart, -⟩
      · cases hclose
      · simpa using hapart.head?_ne
    | cons token tokens => rfl
  unfold wordRole
  rw [hparen]

/-- Nothing but a period that a word or a star follows goes on with a name. -/
theorem furtherParts_eq_nil {tokens : List Token}
    (h : ∀ rest, tokens = .period :: rest → continuesName rest = false) :
    furtherParts tokens = [] := by
  rw [furtherParts.eq_3]
  · intro word rest heq
    cases h _ heq
  · intro rest heq
    cases h _ heq

private theorem furtherParts_append {tokens rest : List Token} (hseam : Seam tokens rest) :
    furtherParts (tokens ++ rest) = furtherParts tokens := by
  induction tokens using furtherParts.induct with
  | case1 word tokens hstar => simp [furtherParts, hstar]
  | case2 word tokens hstar ih =>
    have htail := (hseam.tail Token.noConfusion).tail Token.noConfusion
    simp only [List.cons_append, furtherParts, hstar, ↓reduceIte, ih htail]
  | case3 tokens => simp [furtherParts]
  | case4 tokens hword hstar =>
    rw [furtherParts.eq_3 tokens hword hstar]
    apply furtherParts_eq_nil
    intro more heq
    cases tokens with
    | nil =>
      rcases hseam with hclose | ⟨hapart, -⟩
      · cases hclose
      · exact absurd (congrArg List.head? heq) hapart.1
    | cons token tokens =>
      cases heq
      cases tokens with
      | nil =>
        rcases hseam with hclose | ⟨-, hlast⟩
        · cases List.mem_singleton.1 hclose
        · exact hlast rfl
      | cons second tokens =>
        cases second with
        | word word => exact absurd rfl (hword word tokens)
        | star => exact absurd rfl (hstar tokens)
        | _ => rfl

/-- A name is no call where no parenthesis follows after blanks. -/
theorem callGap?_eq_none {last : Option Node} {name : DottedName} {rest : List Token}
    (h : (rest.drop (gapBefore rest)).head? ≠ some .openParen) :
    callGap? last name rest = none := by
  unfold callGap?
  split
  · rfl
  · split
    · rfl
    · rw [if_neg fun hparen ↦ h hparen.1]

/-- Tokens are blanks, or start with blanks and one that is none. -/
theorem blanks_or_split (tokens : List Token) :
    (∀ token ∈ tokens, token.isBlank = true) ∨
      ∃ blanks token rest, tokens = blanks ++ token :: rest ∧
        (∀ blank ∈ blanks, blank.isBlank = true) ∧ token.isBlank = false := by
  induction tokens with
  | nil => exact .inl nofun
  | cons first tokens ih =>
    by_cases hfirst : first.isBlank = true
    · rcases ih with hall | ⟨blanks, token, rest, rfl, hblanks, htoken⟩
      · exact .inl (List.forall_mem_cons.2 ⟨hfirst, hall⟩)
      · exact .inr ⟨first :: blanks, token, rest, rfl, List.forall_mem_cons.2 ⟨hfirst, hblanks⟩,
          htoken⟩
    · exact .inr ⟨[], first, tokens, rfl, nofun, by simpa using hfirst⟩

/-- The blanks at the front of tokens end where the first other token stands. -/
theorem gapBefore_append_cons {blanks : List Token} {token : Token} (rest : List Token)
    (hblanks : ∀ blank ∈ blanks, blank.isBlank = true) (htoken : token.isBlank = false) :
    gapBefore (blanks ++ token :: rest) = blanks.length := by
  rw [gapBefore, List.takeWhile_append_of_pos hblanks,
    List.takeWhile_cons_of_neg (by simp [htoken]), List.append_nil]

/-- Whether a name is a call is the same before what is across a seam. -/
theorem callGap?_append {tokens rest : List Token} (hseam : Seam tokens rest)
    (last : Option Node) (name : DottedName) :
    callGap? last name (tokens ++ rest) = callGap? last name tokens := by
  rcases blanks_or_split tokens with hall | ⟨blanks, token, more, rfl, hblanks, htoken⟩
  · rcases hseam with hclose | ⟨hapart, -⟩
    · cases hall _ hclose
    · have hrest := hapart.2
      rw [drop_gapBefore] at hrest
      rw [callGap?_eq_none, callGap?_eq_none]
      · rw [drop_gapBefore, ← List.append_nil tokens, List.dropWhile_append_of_pos hall]
        nofun
      · rwa [drop_gapBefore, List.dropWhile_append_of_pos hall]
  · unfold callGap?
    rw [List.append_assoc, List.cons_append, gapBefore_append_cons _ hblanks htoken,
      gapBefore_append_cons _ hblanks htoken]
    simp only [List.drop_left, List.head?_cons]

/-- The tokens that a name takes are the same before what is across a seam. -/
theorem read_append {tokens rest : List Token} (hseam : Seam tokens rest) (word : Word) :
    DottedName.read word (tokens ++ rest) = DottedName.read word tokens := by
  rw [DottedName.read, furtherParts_append hseam]
  rfl

/-- What follows a name goes on across a seam. -/
theorem afterName_append {tokens rest : List Token} (hseam : Seam tokens rest) (word : Word) :
    afterName word (tokens ++ rest) = afterName word tokens ++ rest := by
  rw [afterName, read_append hseam, afterName, List.drop_append_of_le_length]
  have hlength := length_afterName word tokens
  omega

/-- What a token makes on its own is the same before what is across a seam. -/
theorem tokenNode?_append {tokens rest : List Token} (hseam : Seam tokens rest)
    (last : Option Node) (token : Token) :
    tokenNode? last (tokens ++ rest) token = tokenNode? last tokens token := by
  cases token with
  | word word => simp only [tokenNode?, wordRole_append hseam]
  | _ => rfl

/-! ### Reading across a seam -/

/-- The last node that is no blank, once more nodes are read. -/
def lastOf (last : Option Node) (nodes : List Node) : Option Node :=
  nodes.foldl Node.lastSignificant last

/-- More nodes are read after the first. -/
theorem lastOf_append (last : Option Node) (first second : List Node) :
    lastOf last (first ++ second) = lastOf (lastOf last first) second := List.foldl_append

/-- Blanks leave what stands before them as it is. -/
theorem lastOf_of_isBlank {blanks : List Node} (h : ∀ blank ∈ blanks, blank.isBlank = true)
    (last : Option Node) : lastOf last blanks = last := by
  induction blanks generalizing last with
  | nil => rfl
  | cons blank blanks ih =>
    rw [List.forall_mem_cons] at h
    rw [lastOf, List.foldl_cons, Node.lastSignificant, if_pos h.1]
    exact ih h.2 last

/-- What stands before nodes is their last one only if they are blanks. -/
theorem lastOf_eq_or (last : Option Node) (nodes : List Node) :
    lastOf last nodes = (lastOf none nodes).or last := by
  induction nodes generalizing last with
  | nil => rfl
  | cons node rest ih =>
    have hnode : Node.lastSignificant last node = (Node.lastSignificant none node).or last := by
      unfold Node.lastSignificant
      split
      · rfl
      · rfl
    have hcons (last : Option Node) : lastOf last (node :: rest) =
        lastOf (Node.lastSignificant last node) rest := rfl
    rw [hcons, hcons, ih, ih (Node.lastSignificant none node), hnode, Option.or_assoc]

private theorem Reads.name_append {last : Option Node} {depth : Nat} {word : Word}
    {tokens rest left : List Token} {nodes : List Node} (hseam : Seam tokens rest)
    (hafter : Seam (afterName word tokens) rest) (hrole : wordRole word tokens = .name)
    (hgap : callGap? last (.read word tokens) (afterName word tokens) = none)
    (h : Reads (some (DottedName.read word tokens).node) depth (afterName word tokens ++ rest)
      nodes left) :
    Reads last depth (.word word :: (tokens ++ rest)) ((DottedName.read word tokens).node :: nodes)
      left := by
  have hread := read_append hseam word
  have hrest := afterName_append hseam word
  rw [← hread] at h ⊢
  rw [← hrest] at h
  refine .name ?_ ?_ h
  · rw [wordRole_append hseam, hrole]
  · rw [hread, hrest, callGap?_append hafter, hgap]

private theorem Reads.call_append {last : Option Node} {depth : Nat} {word : Word}
    {tokens blanks inside more rest left : List Token} {arguments nodes : List Node}
    (hrole : wordRole word tokens = .name)
    (hafter : afterName word tokens = blanks ++ .openParen :: inside)
    (hgap : callGap? last (.read word tokens) (blanks ++ .openParen :: inside) =
      some blanks.length)
    (hclose : .closeParen ∈ inside)
    (hinside : Reads none 0 (inside ++ rest) arguments (.closeParen :: more))
    (h : Reads (some (callNode (.read word tokens) blanks (regroup arguments) true)) depth more
      nodes left) :
    Reads last depth (.word word :: (tokens ++ rest))
      (callNode (.read word tokens) blanks (regroup arguments) true :: nodes) left := by
  have hmem : Token.closeParen ∈ blanks ++ .openParen :: inside :=
    List.mem_append_right _ (List.mem_cons_of_mem _ hclose)
  have hseam : Seam tokens rest := by
    rw [← hafter] at hmem
    exact .inl ((afterName_suffix _ _).mem hmem)
  have hread := read_append hseam word
  have hrest := afterName_append hseam word
  have hmore : (blanks ++ .openParen :: inside) ++ rest =
      blanks ++ .openParen :: (inside ++ rest) := by
    rw [List.append_assoc, List.cons_append]
  rw [hafter, hmore] at hrest
  rw [← hread] at hgap h ⊢
  refine .call ?_ hrest ?_ hinside rfl h
  · rw [wordRole_append hseam, hrole]
  · rw [← hmore, callGap?_append (.inl hmem), hgap]

/-- A level that stops at a parenthesis reads the same whatever follows the parenthesis. -/
theorem Reads.append_of_stop {last : Option Node} {depth : Nat} {tokens left : List Token}
    {nodes : List Node} (h : Reads last depth tokens nodes left) (hleft : .closeParen ∈ left)
    (rest : List Token) : Reads last depth (tokens ++ rest) nodes (left ++ rest) := by
  induction h with
  | done => cases hleft
  | stop => exact .stop
  | openCall => cases hleft
  | skip _ ih => exact .skip (ih hleft)
  | leaf hnode hnest h ih =>
    have hseam : Seam _ rest := .inl (h.suffix.mem hleft)
    exact .leaf ((tokenNode?_append hseam _ _).trans hnode) hnest (ih hleft)
  | name hrole hgap h ih =>
    have hmem := h.suffix.mem hleft
    exact name_append (.inl ((afterName_suffix _ _).mem hmem)) (.inl hmem) hrole hgap (ih hleft)
  | call hrole hafter hgap hinside hnode _ ihArguments ih =>
    subst hnode
    exact call_append hrole hafter hgap (hinside.suffix.mem List.mem_cons_self)
      (ihArguments List.mem_cons_self) (ih hleft)

/-- The further tokens of a name are no parentheses. -/
theorem ne_paren_of_mem_take {word : Word} {rest : List Token} :
    ∀ token ∈ rest.take (DottedName.read word rest).furtherTokens,
      token ≠ .openParen ∧ token ≠ .closeParen := by
  intro token hmem
  have hpart := isNamePart_of_mem_take hmem
  constructor
  · rintro rfl
    cases hpart
  · rintro rfl
    cases hpart

/-- Blanks are no parentheses. -/
theorem ne_paren_of_isBlank {blanks : List Token} (h : ∀ blank ∈ blanks, blank.isBlank = true) :
    ∀ token ∈ blanks, token ≠ .openParen ∧ token ≠ .closeParen := by
  intro token hmem
  have hblank := h token hmem
  constructor
  · rintro rfl
    cases hblank
  · rintro rfl
    cases hblank

/-- The tokens of a name leave the depth as it is. -/
theorem nesting?_afterName (depth : Nat) (word : Word) (rest : List Token) :
    Token.nesting? depth (.word word :: rest) = Token.nesting? depth (afterName word rest) := by
  have hword : Token.nesting? depth (.word word :: rest) = Token.nesting? depth rest :=
    Token.nesting?_cons depth (.word word) rest
  conv => lhs; rw [hword, ← take_append_afterName word rest]
  exact Token.nesting?_flat_append ne_paren_of_mem_take _

/-- Before a parenthesis, blanks leave the depth as it is. -/
theorem nesting?_blanks {depth : Nat} {blanks inside : List Token}
    (hblanks : ∀ blank ∈ blanks, blank.isBlank = true) :
    Token.nesting? depth (blanks ++ .openParen :: inside) = Token.nesting? (depth + 1) inside := by
  rw [Token.nesting?_flat_append (ne_paren_of_isBlank hblanks), Token.nesting?_cons]
  rfl

/-- What a level reads closes no parenthesis that was opened outside, and where the level stops at
one, what it read has closed all that were opened in it. -/
theorem Reads.exists_nesting? {last : Option Node} {depth : Nat} {tokens left : List Token}
    {nodes : List Node} (h : Reads last depth tokens nodes left) :
    ∃ run inner, tokens = run ++ left ∧ Token.nesting? depth run = some inner ∧
      (left ≠ [] → inner = 0) := by
  induction h with
  | @done _ depth => exact ⟨[], depth, rfl, rfl, fun hne ↦ absurd rfl hne⟩
  | stop => exact ⟨[], 0, rfl, rfl, fun _ ↦ rfl⟩
  | skip _ ih =>
    rcases ih with ⟨run, inner, rfl, hnesting, hinner⟩
    exact ⟨.endOfInput :: run, inner, rfl, hnesting, hinner⟩
  | @leaf _ _ _ token _ _ _ _ _ hnest _ ih =>
    rcases ih with ⟨run, inner, rfl, hnesting, hinner⟩
    refine ⟨token :: run, inner, rfl, ?_, hinner⟩
    rwa [Token.nesting?_cons, hnest]
  | @name _ depth word rest _ _ _ _ _ ih =>
    rcases ih with ⟨run, inner, hafter, hnesting, hinner⟩
    let further := rest.take (DottedName.read word rest).furtherTokens
    refine ⟨.word word :: (further ++ run), inner, ?_, ?_, hinner⟩
    · rw [List.cons_append, List.append_assoc, ← hafter, take_append_afterName]
    · exact (Token.nesting?_flat_append ne_paren_of_mem_take run).trans hnesting
  | @call _ depth word rest blanks _ _ _ _ _ _ _ hafter hgap _ _ _ ihArguments ih =>
    rcases ihArguments with ⟨arguments, _, rfl, harguments, hzero⟩
    rcases ih with ⟨run, inner, rfl, hnesting, hinner⟩
    obtain rfl := hzero (List.cons_ne_nil _ _)
    have hinside := Token.nesting?_add harguments (depth + 1)
    rw [Nat.zero_add] at hinside
    let further := rest.take (DottedName.read word rest).furtherTokens
    refine ⟨.word word :: (further ++ (blanks ++ .openParen ::
      (arguments ++ .closeParen :: run))), inner, ?_, ?_, hinner⟩
    · conv => lhs; rw [← take_append_afterName word rest, hafter]
      simp [further]
    · refine (Token.nesting?_flat_append ne_paren_of_mem_take _).trans ?_
      rw [nesting?_blanks (isBlank_of_callGap? hgap), Token.nesting?_append, hinside]
      exact hnesting
  | @openCall _ depth word rest blanks _ _ _ _ hafter hgap _ _ ihArguments =>
    rcases ihArguments with ⟨arguments, inner, rfl, harguments, -⟩
    have hinside := Token.nesting?_add harguments (depth + 1)
    rw [Nat.zero_add] at hinside
    let further := rest.take (DottedName.read word rest).furtherTokens
    refine ⟨.word word :: (further ++ (blanks ++ .openParen :: arguments)), inner + (depth + 1), ?_,
      ?_, fun hne ↦ absurd rfl hne⟩
    · conv => lhs; rw [← take_append_afterName word rest, hafter]
      simp [further]
    · refine (Token.nesting?_flat_append ne_paren_of_mem_take _).trans ?_
      rw [nesting?_blanks (isBlank_of_callGap? hgap), hinside]

/-- A level closes no parenthesis that was opened outside, and where it stops at one it has closed
all that were opened in it. -/
theorem Reads.nesting? {last : Option Node} {depth : Nat} {tokens left : List Token}
    {nodes : List Node} (h : Reads last depth tokens nodes left) (outer : Nat) :
    ∃ inner, Token.nesting? (depth + outer) tokens = Token.nesting? inner left ∧ outer ≤ inner ∧
      (left ≠ [] → inner = outer) := by
  obtain ⟨run, inner, rfl, hnesting, hinner⟩ := h.exists_nesting?
  refine ⟨inner + outer, ?_, Nat.le_add_left _ _, fun hne ↦ by rw [hinner hne, Nat.zero_add]⟩
  rw [Token.nesting?_append, Token.nesting?_add hnesting, Option.bind_some]

/-- Tokens with as many parentheses closed as opened are read to their end. -/
theorem exists_reads_of_nesting (last : Option Node) {tokens : List Token}
    (h : Token.nesting? 0 tokens = some 0) : ∃ nodes, Reads last 0 tokens nodes [] := by
  obtain ⟨nodes, left, hreads⟩ := exists_reads last 0 tokens
  rcases hreads.left_eq with rfl | ⟨more, rfl⟩
  · exact ⟨nodes, hreads⟩
  · obtain ⟨inner, hinner, -, heq⟩ := hreads.nesting? 0
    rw [Nat.zero_add, h, heq (List.cons_ne_nil _ _)] at hinner
    cases hinner

/-- Before a call and behind it, tokens stand at the same depth. -/
theorem Reads.nesting?_call {last : Option Node} {depth : Nat} {word : Word}
    {tokens blanks inside more : List Token} {arguments : List Node}
    (hafter : afterName word tokens = blanks ++ .openParen :: inside)
    (hgap : callGap? last (.read word tokens) (blanks ++ .openParen :: inside) =
      some blanks.length)
    (hinside : Reads none 0 inside arguments (.closeParen :: more)) :
    Token.nesting? depth (.word word :: tokens) = Token.nesting? depth more := by
  obtain ⟨inner, hinner, -, heq⟩ := hinside.nesting? (depth + 1)
  rw [Nat.zero_add, heq (List.cons_ne_nil _ _), Token.nesting?_cons] at hinner
  rw [nesting?_afterName, hafter, nesting?_blanks (isBlank_of_callGap? hgap), hinner]
  rfl

/-- A call that is not closed leaves a parenthesis open. -/
theorem Reads.nesting?_openCall {last : Option Node} {depth : Nat} {word : Word}
    {tokens blanks inside : List Token} {arguments : List Node}
    (hafter : afterName word tokens = blanks ++ .openParen :: inside)
    (hgap : callGap? last (.read word tokens) (blanks ++ .openParen :: inside) =
      some blanks.length)
    (hinside : Reads none 0 inside arguments []) :
    Token.nesting? depth (.word word :: tokens) ≠ some 0 := by
  obtain ⟨inner, hinner, hle, -⟩ := hinside.nesting? (depth + 1)
  rw [Nat.zero_add] at hinner
  rw [nesting?_afterName, hafter, nesting?_blanks (isBlank_of_callGap? hgap), hinner]
  intro hzero
  cases hzero
  omega

/-- Tokens that are read to their end are read before others as they are read alone, unless a call
among them is open: what follows would stand in its arguments. -/
theorem Reads.append_or_open {last : Option Node} {depth : Nat} {tokens unread : List Token}
    {nodes : List Node} (h : Reads last depth tokens nodes unread) (hunread : unread = []) :
    (∃ inner, Token.nesting? depth tokens = some inner ∧
      ∀ {rest left : List Token} {outer : Nat} {more : List Node}, Parted tokens rest →
        Reads (lastOf last nodes) (inner + outer) rest more left →
          Reads last (depth + outer) (tokens ++ rest) (nodes ++ more) left) ∨
    (Token.nesting? depth tokens ≠ some 0 ∧ ∃ name blanks inside arguments,
      (∀ blank ∈ blanks, blank.isBlank = true) ∧ Reads none 0 inside arguments [] ∧
        callNode name blanks (regroup arguments) false ∈ nodes) := by
  induction h with
  | @done _ depth => exact .inl ⟨depth, rfl, fun _ hrest ↦ hrest⟩
  | stop => cases hunread
  | skip _ ih =>
    rw [Token.nesting?_cons]
    rcases ih hunread with ⟨inner, hnesting, happend⟩ | hopen
    · refine .inl ⟨inner, hnesting, fun hparted hrest ↦ ?_⟩
      exact .skip (happend (hparted.of_suffix (List.suffix_cons _ _)) hrest)
    · exact .inr hopen
  | leaf hnode hnest _ ih =>
    rw [Token.nesting?_cons, hnest, Option.bind_some]
    rcases ih hunread with ⟨inner, hnesting, happend⟩ | ⟨hnesting, name, blanks, inside, arguments,
      hblanks, hopen, hmem⟩
    · refine .inl ⟨inner, hnesting, fun {_ _ outer _} hparted hrest ↦ ?_⟩
      have htail := hparted.of_suffix (List.suffix_cons _ _)
      refine .leaf ?_ (Token.nestAfter?_add hnest outer) (happend htail hrest)
      exact (tokenNode?_append (.inr htail) _ _).trans hnode
    · exact .inr ⟨hnesting, name, blanks, inside, arguments, hblanks, hopen,
        List.mem_cons_of_mem _ hmem⟩
  | @name _ _ word tokens _ _ hrole hgap _ ih =>
    rw [nesting?_afterName]
    rcases ih hunread with ⟨inner, hnesting, happend⟩ | ⟨hnesting, name, blanks, inside, arguments,
      hblanks, hopen, hmem⟩
    · refine .inl ⟨inner, hnesting, fun hparted hrest ↦ ?_⟩
      have htail := hparted.of_suffix (List.suffix_cons _ _)
      have hafter := htail.of_suffix (afterName_suffix word tokens)
      exact name_append (.inr htail) (.inr hafter) hrole hgap (happend hafter hrest)
    · exact .inr ⟨hnesting, name, blanks, inside, arguments, hblanks, hopen,
        List.mem_cons_of_mem _ hmem⟩
  | call hrole hafter hgap hinside hnode h _ ih =>
    subst hnode
    rw [Reads.nesting?_call hafter hgap hinside]
    rcases ih hunread with ⟨inner, hnesting, happend⟩ | ⟨hnesting, name, blanks, inside, arguments,
      hblanks, hopen, hmem⟩
    · refine .inl ⟨inner, hnesting, fun {rest _ _ _} hparted hrest ↦ ?_⟩
      have htail := hparted.of_suffix (hinside.suffix_call hafter)
      exact call_append hrole hafter hgap (hinside.suffix.mem List.mem_cons_self)
        (hinside.append_of_stop List.mem_cons_self rest) (happend htail hrest)
    · exact .inr ⟨hnesting, name, blanks, inside, arguments, hblanks, hopen,
        List.mem_cons_of_mem _ hmem⟩
  | openCall _ hafter hgap hinside hnode _ =>
    subst hnode
    exact .inr ⟨Reads.nesting?_openCall hafter hgap hinside, _, _, _, _,
      isBlank_of_callGap? hgap, hinside, List.mem_singleton_self _⟩

/-- Tokens that end outside all parentheses are read before others as they are read alone. -/
theorem Reads.append {last : Option Node} {depth : Nat} {tokens : List Token} {nodes : List Node}
    (h : Reads last depth tokens nodes []) (hnesting : Token.nesting? depth tokens = some 0)
    {rest : List Token} (hparted : Parted tokens rest) {outer : Nat} {left : List Token}
    {more : List Node} (hrest : Reads (lastOf last nodes) outer rest more left) :
    Reads last (depth + outer) (tokens ++ rest) (nodes ++ more) left := by
  rcases h.append_or_open rfl with ⟨inner, hinner, happend⟩ | ⟨hopen, -⟩
  · obtain rfl : inner = 0 := Option.some.inj (hinner.symm.trans hnesting)
    apply happend hparted
    rwa [Nat.zero_add]
  · exact absurd hnesting hopen

/-! ### Parts at the front -/

/-- The tokens, read after `last` and before `rest`, make the nodes. -/
def Front (last : Option Node) (tokens rest : List Token) (nodes : List Node) : Prop :=
  ∀ (depth : Nat) (more : List Node) (left : List Token),
    Reads (lastOf last nodes) depth rest more left →
      Reads last depth (tokens ++ rest) (nodes ++ more) left

namespace Front

variable {last : Option Node} {tokens rest : List Token} {nodes : List Node}

/-- No tokens make no nodes. -/
theorem nil : Front last [] rest [] := fun _ _ _ h ↦ h

/-- A part after a part. -/
theorem append {more : List Token} {others : List Node}
    (hfirst : Front last tokens (more ++ rest) nodes)
    (hsecond : Front (lastOf last nodes) more rest others) :
    Front last (tokens ++ more) rest (nodes ++ others) := by
  intro depth following left h
  rw [List.append_assoc, List.append_assoc]
  apply hfirst
  apply hsecond
  rwa [lastOf_append] at h

/-- A token that makes a node on its own and is no parenthesis. -/
theorem leaf {token : Token} {node : Node} (hnode : tokenNode? last rest token = some node)
    (hopen : token ≠ .openParen) (hclose : token ≠ .closeParen) :
    Front last [token] rest [node] := by
  intro depth more left h
  refine .leaf hnode ?_ h
  cases token with
  | openParen => exact absurd rfl hopen
  | closeParen => exact absurd rfl hclose
  | _ => rfl

/-- Tokens with as many parentheses closed as opened, before what stands apart. -/
theorem of_reads (h : Reads last 0 tokens nodes []) (hnesting : Token.nesting? 0 tokens = some 0)
    (hparted : Parted tokens rest) : Front last tokens rest nodes := by
  intro depth more left hrest
  have happend := h.append hnesting hparted hrest
  rwa [Nat.zero_add] at happend

/-- The whole statement. -/
theorem statementNodes_eq (h : Front none tokens [] nodes) :
    statementNodes tokens = regroup nodes := by
  have hreads := h 0 [] [] .done
  rw [List.append_nil, List.append_nil] at hreads
  exact hreads.statementNodes_eq

end Front

end Grouping

end SqlFootprint
