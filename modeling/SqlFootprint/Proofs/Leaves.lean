import SqlFootprint.Proofs.Storing

/-!
# What leaves stand for

A leaf of a grouped statement stands for one token (`leafOf_tokenNode?`), or for the words, periods
and stars of a name (`leafOf_name`). Leaves stand for tokens in a row where nothing is left out but
ends of input (`LeavesOf`).
-/

namespace SqlFootprint

namespace Token

/-- The text of tokens in a row. -/
def shown (tokens : List Token) : String := String.join (tokens.map render)

/-- Two lists of tokens in a row are shown one after the other. -/
@[simp] theorem shown_append (first second : List Token) :
    shown (first ++ second) = shown first ++ shown second := by
  simp only [shown, List.map_append, String.join_append]

/-- Tokens are shown from the first on. -/
@[simp] theorem shown_cons (token : Token) (rest : List Token) :
    shown (token :: rest) = token.render ++ shown rest := by
  simp only [shown, List.map_cons, String.join_cons]

/-- The text of a token, of a word without its delimiters. -/
def value : Token → String
  | word w => w.value
  | token => token.render

/-- The text of tokens in a row, without the delimiters of words. -/
def valued (tokens : List Token) : String := String.join (tokens.map value)

/-- Tokens have their text from the first on. -/
@[simp] theorem valued_cons (token : Token) (rest : List Token) :
    valued (token :: rest) = token.value ++ valued rest := by
  simp only [valued, List.map_cons, String.join_cons]

/-- What follows the first word of a name: words, or a star at the end, each after a period. -/
inductive NameTail : List Token → Prop
  | nil : NameTail []
  | star : NameTail [.period, .star]
  | word (word : Word) {tail : List Token} : NameTail tail →
    NameTail (.period :: .word word :: tail)

private theorem NameTail.endOfInput_notMem {tail : List Token} (h : NameTail tail) :
    .endOfInput ∉ tail := by
  induction h with
  | nil => exact List.not_mem_nil
  | star => decide
  | word word _ ih => simpa using ih

end Token

namespace Grouping

/-! ### Leaves -/

/-- The leaf stands for the tokens: for one token, or for those of a name. -/
inductive LeafOf : List Token → Node → Prop
  | token {token : Token} {leaf : Node} : token ≠ .endOfInput → leaf.identifier? = none →
    leaf.text = token.render → LeafOf [token] leaf
  | name {word : Word} {tail : List Token} {leaf : Node} {identifier : Identifier} :
    Token.NameTail tail → leaf.identifier? = some identifier →
    identifier.fullName = Token.valued (.word word :: tail) →
    leaf.text = Token.shown (.word word :: tail) → LeafOf (.word word :: tail) leaf

/-- A leaf shows what it stands for, one token or more and no end of input. -/
theorem LeafOf.text_eq {run : List Token} {leaf : Node} (h : LeafOf run leaf) :
    leaf.text = Token.shown run ∧ run ≠ [] ∧ .endOfInput ∉ run := by
  cases h with
  | token hend _ htext =>
    refine ⟨?_, List.cons_ne_nil _ _, by simpa using hend.symm⟩
    rw [htext, Token.shown_cons]
    exact (String.append_empty).symm
  | name htail _ _ htext =>
    exact ⟨htext, List.cons_ne_nil _ _,
      List.not_mem_cons_of_ne_of_not_mem Token.noConfusion htail.endOfInput_notMem⟩

/-- The leaves stand for the tokens but for ends of input, in their order. -/
inductive LeavesOf : List Token → List Node → Prop
  | nil : LeavesOf [] []
  | skip {tokens : List Token} {leaves : List Node} :
    LeavesOf tokens leaves → LeavesOf (.endOfInput :: tokens) leaves
  | leaf {run tokens : List Token} {leaf : Node} {leaves : List Node} :
    LeafOf run leaf → LeavesOf tokens leaves → LeavesOf (run ++ tokens) (leaf :: leaves)

/-- Leaves of tokens in a row are leaves in a row. -/
theorem LeavesOf.append {first second : List Token} {leaves more : List Node}
    (hfirst : LeavesOf first leaves) (hsecond : LeavesOf second more) :
    LeavesOf (first ++ second) (leaves ++ more) := by
  induction hfirst with
  | nil => exact hsecond
  | skip _ ih => exact .skip ih
  | leaf hleaf _ ih =>
    rw [List.append_assoc, List.cons_append]
    exact .leaf hleaf ih

/-- The leaves of the nodes stand for the tokens. -/
def Yields (tokens : List Token) (nodes : List Node) : Prop :=
  LeavesOf tokens (Node.leavesOfAll nodes)

/-! ### Tokens on their own and names -/

private theorem identifier?_plainNode (token : Token) : (plainNode token).identifier? = none := by
  unfold plainNode
  split
  · rfl
  · split
    · rfl
    · rfl

private theorem identifier?_of_tokenNode? {last : Option Node} {rest : List Token} {token : Token}
    {node : Node} (h : tokenNode? last rest token = some node) : node.identifier? = none := by
  cases token with
  | endOfInput => cases h
  | word word =>
    simp only [tokenNode?] at h
    split at h
    · cases h
      rfl
    · cases h
      rfl
    · cases h
  | star =>
    cases h
    unfold starNode
    split
    · rfl
    · rfl
  | _ =>
    cases h
    exact identifier?_plainNode _

/-- The node that a token makes on its own stands for the token. -/
theorem leafOf_tokenNode? {last : Option Node} {rest : List Token} {token : Token} {node : Node}
    (h : tokenNode? last rest token = some node) : LeafOf [token] node := by
  have hname := identifier?_of_tokenNode? h
  obtain ⟨hend, kind, rfl, -⟩ := tokenNode?_eq_leaf h
  exact .token hend hname rfl

/-- The node of a blank stands for the blank. -/
theorem leafOf_blank {blank : Token} (h : blank.isBlank = true) :
    LeafOf [blank] (.leaf .blank blank.render) := by
  refine .token ?_ rfl rfl
  rintro rfl
  cases h

/-- The tokens after the first word of a name are its further parts, each after a period. -/
theorem nameTail_take_furtherParts (tokens : List Token) :
    Token.NameTail (tokens.take (2 * (furtherParts tokens).length)) ∧
      Token.shown (tokens.take (2 * (furtherParts tokens).length)) =
        String.join ((furtherParts tokens).map fun part ↦ "." ++ part.text) ∧
      Token.valued (tokens.take (2 * (furtherParts tokens).length)) =
        String.join ((furtherParts tokens).map fun part ↦ "." ++ part.value) := by
  induction tokens using furtherParts.induct with
  | case1 word rest hstar =>
    refine ⟨?_, ?_, ?_⟩
    · simpa [furtherParts, hstar] using Token.NameTail.word word .nil
    · simp [furtherParts, hstar, Token.render, NamePart.ofWord, Token.shown]
    · simp [furtherParts, hstar, Token.render, Token.value, NamePart.ofWord, Token.valued]
  | case2 word rest hstar ih =>
    obtain ⟨htail, hshown, hvalued⟩ := ih
    simp only [furtherParts, hstar, ↓reduceIte, List.length_cons, Nat.mul_succ,
      List.take_succ_cons, Token.shown_cons, Token.valued_cons, List.map_cons, String.join_cons,
      hshown, hvalued]
    refine ⟨.word word htail, ?_, ?_⟩
    · simp [NamePart.ofWord, Token.render, String.append_assoc]
    · simp [NamePart.ofWord, Token.render, Token.value, String.append_assoc]
  | case3 rest =>
    refine ⟨?_, ?_, ?_⟩
    · simpa [furtherParts] using Token.NameTail.star
    · simp [furtherParts, Token.shown, Token.render]
    · simp [furtherParts, Token.valued, Token.value, Token.render]
  | case4 tokens hword hstar =>
    rw [furtherParts]
    · simpa [Token.shown, Token.valued] using Token.NameTail.nil
    · exact hword
    · exact hstar

/-- Texts with periods between them are the first and then the others, each after a period. -/
theorem intercalate_eq_join (first : String) (rest : List String) :
    ".".intercalate (first :: rest) = first ++ String.join (rest.map ("." ++ ·)) := by
  induction rest generalizing first with
  | nil => simp
  | cons next rest ih =>
    rw [String.intercalate_cons_cons, ih, List.map_cons, String.join_cons]
    simp only [String.append_assoc]

/-- The tokens of a name have its full name. -/
theorem valued_name (word : Word) (rest : List Token) :
    Token.valued (.word word :: rest.take (DottedName.read word rest).furtherTokens) =
      (DottedName.read word rest).identifier.fullName := by
  obtain ⟨-, -, hvalued⟩ := nameTail_take_furtherParts rest
  rw [Token.valued_cons, DottedName.furtherTokens, DottedName.read, hvalued,
    DottedName.identifier_fullName, DottedName.joined, DottedName.parts, List.map_cons,
    intercalate_eq_join, List.map_map]
  rfl

/-- The node of a name stands for the tokens of the name. -/
theorem leafOf_name (word : Word) (rest : List Token) :
    LeafOf (.word word :: rest.take (DottedName.read word rest).furtherTokens)
      (DottedName.read word rest).node := by
  obtain ⟨htail, hshown, -⟩ := nameTail_take_furtherParts rest
  refine .name htail rfl (valued_name word rest).symm ?_
  rw [Token.shown_cons, DottedName.furtherTokens, DottedName.read, hshown, DottedName.node,
    Node.text_leaf, DottedName.joined, DottedName.parts, List.map_cons, intercalate_eq_join,
    List.map_map]
  rfl

end Grouping

end SqlFootprint
