import SqlFootprint.Proofs.Outside
import SqlFootprint.Proofs.Scripts

/-!
# The kind of a statement, read off its tokens

A statement is classified by the nodes outside its calls. `statementKind_eq_ofTokens` says that a
plain scan of the tokens which counts all parentheses gives the same kind.
-/

namespace SqlFootprint

open Grouping

namespace Token

/-- The token is the given word without delimiters, in any case. -/
def isWord (token : Token) (text : String) : Bool :=
  match token with
  | word ⟨value, none⟩ => Text.sameWord value text
  | _ => false

end Token

namespace StatementKind

/-- The kind that a word without delimiters names. -/
def ofToken? : Token → Option StatementKind
  | .word ⟨value, none⟩ => ofKeyword? value
  | _ => none

/-- The kind that the first word names; behind `WITH`, the first word outside all parentheses that
names one. -/
def ofTokens (tokens : List Token) : StatementKind :=
  match tokens.dropWhile Token.isBlank with
  | [] => unknown
  | first :: rest =>
    match ofToken? first with
    | some kind => kind
    | none =>
      if first.isWord "WITH" then ((Token.outside 0 rest).findSome? ofToken?).getD unknown
      else unknown

private theorem startsClause_of_ofKeyword? {text : String} {kind : StatementKind}
    (h : ofKeyword? text = some kind) : Keyword.startsClause text = true := by
  have hkinds : ∀ kind ∈ named, Keyword.startsClause kind.word = true := by decide
  have hfound : Text.sameWord kind.word text = true :=
    List.find?_some (p := fun kind : StatementKind ↦ Text.sameWord kind.word text) h
  have hsame := Text.sameWord_iff.1 hfound
  have hstarts := hkinds kind (List.mem_of_find?_eq_some h)
  simp only [Keyword.startsClause, Keyword.isStructural, Keyword.isCallable, Text.listed,
    Text.sameWord, hsame] at hstarts ⊢
  exact hstarts

end StatementKind

namespace Grouping

/-! ### Keywords as marks -/

section

variable {α : Type} (mark : String → Option α)

/-- A keyword of a statement is marked by its text. -/
def keywordMark (node : Node) : Option α := if node.isAnyKeyword then mark node.text else none

/-- A word without delimiters is marked by its value. -/
def wordMark : Token → Option α
  | .word ⟨value, none⟩ => mark value
  | _ => none

variable {mark}

private theorem isLiteral_of_wordRole {word : Word} {rest : List Token}
    (h : wordRole word rest = .value) : Keyword.isLiteral word.value = true := by
  unfold wordRole at h
  split at h
  · cases h
  · split at h
    · next hliteral => exact hliteral
    · split at h
      · cases h
      · cases h

private theorem mark_eq_none (h : ∀ {text : String}, (mark text).isSome = true →
    Keyword.startsClause text = true) {text : String} (hliteral : Keyword.isLiteral text = true) :
    mark text = none := by
  cases hmark : mark text with
  | none => rfl
  | some a =>
    have hstarts := Keyword.of_startsClause (h (by rw [hmark]; rfl))
    rw [Keyword.isLiteral_of_isStructural hstarts.1] at hliteral
    cases hliteral

private theorem keywordMark_plainNode (token : Token) : keywordMark mark
    (plainNode token) = none := by
  unfold plainNode
  split
  · rfl
  · split
    · rfl
    · rfl

/-- Words that start clauses are marked as keywords are. -/
theorem marks_keyword (h : ∀ {text : String}, (mark text).isSome = true →
    Keyword.startsClause text = true) : Marks (keywordMark mark) (wordMark mark) where
  leaf {last rest token node} hnode := by
    cases token with
    | word word =>
      simp only [tokenNode?] at hnode
      split at hnode
      · next hrole =>
        have hquote := quote_eq_none_of_wordRole fun hname ↦
          WordRole.noConfusion (hrole.symm.trans hname)
        have hnone := mark_eq_none h (isLiteral_of_wordRole hrole)
        obtain ⟨value, quote⟩ := word
        cases hnode
        cases hquote
        exact hnone.symm
      · next hrole =>
        have hquote := quote_eq_none_of_wordRole fun hname ↦
          WordRole.noConfusion (hrole.symm.trans hname)
        obtain ⟨value, quote⟩ := word
        cases hnode
        cases hquote
        rfl
      · cases hnode
    | endOfInput => cases hnode
    | star =>
      cases hnode
      unfold starNode
      split
      · rfl
      · rfl
    | _ =>
      cases hnode
      exact keywordMark_plainNode _
  barrier node hmark := by
    unfold keywordMark at hmark
    split at hmark
    · next hkeyword =>
      obtain ⟨-, -, has⟩ := Keyword.of_startsClause (h hmark)
      have hnot : node.isKeyword "AS" = false := by rw [Node.isKeyword, has, Bool.and_false]
      exact ⟨isBarrier_of_isAnyKeyword hkeyword hnot, .inl hkeyword⟩
    · cases hmark
  name {word rest} hrole := by
    obtain ⟨value, quote⟩ := word
    cases quote with
    | some quote => rfl
    | none =>
      cases hmark : mark value with
      | none => exact hmark
      | some a =>
        have hstarts := Keyword.of_startsClause (h (by rw [hmark]; rfl))
        rw [wordRole_eq_keyword hstarts.1 fun _ ↦ hstarts.2.1] at hrole
        cases hrole
  silent := by simp [wordMark]

end

end Grouping

/-! ### The kind of a statement -/

/-- Tokens that are blanks, as a list of blanks. -/
theorem Blank.exists_tokens_eq {tokens : List Token} (h : ∀ token ∈ tokens, token.isBlank = true) :
    ∃ blanks, tokens = Blank.tokens blanks := by
  induction tokens with
  | nil => exact ⟨[], rfl⟩
  | cons token rest ih =>
    rw [List.forall_mem_cons] at h
    obtain ⟨blanks, rfl⟩ := ih h.2
    cases token with
    | blank blank => exact ⟨blank :: blanks, rfl⟩
    | _ => cases h.1

namespace StatementKind

/-- The keywords that name kinds are marks. -/
theorem marks_ofNode? : Marks ofNode? ofToken? :=
  marks_keyword fun {text} h ↦
    @startsClause_of_ofKeyword? text ((ofKeyword? text).get h) (Option.some_get h).symm

/-- The word `WITH`, as a mark. -/
def withMark (text : String) : Option Unit := if Text.sameWord text "WITH" then some () else none

/-- The keyword `WITH` is a mark. -/
theorem marks_with : Marks (keywordMark withMark) (wordMark withMark) := by
  refine marks_keyword fun {text} h ↦ ?_
  unfold withMark at h
  split at h
  · next hsame =>
    rw [Text.sameWord_iff] at hsame
    have hwith : Keyword.startsClause "WITH" = true := by decide
    simp only [Keyword.startsClause, Keyword.isStructural, Keyword.isCallable, Text.listed,
      Text.sameWord, hsame] at hwith ⊢
    exact hwith
  · cases h

/-- A node is the keyword `WITH` where it is marked. -/
theorem isSome_keywordMark (node : Node) :
    (keywordMark withMark node).isSome = node.isKeyword "WITH" := by
  rw [keywordMark, Node.isKeyword]
  cases node.isAnyKeyword with
  | false => rfl
  | true =>
    rw [if_pos rfl, withMark, Bool.true_and]
    cases Text.sameWord node.text "WITH" with
    | false => rfl
    | true => rfl

/-- A token is the word `WITH` where it is marked. -/
theorem isSome_wordMark (token : Token) :
    (wordMark withMark token).isSome = token.isWord "WITH" := by
  unfold wordMark Token.isWord
  split
  · next value =>
    rw [withMark]
    cases Text.sameWord value "WITH" with
    | false => rfl
    | true => rfl
  · rfl

private theorem ofNode?_of_isPunctuation {node : Node} {text : String}
    (h : node.isPunctuation text = true) : ofNode? node = none := by
  have hmark : node.isAnyPunctuation = true := (Bool.and_eq_true_iff.1 h).1
  cases node with
  | mk kind shown children =>
    cases kind with
    | punctuation => rfl
    | _ => cases hmark

private theorem firstOutside_eq (depth : Nat) (nodes : List Node) :
    firstOutside depth nodes = ((Node.outside depth nodes).findSome? ofNode?).getD unknown := by
  induction nodes generalizing depth with
  | nil => rfl
  | cons node rest ih =>
    rw [firstOutside, Node.outside, Node.depthAfter]
    by_cases hopen : node.isPunctuation "(" = true
    · rw [if_pos hopen, if_pos hopen, ih]
      split
      · rw [List.findSome?_cons, ofNode?_of_isPunctuation hopen]
      · rfl
    · rw [if_neg hopen, if_neg hopen]
      by_cases hclose : node.isPunctuation ")" = true
      · rw [if_pos hclose, if_pos hclose, ih]
        split
        · rw [List.findSome?_cons, ofNode?_of_isPunctuation hclose]
        · rfl
      · rw [if_neg hclose, if_neg hclose, ih]
        by_cases hdepth : depth = 0
        · rw [if_pos hdepth, if_pos hdepth, List.findSome?_cons]
          cases ofNode? node with
          | none => rfl
          | some kind => rfl
        · rw [if_neg hdepth, if_neg hdepth]

end StatementKind

/-- Behind `WITH`, the nodes of a statement name the kind that its tokens name. -/
theorem StatementKind.firstOutside_with {token : Token} {rest : List Token} {first : Node}
    {after : List Node} (hnodes : statementNodes (token :: rest) = first :: after)
    (hkind : ofNode? first = ofToken? token) (hkeyword : first.isKeyword "WITH" = true)
    (hword : token.isWord "WITH" = true) (hnone : ofToken? token = none)
    (hperiod : ClearOfPeriods ofToken? (token :: rest)) :
    firstOutside 0 after = ((Token.outside 0 rest).findSome? ofToken?).getD unknown := by
  have hmarks := marks_ofNode?.outside_statementNodes hperiod
  have hparen : first.isParen = false := by
    obtain ⟨kind, text, children⟩ := first
    cases kind with
    | keyword => rfl
    | _ => cases hkeyword
  have hnode : Node.outside 0 (first :: after) = first :: Node.outside 0 after := by
    rw [Node.outside, Node.depthAfter_of_not_isParen hparen, if_pos rfl]
  have htoken : Token.outside 0 (token :: rest) = token :: Token.outside 0 rest := by
    cases token with
    | word word => rfl
    | _ => cases hword
  rw [hnodes, hnode, htoken, List.filterMap_cons_none (hkind.trans hnone),
    List.filterMap_cons_none hnone] at hmarks
  rw [firstOutside_eq, ← List.head?_filterMap, hmarks, List.head?_filterMap]

/-- The kind of a statement is that which a scan of its tokens finds: the first token that is no
blank names it or, if that is `WITH`, the first word outside all parentheses that names one. No word
that names a kind may stand right behind a period, where it would be the part of a name. -/
theorem statementKind_eq_ofTokens {tokens : List Token} (hend : .endOfInput ∉ tokens)
    (hperiod : ClearOfPeriods StatementKind.ofToken? tokens) :
    (groupStatement tokens).statementKind = .ofTokens tokens := by
  rw [TokenTree.statementKind, nodes_groupStatement]
  rcases blanks_or_split tokens with hall | ⟨blanks, token, rest, rfl, hblanks, htoken⟩
  · obtain ⟨blanks, rfl⟩ := Blank.exists_tokens_eq hall
    have hempty : statementNodes [] = [] := Reads.done.statementNodes_eq.trans regroup_nil
    have hnodes := statementNodes_blanks_append blanks []
    rw [List.append_nil, hempty] at hnodes
    have hdrop : (Blank.tokens blanks ++ []).dropWhile Token.isBlank = [] :=
      List.dropWhile_append_of_pos hall
    rw [List.append_nil] at hdrop
    rw [hnodes, StatementKind.ofNodes_blanks_append, StatementKind.ofTokens, hdrop]
    rfl
  · obtain ⟨blanks, rfl⟩ := Blank.exists_tokens_eq hblanks
    have hsolid : token ≠ .endOfInput := by
      rintro rfl
      exact hend (by simp)
    obtain ⟨first, after, hnodes, hfirst, hkind⟩ :=
      StatementKind.marks_ofNode?.exists_head htoken hsolid rest
    obtain ⟨other, more, hothers, -, hmark⟩ :=
      StatementKind.marks_with.exists_head htoken hsolid rest
    obtain ⟨rfl, rfl⟩ := List.cons_eq_cons.1 (hnodes.symm.trans hothers)
    have hwith := congrArg Option.isSome hmark
    rw [StatementKind.isSome_keywordMark, StatementKind.isSome_wordMark] at hwith
    rw [statementNodes_blanks_append, StatementKind.ofNodes_blanks_append, hnodes,
      StatementKind.ofNodes, StatementKind.ofTokens, List.dropWhile_append_of_pos hblanks,
      List.dropWhile_cons_of_neg (by simp [hfirst]), List.dropWhile_cons_of_neg (by simp [htoken])]
    simp only [hkind, hwith]
    cases hnone : StatementKind.ofToken? token with
    | some kind => rfl
    | none =>
      by_cases hword : token.isWord "WITH" = true
      · simp only [hword, ↓reduceIte]
        exact StatementKind.firstOutside_with hnodes hkind (hwith.trans hword) hword hnone
          (hperiod.of_suffix (List.suffix_append _ _))
      · simp only [hword, Bool.false_eq_true, ↓reduceIte]

/-- The tokens of `WITH f(DELETE)) UPDATE a.b (SELECT`, which close one parenthesis too many and
leave another open. -/
def Token.unbalanced : List Token := [
  .word ⟨"WITH", none⟩, .blank .space, .word ⟨"f", none⟩, .openParen, .word ⟨"DELETE", none⟩,
  .closeParen, .closeParen, .blank .space, .word ⟨"UPDATE", none⟩, .blank .space,
  .word ⟨"a", none⟩, .period, .word ⟨"b", none⟩, .blank .space, .openParen, .word ⟨"SELECT", none⟩]

/-- The kind of a statement is read off tokens whose parentheses do not match. -/
theorem statementKind_eq_ofTokens_unbalanced :
    .endOfInput ∉ Token.unbalanced ∧ ClearOfPeriods StatementKind.ofToken? Token.unbalanced ∧
      (groupStatement Token.unbalanced).statementKind = .update := by
  have hend : .endOfInput ∉ Token.unbalanced := by decide
  have hperiod : ClearOfPeriods StatementKind.ofToken? Token.unbalanced := by
    intro before word after heq
    have hword : word = ⟨"b", none⟩ := by
      simp [Token.unbalanced, List.cons_eq_append_iff] at heq
      grind
    subst hword
    rfl
  exact ⟨hend, hperiod, statementKind_eq_ofTokens hend hperiod⟩

end SqlFootprint
