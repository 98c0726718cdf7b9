import Mathlib.Logic.Relation
import SqlFootprint.Proofs.GistFindings
import SqlFootprint.Proofs.GistGrouping
import SqlFootprint.Proofs.Nesting

/-!
# Blanks, values and the case of keywords

A statement is restyled by changing the blanks between its tokens, comments among them, the values
in it and the case of its keywords (`Restyles`). Two such statements are read in lockstep: `Alike`
pairs their tokens, the front of one is read as the front of the other (`Reads.alike`), and what
they are grouped to has the same gists. So they are of the same kind and refer to the same tables
and the same columns, up to the texts of calls and cases (`findings_restyled`).
-/

namespace SqlFootprint

open Node Grouping

/-- One change of style. A keyword right after a period is a part of a dotted name, and `LEFT` or
`RIGHT` right before a parenthesis names a call; these keep their case. -/
inductive Restyles : List Token → List Token → Prop
  /-- Blanks are replaced by others, but not removed. -/
  | blanks (before after : List Token) {run other : List Blank} (hrun : run ≠ [])
      (hother : other ≠ []) :
    Restyles (before ++ Blank.tokens run ++ after) (before ++ Blank.tokens other ++ after)
  /-- A value is replaced by another. -/
  | literal (before after : List Token) {token other : Token} (htoken : token.isLiteral = true)
      (hother : other.isLiteral = true) :
    Restyles (before ++ token :: after) (before ++ other :: after)
  /-- The case of the letters of a keyword is changed. -/
  | keyword (before after : List Token) {text other : String}
      (hkeyword : Keyword.isStructural text = true) (hsame : Text.sameWord text other = true)
      (hperiod : before.getLast? ≠ some .period)
      (hcall : after.head? = some .openParen → Keyword.isCallable text = false) :
    Restyles (before ++ .word ⟨text, none⟩ :: after) (before ++ .word ⟨other, none⟩ :: after)

/-! ### Tokens in pairs -/

/-- A value is no blank. -/
theorem Token.isBlank_of_isLiteral {token : Token} (h : token.isLiteral = true) :
    token.isBlank = false := by
  cases token with
  | blank => cases h
  | _ => rfl

/-- The marks that shape a statement, and the end of the input. -/
def Token.isMark : Token → Bool
  | openParen | closeParen | comma | semicolon | period | star | endOfInput => true
  | _ => false

private theorem Token.isLiteral_of_isMark {token : Token} (h : token.isMark = true) :
    token.isLiteral = false := by
  cases token <;> first | rfl | cases h

private theorem Blank.isBlank_tokens (blanks : List Blank) :
    ∀ token ∈ tokens blanks, token.isBlank = true := by
  intro token hmem
  obtain ⟨blank, -, rfl⟩ := List.mem_map.1 hmem
  rfl

/-- Two token lists differ only in style; `joined` where a period stands right before them. -/
inductive Alike : Bool → List Token → List Token → Prop
  | nil {joined : Bool} : Alike joined [] []
  | same {joined : Bool} (token : Token) {rest others : List Token} :
    Alike (token == .period) rest others → Alike joined (token :: rest) (token :: others)
  | blanks {joined : Bool} (first second : Blank) (run other : List Blank)
      {rest others : List Token} :
    Alike false rest others → Alike joined (.blank first :: (Blank.tokens run ++ rest))
      (.blank second :: (Blank.tokens other ++ others))
  | literal {joined : Bool} {token other : Token} {rest others : List Token} :
    token.isLiteral = true → other.isLiteral = true → Alike false rest others →
    Alike joined (token :: rest) (other :: others)
  | keyword {text other : String} {rest others : List Token} :
    Keyword.isStructural text = true → Text.folded text = Text.folded other →
    (rest.head? = some .openParen → Keyword.isCallable text = false) → Alike false rest others →
    Alike false (.word ⟨text, none⟩ :: rest) (.word ⟨other, none⟩ :: others)

namespace Alike

variable {joined : Bool} {tokens rest others : List Token}

private theorem refl (joined : Bool) (tokens : List Token) : Alike joined tokens tokens := by
  induction tokens generalizing joined with
  | nil => exact .nil
  | cons token rest ih => exact .same token (ih _)

private theorem append (before : List Token)
    (h : Alike (before.foldl (fun _ token ↦ token == .period) joined) tokens others) :
    Alike joined (before ++ tokens) (before ++ others) := by
  induction before generalizing joined with
  | nil => exact h
  | cons token before ih => exact .same token (ih h)

/-- A parenthesis that opens stands before one list if it stands before the other. -/
theorem head?_openParen (h : Alike joined tokens others) (hopen : others.head? = some .openParen) :
    tokens.head? = some .openParen := by
  cases h with
  | nil => exact hopen
  | same token _ => exact hopen
  | blanks => cases hopen
  | literal _ hother _ =>
    cases hopen
    cases hother
  | keyword => cases hopen

/-- A keyword in another case is a keyword, and is so before tokens that are alike. -/
theorem keyword_recased {text other : String} (h : Alike joined rest others)
    (hkeyword : Keyword.isStructural text = true) (hfolded : Text.folded text = Text.folded other)
    (hcall : rest.head? = some .openParen → Keyword.isCallable text = false) :
    Keyword.isStructural other = true ∧
      (others.head? = some .openParen → Keyword.isCallable other = false) := by
  rw [Keyword.isStructural, Keyword.isCallable, ← Text.listed_congr hfolded,
    ← Text.listed_congr hfolded]
  exact ⟨hkeyword, fun hopen ↦ hcall (h.head?_openParen hopen)⟩

/-- What is alike is so both ways. -/
theorem symm (h : Alike joined tokens others) : Alike joined others tokens := by
  induction h with
  | nil => exact .nil
  | same token _ ih => exact .same token ih
  | blanks first second run other _ ih => exact .blanks second first other run ih
  | literal htoken hother _ ih => exact .literal hother htoken ih
  | keyword hkeyword hfolded hcall h ih =>
    obtain ⟨hkeyword, hcall⟩ := h.keyword_recased hkeyword hfolded hcall
    exact .keyword hkeyword hfolded.symm hcall ih

/-- A word is before a parenthesis what it is before tokens that are alike. -/
theorem wordRole_eq (h : Alike joined rest others) (word : Word) :
    wordRole word others = wordRole word rest := by
  have hopen : (others.head? == some .openParen) = (rest.head? == some .openParen) := by
    rw [Bool.eq_iff_iff, beq_iff_eq, beq_iff_eq]
    exact ⟨h.head?_openParen, h.symm.head?_openParen⟩
  rw [wordRole, hopen, wordRole]

private theorem of_word {word : Word} (h : Alike true (.word word :: rest) others) :
    ∃ more, others = .word word :: more ∧ Alike false rest more := by
  cases h with
  | same _ h => exact ⟨_, rfl, h⟩
  | literal htoken => cases htoken

private theorem of_name {word : Word} (h : Alike joined (.word word :: rest) others)
    (hrole : wordRole word rest = .name) :
    ∃ more, others = .word word :: more ∧ Alike false rest more := by
  cases h with
  | same _ h => exact ⟨_, rfl, h⟩
  | literal htoken => cases htoken
  | keyword hkeyword _ hcall => cases (wordRole_eq_keyword hkeyword hcall).symm.trans hrole

/-- The same mark stands before tokens that are alike. -/
theorem of_mark {mark : Token} (h : Alike joined (mark :: rest) others)
    (hmark : mark.isMark = true) :
    ∃ more, others = mark :: more ∧ Alike (mark == .period) rest more := by
  cases h with
  | same _ h => exact ⟨_, rfl, h⟩
  | blanks => cases hmark
  | literal htoken => cases htoken.symm.trans (Token.isLiteral_of_isMark hmark)
  | keyword => cases hmark

/-- Nothing is like no tokens but no tokens. -/
theorem eq_nil (h : Alike joined [] others) : others = [] := by
  cases h
  rfl

private theorem furtherParts_eq (h : Alike false rest others) :
    furtherParts others = furtherParts rest ∧
      Alike false (rest.drop (2 * (furtherParts rest).length))
        (others.drop (2 * (furtherParts rest).length)) := by
  induction rest using furtherParts.induct generalizing others with
  | case1 word rest hstar =>
    obtain ⟨more, rfl, hperiod⟩ := h.of_mark rfl
    obtain ⟨more, rfl, hrest⟩ := hperiod.of_word
    have hparts (after : List Token) :
        furtherParts (.period :: .word word :: after) = [.ofWord word] := by
      rw [furtherParts, if_pos hstar]
    rw [hparts, hparts]
    exact ⟨rfl, hrest⟩
  | case2 word rest hstar ih =>
    obtain ⟨more, rfl, hperiod⟩ := h.of_mark rfl
    obtain ⟨more, rfl, hrest⟩ := hperiod.of_word
    have hparts (after : List Token) :
        furtherParts (.period :: .word word :: after) = .ofWord word :: furtherParts after := by
      rw [furtherParts, if_neg hstar]
    obtain ⟨hmore, hdrop⟩ := ih hrest
    rw [hparts, hparts, hmore]
    exact ⟨rfl, hdrop⟩
  | case3 rest =>
    obtain ⟨more, rfl, hperiod⟩ := h.of_mark rfl
    obtain ⟨more, rfl, hrest⟩ := hperiod.of_mark rfl
    exact ⟨rfl, hrest⟩
  | case4 tokens hword hstar =>
    have hnone : furtherParts others = [] := by
      apply furtherParts.eq_3
      · rintro word more rfl
        obtain ⟨_, rfl, hperiod⟩ := h.symm.of_mark rfl
        obtain ⟨_, rfl, -⟩ := hperiod.of_word
        exact hword _ _ rfl
      · rintro more rfl
        obtain ⟨_, rfl, hperiod⟩ := h.symm.of_mark rfl
        obtain ⟨_, rfl, -⟩ := hperiod.of_mark rfl
        exact hstar _ rfl
    rw [hnone, furtherParts.eq_3 tokens hword hstar]
    exact ⟨rfl, h⟩

private theorem read_eq (h : Alike false rest others) (word : Word) :
    DottedName.read word others = DottedName.read word rest ∧
      Alike false (afterName word rest) (afterName word others) := by
  obtain ⟨hparts, hdrop⟩ := h.furtherParts_eq
  have hread : DottedName.read word others = DottedName.read word rest := by
    rw [DottedName.read, hparts, DottedName.read]
  refine ⟨hread, ?_⟩
  rw [afterName, afterName, hread]
  exact hdrop

private theorem of_openParen {blanks inside : List Token}
    (h : Alike joined (blanks ++ .openParen :: inside) others)
    (hblanks : ∀ blank ∈ blanks, blank.isBlank = true) :
    ∃ gap more, others = gap ++ .openParen :: more ∧ (∀ blank ∈ gap, blank.isBlank = true) ∧
      Alike false inside more := by
  induction blanks generalizing joined others with
  | nil =>
    obtain ⟨more, rfl, hinside⟩ := h.of_mark rfl
    exact ⟨[], more, rfl, nofun, hinside⟩
  | cons blank blanks ih =>
    rw [List.forall_mem_cons] at hblanks
    rw [List.cons_append] at h
    generalize blanks ++ .openParen :: inside = tokens at h ih
    cases h with
    | same _ h =>
      obtain ⟨gap, more, rfl, hgap, hinside⟩ := ih h hblanks.2
      exact ⟨blank :: gap, more, rfl, List.forall_mem_cons.2 ⟨hblanks.1, hgap⟩, hinside⟩
    | literal hliteral =>
      rw [Token.isBlank_of_isLiteral hliteral] at hblanks
      cases hblanks.1
    | keyword => cases hblanks.1
    | blanks first second run other h =>
      -- A run of blanks is replaced as a whole, so the induction steps through the rest of it.
      cases run with
      | nil =>
        obtain ⟨gap, more, rfl, hgap, hinside⟩ := ih h hblanks.2
        refine ⟨Blank.tokens (second :: other) ++ gap, more, ?_, ?_, hinside⟩
        · rw [List.append_assoc]
          rfl
        · exact List.forall_mem_append.2 ⟨Blank.isBlank_tokens _, hgap⟩
      | cons next run =>
        have hrest : Alike false (.blank next :: (Blank.tokens run ++ _)) _ :=
          .blanks next second run other h
        exact ih hrest hblanks.2

/-- A call stays one before arguments that are alike. -/
theorem callGap?_eq_some {last : Option Node} {name : DottedName} {blanks inside : List Token}
    (h : Alike joined (blanks ++ .openParen :: inside) others)
    (hgap : callGap? last name (blanks ++ .openParen :: inside) = some blanks.length) :
    ∃ gap more, others = gap ++ .openParen :: more ∧
      callGap? last name (gap ++ .openParen :: more) = some gap.length ∧
      Alike false inside more := by
  have hblanks := isBlank_of_callGap? hgap
  obtain ⟨gap, more, rfl, hother, hinside⟩ := h.of_openParen hblanks
  have hzero : gap.length = 0 ↔ blanks.length = 0 := by
    have hdirect {first : List Token} (rest : List Token)
        (hfirst : ∀ blank ∈ first, blank.isBlank = true) :
        (first ++ .openParen :: rest).head? = some .openParen ↔ first.length = 0 := by
      cases first with
      | nil => simp
      | cons blank first =>
        rw [List.forall_mem_cons] at hfirst
        constructor
        · intro hhead
          cases hhead
          cases hfirst.1
        · nofun
    rw [← hdirect more hother, ← hdirect inside hblanks]
    exact ⟨h.head?_openParen, h.symm.head?_openParen⟩
  refine ⟨gap, more, rfl, ?_, hinside⟩
  have hbefore : gapBefore (blanks ++ .openParen :: inside) = blanks.length :=
    gapBefore_append_cons inside hblanks rfl
  have hafter : gapBefore (gap ++ .openParen :: more) = gap.length :=
    gapBefore_append_cons more hother rfl
  unfold callGap? at hgap ⊢
  simp only [hbefore, List.drop_left, List.head?_cons, true_and, Option.ite_none_left_eq_some,
    Option.ite_none_right_eq_some] at hgap
  simp only [hafter, List.drop_left, List.head?_cons, true_and, Option.ite_none_left_eq_some,
    Option.ite_none_right_eq_some, hzero]
  exact ⟨hgap.1, hgap.2.1, hgap.2.2.1, trivial⟩

private theorem callGap?_eq_none {last : Option Node} {name : DottedName}
    (h : Alike joined rest others)
    (hgap : callGap? last name rest = none) : callGap? last name others = none := by
  cases hother : callGap? last name others with
  | none => rfl
  | some gap =>
    obtain ⟨blanks, inside, rfl, rfl, -⟩ := Grouping.callGap?_eq_some hother
    obtain ⟨_, _, rfl, hsome, -⟩ := h.symm.callGap?_eq_some hother
    cases hgap.symm.trans hsome

end Alike

/-! ### Reading in lockstep -/

namespace Grouping

/-- A level reads the same after nodes with the same gist. -/
theorem Reads.congr_gist {last other : Option Node} {depth : Nat} {tokens left : List Token}
    {nodes : List Node} (h : Reads last depth tokens nodes left)
    (hgist : last.map gist = other.map gist) : Reads other depth tokens nodes left := by
  have hany {p : Node → Bool} (hp : ∀ node, p node.gist = p node) : last.any p = other.any p := by
    have hmap (found : Option Node) : (found.map gist).any p = found.any p := by
      rw [Option.any_map]
      simp only [hp]
    rw [← hmap, hgist, hmap]
  refine h.congr_last (fun word ↦ hany fun node ↦ isKeyword_gist node word) (hany fun node ↦ ?_)
  rw [isOperand_gist, isPunctuation_gist]

private theorem tokenNode?_alike {joined : Bool} {rest others : List Token}
    (h : Alike joined rest others)
    (last : Option Node) (token : Token) :
    tokenNode? last others token = tokenNode? last rest token := by
  cases token with
  | word word => simp only [tokenNode?, h.wordRole_eq]
  | _ => rfl

private theorem tokenNode?_isLiteral {token : Token} (h : token.isLiteral = true)
    (last : Option Node)
    (rest : List Token) : tokenNode? last rest token = some (.leaf .literal token.render) := by
  have hplain : plainNode token = .leaf .literal token.render := by
    rw [plainNode, Token.isBlank_of_isLiteral h, if_neg Bool.false_ne_true, if_pos h]
  cases token with
  | number => exact congrArg some hplain
  | string => exact congrArg some hplain
  | dollarString => exact congrArg some hplain
  | placeholder => exact congrArg some hplain
  | _ => cases h

private theorem nestAfter?_isLiteral {token : Token} (h : token.isLiteral = true) (depth : Nat) :
    token.nestAfter? depth = some depth := by
  cases token with
  | openParen => cases h
  | closeParen => cases h
  | _ => rfl

/-- What is read of tokens is read of tokens that are alike, up to gists, and what is left unread is
alike. -/
theorem Reads.alike {last : Option Node} {depth : Nat} {tokens left : List Token}
    {nodes : List Node} (h : Reads last depth tokens nodes left) {joined : Bool}
    {others : List Token} (halike : Alike joined tokens others) :
    ∃ more unread, Reads last depth others more unread ∧ gistOfAll more = gistOfAll nodes ∧
      Alike false left unread := by
  -- The two readings go on token by token, but a run of blanks is read in as many steps as it has
  -- blanks: it stands for the whole other run until its last blank is read.
  induction h generalizing joined others with
  | done =>
    obtain rfl := halike.eq_nil
    exact ⟨[], [], .done, rfl, .nil⟩
  | stop =>
    obtain ⟨more, rfl, hrest⟩ := halike.of_mark rfl
    exact ⟨[], _, .stop, rfl, .same _ hrest⟩
  | skip _ ih =>
    obtain ⟨more, rfl, hrest⟩ := halike.of_mark rfl
    obtain ⟨nodes, unread, hreads, hgists, hunread⟩ := ih hrest
    exact ⟨nodes, unread, .skip hreads, hgists, hunread⟩
  | @leaf last depth inner token node rest left nodes hnode hnest h ih =>
    cases halike with
    | same _ hrest =>
      obtain ⟨more, unread, hreads, hgists, hunread⟩ := ih hrest
      rw [← tokenNode?_alike hrest] at hnode
      exact ⟨node :: more, unread, .leaf hnode hnest hreads, gistOfAll_cons_congr rfl hgists,
        hunread⟩
    | blanks first second run other hrest =>
      cases hnode
      cases hnest
      cases run with
      | nil =>
        obtain ⟨more, unread, hreads, hgists, hunread⟩ := ih hrest
        refine ⟨_, unread, Front.blanks (second :: other) depth more unread ?_, ?_, hunread⟩
        · rwa [lastOf_blanks]
        · rw [gistOfAll_append, gistOfAll_of_isBlank (Blank.isBlank_nodes _), List.nil_append,
            gistOfAll_blank rfl, hgists]
      | cons next run =>
        have hrest : Alike false (.blank next :: (Blank.tokens run ++ _)) _ :=
          .blanks next second run other hrest
        obtain ⟨more, unread, hreads, hgists, hunread⟩ := ih hrest
        exact ⟨more, unread, hreads, hgists, hunread⟩
    | literal htoken hother hrest =>
      rw [tokenNode?_isLiteral htoken] at hnode
      rw [nestAfter?_isLiteral htoken] at hnest
      cases hnode
      cases hnest
      obtain ⟨more, unread, hreads, hgists, hunread⟩ := ih hrest
      exact ⟨_, unread, .leaf (tokenNode?_isLiteral hother _ _) (nestAfter?_isLiteral hother _)
        (hreads.congr_gist rfl), gistOfAll_cons_congr rfl hgists, hunread⟩
    | @keyword text other _ _ hkeyword hfolded hcall hrest =>
      obtain ⟨hrecased, hrecall⟩ := hrest.keyword_recased hkeyword hfolded hcall
      have hgist : (Node.leaf .keyword other).gist = (Node.leaf .keyword text).gist := by
        simp only [Node.leaf, gist, hfolded]
      rw [tokenNode?_keyword hkeyword hcall] at hnode
      cases hnode
      cases hnest
      obtain ⟨more, unread, hreads, hgists, hunread⟩ := ih hrest
      exact ⟨_, unread, .leaf (tokenNode?_keyword hrecased hrecall _) rfl
        (hreads.congr_gist (congrArg some hgist.symm)), gistOfAll_cons_congr hgist hgists, hunread⟩
  | name hrole hgap h ih =>
    obtain ⟨more, rfl, hrest⟩ := halike.of_name hrole
    obtain ⟨hread, hafter⟩ := hrest.read_eq _
    obtain ⟨others, unread, hreads, hgists, hunread⟩ := ih hafter
    rw [← hread] at hgap hreads ⊢
    exact ⟨_, unread, .name (hrest.wordRole_eq _ ▸ hrole) (hafter.callGap?_eq_none hgap) hreads,
      gistOfAll_cons_congr rfl hgists, hunread⟩
  | @call _ _ word rest _ _ _ _ _ _ node hrole hafter hgap _ hnode _ ihArguments ih =>
    obtain ⟨more, rfl, hrest⟩ := halike.of_name hrole
    obtain ⟨hread, hname⟩ := hrest.read_eq word
    rw [hafter] at hname
    obtain ⟨blanks, inside, hother, hgap, hinner⟩ := hname.callGap?_eq_some hgap
    obtain ⟨arguments, unread, harguments, -, hclose⟩ := ihArguments hinner
    obtain ⟨after, rfl, hmore⟩ := hclose.of_mark rfl
    obtain ⟨others, unread, hreads, hgists, hunread⟩ := ih hmore
    have hgist : (callNode (.read word more) blanks (regroup arguments) true).gist = node.gist := by
      rw [hnode, hread]
      rfl
    rw [← hread] at hgap
    exact ⟨_, unread, .call (hrest.wordRole_eq word ▸ hrole) hother hgap harguments rfl
      (hreads.congr_gist (congrArg some hgist.symm)), gistOfAll_cons_congr hgist hgists, hunread⟩
  | @openCall _ _ word rest _ _ _ node hrole hafter hgap _ hnode ihArguments =>
    obtain ⟨more, rfl, hrest⟩ := halike.of_name hrole
    obtain ⟨hread, hname⟩ := hrest.read_eq word
    rw [hafter] at hname
    obtain ⟨blanks, inside, hother, hgap, hinner⟩ := hname.callGap?_eq_some hgap
    obtain ⟨arguments, unread, harguments, -, hend⟩ := ihArguments hinner
    obtain rfl := hend.eq_nil
    have hgist :
        (callNode (.read word more) blanks (regroup arguments) false).gist = node.gist := by
      rw [hnode, hread]
      rfl
    rw [← hread] at hgap
    exact ⟨_, [], .openCall (hrest.wordRole_eq word ▸ hrole) hother hgap harguments rfl,
      gistOfAll_cons_congr hgist rfl, .nil⟩

private theorem gistOfAll_statementNodes {tokens others : List Token}
    (h : Alike false tokens others) :
    gistOfAll (statementNodes others) = gistOfAll (statementNodes tokens) := by
  revert others
  refine statementNodes_induction (motive := fun tokens nodes ↦ ∀ {others},
    Alike false tokens others → gistOfAll (statementNodes others) = gistOfAll nodes) ?_ ?_ tokens
  · intro tokens nodes hreads others h
    obtain ⟨more, unread, hother, hgists, hunread⟩ := hreads.alike h
    obtain rfl := hunread.eq_nil
    rw [hother.statementNodes_eq]
    exact gistOfAll_regroup hgists
  · intro tokens nodes more hreads ih others h
    obtain ⟨raw, unread, hother, hgists, hunread⟩ := hreads.alike h
    obtain ⟨after, rfl, hmore⟩ := hunread.of_mark rfl
    rw [hother.statementNodes_eq_append, gistOfAll_append, gistOfAll_append,
      gistOfAll_regroup hgists, gistOfAll_cons_congr rfl (ih hmore)]

end Grouping

/-- Tokens that are restyled are alike. -/
theorem Restyles.alike {tokens others : List Token} (h : Restyles tokens others) :
    Alike false tokens others := by
  cases h with
  | blanks before after hrun hother =>
    obtain ⟨first, run, rfl⟩ := List.exists_cons_of_ne_nil hrun
    obtain ⟨second, other, rfl⟩ := List.exists_cons_of_ne_nil hother
    rw [List.append_assoc, List.append_assoc]
    exact .append before (.blanks first second run other (.refl false after))
  | literal before after htoken hother =>
    exact .append before (.literal htoken hother (.refl false after))
  | keyword before after hkeyword hsame hperiod hcall =>
    have hjoined : before.foldl (fun _ token ↦ token == .period) false = false := by
      rcases List.eq_nil_or_concat before with rfl | ⟨front, token, rfl⟩
      · rfl
      · rw [List.concat_eq_append, List.getLast?_concat] at hperiod
        rw [List.concat_eq_append, List.foldl_append, List.foldl_cons, List.foldl_nil,
          beq_eq_false_iff_ne]
        rintro rfl
        exact hperiod rfl
    refine .append before ?_
    rw [hjoined]
    exact .keyword hkeyword (Text.sameWord_iff.1 hsame) hcall (.refl false after)

/-- However a statement is restyled, what it is grouped to has the same gists. -/
theorem gistOfAll_restyled {tokens others : List Token}
    (h : Relation.ReflTransGen Restyles tokens others) :
    gistOfAll (statementNodes others) = gistOfAll (statementNodes tokens) := by
  induction h with
  | refl => rfl
  | tail _ hstep ih => rw [gistOfAll_statementNodes hstep.alike, ih]

/-- Blanks, comments among them, values and the case of keywords have no influence on what a
statement is found to be. However it is restyled, it is of the same kind and refers to the same
tables; it has as many columns, and at each place the same one unless calls or cases stand there,
which are shown by their texts. -/
theorem findings_restyled {tokens others : List Token}
    (h : Relation.ReflTransGen Restyles tokens others) :
    (groupStatement others).statementKind = (groupStatement tokens).statementKind ∧
      (groupStatement others).tableCandidates = (groupStatement tokens).tableCandidates ∧
      (groupStatement others).columnCandidates.length =
        (groupStatement tokens).columnCandidates.length ∧
      (groupStatement others).columns.map Column.name? =
        (groupStatement tokens).columns.map Column.name? ∧
      (groupStatement others).columns.map Column.text =
        (groupStatement others).columnCandidates ∧
      (groupStatement tokens).columns.map Column.text =
        (groupStatement tokens).columnCandidates := by
  have hgists := gistOfAll_restyled h
  have hkind : StatementKind.ofNodes (statementNodes others) =
      .ofNodes (statementNodes tokens) := by
    rw [← StatementKind.ofNodes_gistOfAll, hgists, StatementKind.ofNodes_gistOfAll]
  have hcolumns : (groupStatement others).columns.map Column.name? =
      (groupStatement tokens).columns.map Column.name? := by
    rw [columns_groupStatement rfl, columns_groupStatement rfl, hkind,
      ← Columns.name?_entries_gistOfAll, hgists, Columns.name?_entries_gistOfAll]
  have hlength := congrArg List.length hcolumns
  rw [List.length_map, List.length_map] at hlength
  refine ⟨?_, ?_, ?_, hcolumns, TokenTree.map_text_columns _, TokenTree.map_text_columns _⟩
  · rw [statementKind_groupStatement rfl, statementKind_groupStatement rfl, hkind]
  · rw [tableCandidates_groupStatement rfl, tableCandidates_groupStatement rfl, hkind,
      ← Tables.candidates_gistOfAll, hgists, Tables.candidates_gistOfAll]
  · rw [← TokenTree.map_text_columns, ← TokenTree.map_text_columns, List.length_map,
      List.length_map, hlength]

/-- The query `SELECT f(value), a FROM t` in a style of its own. -/
def Restyles.query (value : Token) (keyword : String) (run : List Blank) : List Token :=
  [.word ⟨"SELECT", none⟩, .blank .space, .word ⟨"f", none⟩, .openParen, value, .closeParen, .comma,
    .blank .space, .word ⟨"a", none⟩, .blank .space, .word ⟨keyword, none⟩] ++ Blank.tokens run ++
    [.word ⟨"t", none⟩]

/-- Another argument, another case and a comment make no difference to what is found. -/
theorem findings_restyled_query :
    Relation.ReflTransGen Restyles (Restyles.query (.string .single "x") "FROM" [.space])
        (Restyles.query (.number "1" false) "from" [.blockComment "all", .newline]) ∧
      (groupStatement (Restyles.query (.number "1" false) "from"
        [.blockComment "all", .newline])).columns.map Column.name? =
      (groupStatement (Restyles.query (.string .single "x") "FROM" [.space])).columns.map
        Column.name? := by
  have hvalue : Restyles (Restyles.query (.string .single "x") "FROM" [.space])
      (Restyles.query (.number "1" false) "FROM" [.space]) :=
    .literal [.word ⟨"SELECT", none⟩, .blank .space, .word ⟨"f", none⟩, .openParen] _ rfl rfl
  have hcase : Restyles (Restyles.query (.number "1" false) "FROM" [.space])
      (Restyles.query (.number "1" false) "from" [.space]) :=
    .keyword ((Restyles.query (.number "1" false) "FROM" []).take 10) _ (by decide) (by decide)
      nofun nofun
  have hblanks : Restyles (Restyles.query (.number "1" false) "from" [.space])
      (Restyles.query (.number "1" false) "from" [.blockComment "all", .newline]) :=
    .blanks _ _ nofun nofun
  have hstyles := ((Relation.ReflTransGen.single hvalue).tail hcase).tail hblanks
  exact ⟨hstyles, (findings_restyled hstyles).2.2.2.1⟩

end SqlFootprint
