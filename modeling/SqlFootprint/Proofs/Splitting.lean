import SqlFootprint.Proofs.Outside
import SqlFootprint.Proofs.Scripts

/-!
# Splitting a script

A script has one cutting (`Script.exists_cutting`, `Script.segments_pieces`): every piece but the
last ends in the first semicolon outside all parentheses. The statements are the pieces of it that
say something. In a grouped statement the semicolon at its end is the only one outside the
parentheses that belong to no call (`Script.outside_whole`, `Script.outside_uncut`), whatever
parentheses are too many or missing.
-/

namespace SqlFootprint

open Grouping

/-! ### Semicolons as marks -/

namespace Grouping

/-- A node that is a semicolon is marked. -/
def semicolonMark (node : Node) : Option Unit := if node.isPunctuation ";" then some () else none

/-- A token that is a semicolon is marked. -/
def semicolonTokenMark (token : Token) : Option Unit :=
  if token = .semicolon then some () else none

private theorem semicolonMark_plainNode {token : Token} (h : token.render ≠ ";") :
    semicolonMark (plainNode token) = none := by
  unfold plainNode
  split
  · rfl
  · split
    · rfl
    · exact if_neg (by simpa [Node.isPunctuation, Node.isAnyPunctuation, Node.punctuation] using h)

/-- Semicolons are marks. -/
theorem marks_semicolon : Marks semicolonMark semicolonTokenMark where
  leaf {last rest token node} hnode := by
    cases token with
    | word word =>
      simp only [tokenNode?] at hnode
      split at hnode
      · cases hnode
        rfl
      · cases hnode
        rfl
      · cases hnode
    | endOfInput => cases hnode
    | star =>
      cases hnode
      unfold starNode
      split
      · rfl
      · rfl
    | string form body =>
      cases hnode
      apply semicolonMark_plainNode
      intro heq
      have hnotMem : (Token.string form body).render ∉ [";"] :=
        Token.render_string_notMem body (by cases form <;> decide)
      exact hnotMem (List.mem_singleton.2 heq)
    | symbol symbol =>
      cases hnode
      apply semicolonMark_plainNode
      intro heq
      have hordinary := symbol.ordinary
      rw [show symbol.text = ";" from heq] at hordinary
      exact hordinary (by decide)
    | _ =>
      cases hnode
      rfl
  barrier node hmark := by
    unfold semicolonMark at hmark
    split at hmark
    · next hnode =>
      exact ⟨isBarrier_of_isPunctuation hnode (by decide) (by decide),
        .inr (Bool.and_eq_true_iff.1 hnode).1⟩
    · cases hmark
  name _ := rfl
  silent := by decide

/-- No word is a semicolon, behind a period or elsewhere. -/
theorem clearOfPeriods_semicolon (tokens : List Token) :
    ClearOfPeriods semicolonTokenMark tokens := fun _ _ _ _ ↦ rfl

end Grouping

namespace Script

/-! ### Cuttings -/

private theorem IsUncut.cons {depth : Nat} {token : Token} {rest : List Token}
    (hhead : ¬(depth = 0 ∧ token = .semicolon)) (h : IsUncut (token.depthAfter depth) rest) :
    IsUncut depth (token :: rest) := by
  intro before after heq hdepth
  cases before with
  | nil =>
    cases heq
    exact hhead ⟨hdepth, rfl⟩
  | cons first before =>
    cases heq
    exact h before after rfl hdepth

private theorem isUncut_or_split (depth : Nat) (tokens : List Token) :
    IsUncut depth tokens ∨
      ∃ whole rest, tokens = whole ++ .semicolon :: rest ∧ IsWhole depth whole := by
  induction tokens generalizing depth with
  | nil =>
    left
    intro before after heq
    simp at heq
  | cons token tokens ih =>
    by_cases hhead : depth = 0 ∧ token = .semicolon
    · obtain ⟨rfl, rfl⟩ := hhead
      exact .inr ⟨[], tokens, rfl, rfl, by simp⟩
    · rcases ih (token.depthAfter depth) with huncut | ⟨whole, rest, rfl, hwhole⟩
      · exact .inl (huncut.cons hhead)
      · exact .inr ⟨token :: whole, rest, rfl, hwhole.closed, IsUncut.cons hhead hwhole.uncut⟩

/-- A script as it is cut: what stands before each semicolon outside all parentheses, and what
follows the last of them. -/
structure Cutting where
  wholes : List (List Token)
  last : List Token
  whole : ∀ tokens ∈ wholes, IsWhole 0 tokens
  uncut : IsUncut 0 last

namespace Cutting

/-- The pieces, each but the last with its semicolon. -/
def pieces (cutting : Cutting) : List (List Token) :=
  cutting.wholes.map (· ++ [.semicolon]) ++ [cutting.last]

private theorem depth_wholes (cutting : Cutting) :
    Token.depth 0 (cutting.wholes.map (· ++ [.semicolon])).flatten = 0 := by
  obtain ⟨wholes, last, hwholes, huncut⟩ := cutting
  induction wholes with
  | nil => rfl
  | cons whole wholes ih =>
    rw [List.forall_mem_cons] at hwholes
    rw [List.map_cons, List.flatten_cons, Token.depth_append, Token.depth_append,
      hwholes.1.closed]
    exact ih hwholes.2

end Cutting

/-- Every script has a cutting. -/
theorem exists_cutting (tokens : List Token) : ∃ cutting : Cutting, cutting.pieces.flatten = tokens
    := by
  rcases isUncut_or_split 0 tokens with huncut | ⟨whole, rest, rfl, hwhole⟩
  · exact ⟨⟨[], tokens, by simp, huncut⟩, by simp [Cutting.pieces]⟩
  · obtain ⟨cutting, hrest⟩ := exists_cutting rest
    refine ⟨⟨whole :: cutting.wholes, cutting.last, ?_, cutting.uncut⟩, ?_⟩
    · exact List.forall_mem_cons.2 ⟨hwhole, cutting.whole⟩
    · rw [← hrest]
      simp [Cutting.pieces]
termination_by tokens.length

/-- A script has one cutting only. -/
theorem segments_pieces (cutting : Cutting) :
    segments 0 cutting.pieces.flatten = cutting.pieces := by
  obtain ⟨wholes, last, hwholes, huncut⟩ := cutting
  induction wholes with
  | nil =>
    have hflatten : (Cutting.mk [] last hwholes huncut).pieces.flatten = last :=
      List.append_nil last
    rw [hflatten, segments_uncut huncut]
    rfl
  | cons whole wholes ih =>
    rw [List.forall_mem_cons] at hwholes
    have hrest := ih hwholes.2
    have hcut := segments_append_semicolon hwholes.1
      (Cutting.mk wholes last hwholes.2 huncut).pieces.flatten
    rw [hrest] at hcut
    simpa [Cutting.pieces] using hcut

/-- The piece says something. -/
def isStatement (piece : List Token) : Bool := piece.any Token.isContent

/-- The statements of a script are the pieces that say something. -/
theorem split_pieces (cutting : Cutting) :
    split cutting.pieces.flatten = cutting.pieces.filter isStatement :=
  congrArg (List.filter isStatement) (segments_pieces cutting)

/-- A statement is a whole and its semicolon, or has no semicolon outside all parentheses. -/
theorem of_mem_split {tokens statement : List Token} (h : statement ∈ split tokens) :
    (∃ whole, statement = whole ++ [.semicolon] ∧ IsWhole 0 whole) ∨ IsUncut 0 statement := by
  obtain ⟨cutting, rfl⟩ := exists_cutting tokens
  rw [split_pieces] at h
  rcases List.mem_append.1 (List.mem_filter.1 h).1 with hmem | hmem
  · obtain ⟨whole, hwhole, rfl⟩ := List.mem_map.1 hmem
    exact .inl ⟨whole, rfl, cutting.whole whole hwhole⟩
  · rw [List.mem_singleton.1 hmem]
    exact .inr cutting.uncut

private theorem Cutting.exists_filter (cutting : Cutting) : ∃ kept : Cutting,
    kept.pieces = cutting.pieces.filter isStatement ∨
      kept.pieces = cutting.pieces.filter isStatement ++ [[]] := by
  obtain ⟨wholes, last, hwholes, huncut⟩ := cutting
  have hkept : ∀ whole ∈ wholes.filter fun whole ↦ isStatement (whole ++ [.semicolon]),
      IsWhole 0 whole :=
    fun whole hmem ↦ hwholes whole (List.mem_filter.1 hmem).1
  have hpieces (others : List (List Token)) :
      (wholes.map (· ++ [.semicolon]) ++ others).filter isStatement =
        (wholes.filter fun whole ↦ isStatement (whole ++ [.semicolon])).map (· ++ [.semicolon]) ++
          others.filter isStatement := by
    rw [List.filter_append, List.filter_map]
    rfl
  by_cases hsays : isStatement last = true
  · refine ⟨⟨_, last, hkept, huncut⟩, .inl ?_⟩
    rw [pieces, pieces, hpieces, List.filter_cons_of_pos hsays, List.filter_nil]
  · refine ⟨⟨_, [], hkept, by simp [IsUncut]⟩, .inr ?_⟩
    rw [pieces, pieces, hpieces, List.filter_cons_of_neg hsays, List.filter_nil, List.append_nil]

/-- Splitting the statements in a row gives them again. -/
theorem split_flatten_split (tokens : List Token) :
    split (split tokens).flatten = split tokens := by
  obtain ⟨cutting, rfl⟩ := exists_cutting tokens
  rw [split_pieces]
  obtain ⟨kept, hkept⟩ := cutting.exists_filter
  have hflatten : kept.pieces.flatten = (cutting.pieces.filter isStatement).flatten := by
    rcases hkept with hkept | hkept
    · rw [hkept]
    · rw [hkept, List.flatten_append]
      exact List.append_nil _
  have hfilter : kept.pieces.filter isStatement = cutting.pieces.filter isStatement := by
    have htwice : (cutting.pieces.filter isStatement).filter isStatement =
        cutting.pieces.filter isStatement := by
      rw [List.filter_filter]
      simp only [Bool.and_self]
    rcases hkept with hkept | hkept
    · rw [hkept, htwice]
    · rw [hkept, List.filter_append, htwice]
      exact List.append_nil _
  rw [← hflatten, split_pieces, hfilter]

/-- A script whose first part ends in a semicolon outside all parentheses is split part by part. -/
theorem split_append {before : List Token} (h : Token.depth 0 before = 0) (rest : List Token) :
    split (before ++ [.semicolon] ++ rest) = split (before ++ [.semicolon]) ++ split rest := by
  obtain ⟨first, rfl⟩ := exists_cutting before
  obtain ⟨second, rfl⟩ := exists_cutting rest
  have hdepth := first.depth_wholes
  have hlast : IsWhole 0 first.last := by
    refine ⟨?_, first.uncut⟩
    rw [Cutting.pieces, List.flatten_append, Token.depth_append, hdepth] at h
    rwa [List.flatten_singleton] at h
  have hwholes : ∀ tokens ∈ first.wholes ++ [first.last], IsWhole 0 tokens := by
    intro tokens hmem
    rcases List.mem_append.1 hmem with hmem | hmem
    · exact first.whole tokens hmem
    · rwa [List.mem_singleton.1 hmem]
  let front : Cutting := ⟨first.wholes ++ [first.last], [], hwholes, by simp [IsUncut]⟩
  let both : Cutting := ⟨first.wholes ++ [first.last] ++ second.wholes, second.last,
    fun tokens hmem ↦ (List.mem_append.1 hmem).elim (hwholes tokens) (second.whole tokens),
    second.uncut⟩
  have hfront : first.pieces.flatten ++ [.semicolon] = front.pieces.flatten := by
    simp [front, Cutting.pieces]
  have hboth : first.pieces.flatten ++ [.semicolon] ++ second.pieces.flatten =
      both.pieces.flatten := by
    simp [both, Cutting.pieces]
  rw [hboth, hfront, split_pieces, split_pieces, split_pieces, ← List.filter_append]
  have hpieces : front.pieces =
      (first.wholes ++ [first.last]).map (· ++ [.semicolon]) ++ [[]] := rfl
  have hnothing : List.filter isStatement [[]] = [] := rfl
  have hall : both.pieces =
      (first.wholes ++ [first.last]).map (· ++ [.semicolon]) ++ second.pieces := by
    simp [both, Cutting.pieces]
  rw [hall, hpieces, List.filter_append, List.filter_append, List.filter_append, hnothing,
    List.append_nil]

/-! ### Semicolons of a grouped statement -/

private theorem filterMap_outside_uncut {depth : Nat} {tokens : List Token}
    (h : IsUncut depth tokens) :
    (Token.outside depth tokens).filterMap semicolonTokenMark = [] := by
  induction tokens generalizing depth with
  | nil => rfl
  | cons token rest ih =>
    rw [Token.outside]
    split
    · next hdepth =>
      have hhead : semicolonTokenMark token = none := if_neg fun htoken ↦ h.head ⟨hdepth, htoken⟩
      rw [List.filterMap_cons_none hhead, ih h.tail]
    · exact ih h.tail

/-- A statement without a semicolon outside all parentheses has no such node outside its
parentheses. -/
theorem outside_uncut {tokens : List Token} (h : IsUncut 0 tokens) :
    ∀ node ∈ Node.outside 0 (statementNodes tokens), node.isPunctuation ";" = false := by
  have hmarks := marks_semicolon.outside_statementNodes (clearOfPeriods_semicolon tokens)
  rw [filterMap_outside_uncut h, List.filterMap_eq_nil_iff] at hmarks
  intro node hmem
  have hnone := hmarks node hmem
  unfold semicolonMark at hnone
  split at hnone
  · cases hnone
  · next hnode => exact Bool.eq_false_iff.2 hnode

/-- A whole ends outside the parentheses of its nodes too, and the semicolon behind it makes the
last node. -/
theorem outside_whole {whole : List Token} (h : IsWhole 0 whole) :
    statementNodes (whole ++ [.semicolon]) = statementNodes whole ++ [.semicolon] ∧
      Node.depth 0 (statementNodes whole) = 0 := by
  have hnodes : statementNodes (whole ++ [.semicolon]) = statementNodes whole ++ [.semicolon] := by
    rw [Cuts.semicolon.statementNodes_append [] h.closed fun _ ↦ rfl, statementNodes_semicolon]
  refine ⟨hnodes, ?_⟩
  have hmarks := marks_semicolon.outside_statementNodes
    (clearOfPeriods_semicolon (whole ++ [.semicolon]))
  rw [hnodes, Node.outside_append, Token.outside_append, h.closed, List.filterMap_append,
    List.filterMap_append, marks_semicolon.outside_statementNodes (clearOfPeriods_semicolon whole),
    List.append_cancel_left_eq] at hmarks
  by_cases hdepth : Node.depth 0 (statementNodes whole) = 0
  · exact hdepth
  · have hnone : Node.outside (Node.depth 0 (statementNodes whole)) [.semicolon] = [] :=
      if_neg hdepth
    rw [hnone] at hmarks
    cases hmarks

end Script

/-- A script has just one cutting, into pieces which in a row are the script and each but the last
of which ends in its only semicolon outside all parentheses, where a parenthesis too many closes
nothing. Its statements are the pieces that are not blanks, semicolons and ends of input alone; they
are split into themselves, and a script is split part by part behind such a semicolon. In a grouped
statement the semicolon at its end is the last node, and there is no other outside the parentheses
that belong to no call. -/
theorem split_cutting :
    (∀ tokens : List Token,
      (∃ cutting : Script.Cutting, cutting.pieces.flatten = tokens) ∧
      (∀ cutting : Script.Cutting, cutting.pieces.flatten = tokens →
        Script.split tokens = cutting.pieces.filter fun piece ↦ piece.any Token.isContent) ∧
      Script.split (Script.split tokens).flatten = Script.split tokens ∧
      ∀ statement ∈ Script.split tokens,
        (∃ whole nodes, statement = whole ++ [.semicolon] ∧ Script.IsWhole 0 whole ∧
          (groupStatement statement).nodes = nodes ++ [.punctuation ";"] ∧
          Node.depth 0 nodes = 0 ∧
          ∀ node ∈ Node.outside 0 nodes, node.isPunctuation ";" = false) ∨
        (Script.IsUncut 0 statement ∧
          ∀ node ∈ Node.outside 0 (groupStatement statement).nodes,
            node.isPunctuation ";" = false)) ∧
    ∀ before rest : List Token, Token.depth 0 before = 0 →
      Script.split (before ++ [.semicolon] ++ rest) =
        Script.split (before ++ [.semicolon]) ++ Script.split rest := by
  refine ⟨fun tokens ↦ ⟨Script.exists_cutting tokens, ?_, Script.split_flatten_split tokens, ?_⟩,
    fun before rest h ↦ Script.split_append h rest⟩
  · rintro cutting rfl
    exact Script.split_pieces cutting
  · intro statement hmem
    rw [nodes_groupStatement]
    rcases Script.of_mem_split hmem with ⟨whole, rfl, hwhole⟩ | huncut
    · obtain ⟨hnodes, hdepth⟩ := Script.outside_whole hwhole
      exact .inl ⟨whole, statementNodes whole, rfl, hwhole, hnodes, hdepth,
        Script.outside_uncut hwhole.uncut⟩
    · exact .inr ⟨huncut, Script.outside_uncut huncut⟩

end SqlFootprint
