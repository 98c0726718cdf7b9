import SqlFootprint.Proofs.Scans
import SqlFootprint.Proofs.SetLists
import SqlFootprint.Script

/-!
# Statements of a script

A script is cut into its statements and each is grouped and analysed on its own. A statement ends
outside all parentheses and has no semicolon there (`Script.Statement`), but parentheses too many
may stand in it. `Script.Parts.segments_tokens` says that a script is cut into its statements, each
with the blanks before it and its semicolon, and `analysis_by_statement` that neither changes what a
statement refers to, so that the analysis of a script is that of its statements one by one.
-/

namespace SqlFootprint

open Grouping

/-! ### Blanks before a statement -/

/-- Blanks before a statement leave its kind as it is. -/
theorem StatementKind.ofNodes_blanks_append (blanks : List Blank) (nodes : List Node) :
    ofNodes (Blank.nodes blanks ++ nodes) = ofNodes nodes := by
  rw [ofNodes, List.dropWhile_append_of_pos (Blank.isBlank_nodes blanks)]
  rfl

private theorem Tables.candidates_blanks_append (kind : StatementKind) (blanks : List Blank)
    (nodes : List Node) :
    candidates kind (Blank.nodes blanks ++ nodes) = candidates kind nodes := by
  cases kind with
  | select => exact scanLists_blanks .outside none blanks nodes
  | insert =>
    rw [candidates, insertTarget, Node.afterKeyword?_blanks, Node.afterKeyword?_blanks]
    rfl
  | update =>
    have hnone : (Blank.nodes blanks).findSome? Node.identifier? = none :=
      List.findSome?_eq_none_iff.2 (Blank.forall_mem_nodes (fun _ ↦ rfl) blanks)
    rw [candidates, updateTarget, List.findSome?_append, hnone, Option.none_or]
    rfl
  | delete => rw [candidates, deleteTarget, Node.afterKeyword?_blanks]; rfl
  | unknown => rfl

/-- Where projection, list of columns and assignments are the same, the columns are. -/
theorem Columns.candidates_congr (kind : StatementKind) {nodes others : List Node}
    (hprojection : projection nodes = projection others)
    (hlist : insertList nodes = insertList others) (hassigned : assigned nodes = assigned others) :
    candidates kind nodes = candidates kind others := by
  cases kind with
  | select => exact hprojection
  | insert => simp only [candidates, hprojection, hlist]
  | update => exact hassigned
  | _ => rfl

private theorem Columns.candidates_blanks_append (kind : StatementKind) (blanks : List Blank)
    (nodes : List Node) :
    candidates kind (Blank.nodes blanks ++ nodes) = candidates kind nodes := by
  apply candidates_congr
  · simp only [projection, Node.afterKeyword?_blanks]
  · simp only [insertList, Node.afterKeyword?_blanks]
  · simp only [assigned, Node.afterKeyword?_blanks]

/-! ### The semicolon after a statement -/

namespace Node

/-- The mark that ends a statement. -/
def semicolon : Node := .punctuation ";"

private theorem afterKeyword?_concat_semicolon (word : String) (nodes : List Node) :
    afterKeyword? word (nodes ++ [semicolon]) =
      (afterKeyword? word nodes).map (· ++ [semicolon]) := by
  induction nodes with
  | nil => rfl
  | cons node rest ih =>
    rw [List.cons_append, afterKeyword?, afterKeyword?]
    split
    · rfl
    · exact ih

end Node

namespace StatementKind

private theorem firstOutside_concat_semicolon (depth : Nat) (nodes : List Node) :
    firstOutside depth (nodes ++ [.semicolon]) = firstOutside depth nodes := by
  induction nodes generalizing depth with
  | nil =>
    rw [List.nil_append, firstOutside]
    simp [Node.semicolon, ofNode?, Node.isPunctuation, Node.isAnyPunctuation, Node.isAnyKeyword,
      Node.punctuation, firstOutside]
  | cons node rest ih =>
    rw [List.cons_append, firstOutside, firstOutside, ih, ih, ih]

private theorem ofNodes_concat_semicolon (nodes : List Node) :
    ofNodes (nodes ++ [.semicolon]) = ofNodes nodes := by
  have hfront : (nodes ++ [Node.semicolon]).dropWhile Node.isBlank =
      nodes.dropWhile Node.isBlank ++ [.semicolon] := by
    rw [List.dropWhile_append]
    split
    · next hempty =>
      rw [List.isEmpty_iff.1 hempty]
      rfl
    · rfl
  rw [ofNodes, ofNodes, hfront]
  cases nodes.dropWhile Node.isBlank with
  | nil => rfl
  | cons first rest => simp only [List.cons_append, firstOutside_concat_semicolon]

end StatementKind

namespace Tables

private theorem scanLists_concat_semicolon (scan : Scan) (last : Option Node) (nodes : List Node) :
    scanLists scan last (nodes ++ [.semicolon]) = scanLists scan last nodes := by
  induction nodes generalizing scan last with
  | nil =>
    have hname : Node.semicolon.isName = true → scan = .outside := nofun
    exact scanLists_skip rfl hname last []
  | cons node rest ih => rw [List.cons_append, scanLists, scanLists, ih, ih, ih]

private theorem candidates_concat_semicolon (kind : StatementKind) (nodes : List Node) :
    candidates kind (nodes ++ [.semicolon]) = candidates kind nodes := by
  cases kind with
  | select => exact scanLists_concat_semicolon .outside none nodes
  | insert =>
    have htarget : insertTarget (nodes ++ [.semicolon]) = insertTarget nodes := by
      rw [insertTarget, insertTarget, Node.afterKeyword?_concat_semicolon]
      cases Node.afterKeyword? "INTO" nodes with
      | none => rfl
      | some rest =>
        rw [Option.map_some, Option.bind_some, Option.bind_some,
          Node.significant?_append_cons rest [] rfl]
        cases Node.significant? rest with
        | none => rfl
        | some found => rfl
    rw [candidates, candidates, htarget, Node.afterKeyword?_concat_semicolon]
    cases Node.afterKeyword? "SELECT" nodes with
    | none => rfl
    | some rest => exact congrArg _ (scanLists_concat_semicolon .outside none rest)
  | update =>
    rw [candidates, candidates, updateTarget, updateTarget, List.findSome?_append]
    cases nodes.findSome? Node.identifier? with
    | none => rfl
    | some identifier => rfl
  | delete =>
    rw [candidates, candidates, deleteTarget, deleteTarget, Node.afterKeyword?_concat_semicolon]
    cases Node.afterKeyword? "FROM" nodes with
    | none => rfl
    | some rest =>
      rw [Option.map_some, Option.bind_some, Option.bind_some, List.find?_append]
      cases rest.find? Node.isName with
      | none => rfl
      | some node => rfl
  | unknown => rfl

end Tables

namespace Columns

private theorem scanItems_concat_semicolon (scan : Scan) (last : Option Node) (nodes : List Node) :
    scanItems scan last (nodes ++ [.semicolon]) = scanItems scan last nodes := by
  induction nodes generalizing scan last with
  | nil =>
    cases scan with
    | items =>
      have hnone : (Node.itemsAfterAlias last .semicolon).flatMap columnsOf = [] :=
        flatMap_itemsAfterAlias rfl rfl last
      rw [List.nil_append, scanItems_items rfl rfl, hnone]
      rfl
    | case block around => rfl
  | cons node rest ih => simp only [List.cons_append, scanItems, ih]

private theorem listAfterParen_concat_semicolon (nodes : List Node) :
    listAfterParen (nodes ++ [.semicolon]) = listAfterParen nodes := by
  induction nodes with
  | nil => rfl
  | cons node rest ih => rw [List.cons_append, listAfterParen, listAfterParen, ih]

private theorem insertList_concat_semicolon (nodes : List Node) :
    insertList (nodes ++ [.semicolon]) = insertList nodes := by
  rw [insertList, insertList, Node.afterKeyword?_concat_semicolon]
  cases Node.afterKeyword? "INTO" nodes with
  | none => rfl
  | some rest =>
    have hmark : [Node.semicolon].filter (fun node ↦ !node.isBlank) = [.semicolon] := rfl
    simp only [Option.map_some, List.filter_append, hmark]
    cases rest.filter fun node ↦ !node.isBlank with
    | nil => rfl
    | cons table more =>
      cases more with
      | nil =>
        have hparen : Node.semicolon.isPunctuation "(" = false := rfl
        simp only [List.cons_append, List.nil_append, hparen, Bool.and_false]
        rfl
      | cons paren more => simp only [List.cons_append, listAfterParen_concat_semicolon]

private theorem candidates_concat_semicolon (kind : StatementKind) (nodes : List Node) :
    candidates kind (nodes ++ [.semicolon]) = candidates kind nodes := by
  have hprojection : projection (nodes ++ [.semicolon]) = projection nodes := by
    rw [projection, projection, Node.afterKeyword?_concat_semicolon]
    cases Node.afterKeyword? "SELECT" nodes with
    | none => rfl
    | some rest => exact scanItems_concat_semicolon .items none rest
  have hassigned : assigned (nodes ++ [.semicolon]) = assigned nodes := by
    rw [assigned, assigned, Node.afterKeyword?_concat_semicolon]
    cases Node.afterKeyword? "SET" nodes with
    | none => rfl
    | some rest => exact targetsOfAll_semicolon rest []
  exact candidates_congr kind hprojection (insertList_concat_semicolon nodes) hassigned

end Columns

/-! ### Cutting a script -/

namespace Script

/-- Tokens with no semicolon outside all parentheses. -/
def IsUncut (depth : Nat) (tokens : List Token) : Prop :=
  ∀ before after, tokens = before ++ .semicolon :: after → Token.depth depth before ≠ 0

/-- After the first token, the others go on at the depth to which the token leads. -/
theorem IsUncut.tail {depth : Nat} {token : Token} {rest : List Token}
    (h : IsUncut depth (token :: rest)) : IsUncut (token.depthAfter depth) rest := by
  rintro before after rfl
  exact h (token :: before) after rfl

/-- Nothing is cut after the first token. -/
theorem IsUncut.head {depth : Nat} {token : Token} {rest : List Token}
    (h : IsUncut depth (token :: rest)) : ¬(depth = 0 ∧ token = .semicolon) := by
  rintro ⟨rfl, rfl⟩
  exact h [] rest rfl rfl

/-- Tokens without a semicolon outside all parentheses are not cut. -/
theorem segments_uncut {depth : Nat} {tokens : List Token} (h : IsUncut depth tokens) :
    segments depth tokens = [tokens] := by
  induction tokens generalizing depth with
  | nil => rfl
  | cons token rest ih =>
    rw [segments, if_neg h.head, ih h.tail]
    rfl

/-- Tokens that end outside all parentheses, with no semicolon there. -/
structure IsWhole (depth : Nat) (tokens : List Token) : Prop where
  closed : Token.depth depth tokens = 0
  uncut : ∀ before after, tokens = before ++ .semicolon :: after → Token.depth depth before ≠ 0

private theorem isWhole_iff {depth : Nat} {tokens : List Token} :
    IsWhole depth tokens ↔ Token.depth depth tokens = 0 ∧
      ∀ place < tokens.length, tokens[place]? = some .semicolon →
        Token.depth depth (tokens.take place) ≠ 0 := by
  constructor
  · intro h
    refine ⟨h.closed, fun place _ hsemicolon ↦ ?_⟩
    apply h.uncut _ (tokens.drop (place + 1))
    rw [← (List.getElem?_eq_some_iff.1 hsemicolon).2, List.getElem_cons_drop,
      List.take_append_drop]
  · rintro ⟨hclosed, huncut⟩
    refine ⟨hclosed, fun before after heq ↦ ?_⟩
    subst heq
    have hbefore := huncut before.length (by simp) (by simp)
    rwa [List.take_left] at hbefore

/-- Whether tokens are whole can be read off the depths before their semicolons. -/
instance (depth : Nat) (tokens : List Token) : Decidable (IsWhole depth tokens) :=
  decidable_of_iff' _ isWhole_iff

private theorem IsWhole.tail {depth : Nat} {token : Token} {rest : List Token}
    (h : IsWhole depth (token :: rest)) : IsWhole (token.depthAfter depth) rest where
  closed := h.closed
  uncut := IsUncut.tail h.uncut

private theorem IsWhole.blanks_append {tokens : List Token} (h : IsWhole 0 tokens)
    (blanks : List Blank) :
    IsWhole 0 (Blank.tokens blanks ++ tokens) := by
  induction blanks with
  | nil => exact h
  | cons blank blanks ih =>
    refine ⟨ih.closed, fun before after heq ↦ ?_⟩
    cases before with
    | nil => cases heq
    | cons token before =>
      obtain ⟨rfl, hrest⟩ := List.cons_eq_cons.1 heq
      exact ih.uncut before after hrest

/-- A script is cut after a whole and a semicolon. -/
theorem segments_append_semicolon {depth : Nat} {tokens : List Token} (h : IsWhole depth tokens)
    (rest : List Token) :
    segments depth (tokens ++ .semicolon :: rest) =
      (tokens ++ [.semicolon]) :: segments 0 rest := by
  induction tokens generalizing depth with
  | nil =>
    have hdepth : depth = 0 := h.closed
    rw [List.nil_append, segments, if_pos ⟨hdepth, rfl⟩]
    rfl
  | cons token tokens ih =>
    rw [List.cons_append, segments, if_neg (IsUncut.head h.uncut), ih h.tail]
    rfl

/-- One statement of a script. -/
structure Statement where
  tokens : List Token
  content : tokens.any Token.isContent = true
  whole : IsWhole 0 tokens

/-- What stands between two semicolons of a script: nothing but blanks, or a statement after
blanks. -/
inductive Part where
  | blank (blanks : List Blank)
  | statement (before : List Blank) (body : Statement)

namespace Part

/-- The tokens of the part. -/
def tokens : Part → List Token
  | blank blanks => Blank.tokens blanks
  | statement before body => Blank.tokens before ++ body.tokens

/-- The statement in the part, if there is one. -/
def statement? : Part → Option Statement
  | blank _ => none
  | statement _ body => some body

private theorem whole (part : Part) : IsWhole 0 part.tokens := by
  have hnil : IsWhole 0 [] := ⟨rfl, by simp⟩
  cases part with
  | blank blanks =>
    have hblanks := hnil.blanks_append blanks
    rwa [List.append_nil] at hblanks
  | statement before body => exact body.whole.blanks_append before

end Part

/-- Parts with semicolons between them; the last one is blank where the script ends in one. -/
structure Parts where
  terminated : List Part
  last : Part

namespace Parts

/-- The tokens of the script. -/
def tokens (parts : Parts) : List Token :=
  parts.terminated.flatMap (fun part ↦ part.tokens ++ [.semicolon]) ++ parts.last.tokens

/-- The statements of the script. -/
def statements (parts : Parts) : List Statement :=
  (parts.terminated ++ [parts.last]).filterMap Part.statement?

/-- A script is cut into its parts, each but the last with its semicolon. -/
theorem segments_tokens (parts : Parts) :
    segments 0 parts.tokens =
      parts.terminated.map (fun part ↦ part.tokens ++ [.semicolon]) ++ [parts.last.tokens] := by
  obtain ⟨terminated, last⟩ := parts
  induction terminated with
  | nil => exact segments_uncut last.whole.uncut
  | cons part terminated ih =>
    have hcut := segments_append_semicolon part.whole (Parts.mk terminated last).tokens
    rw [ih] at hcut
    simpa [tokens] using hcut

end Parts

end Script

/-! ### One statement after the other -/

namespace Grouping

/-- A semicolon cuts statements. -/
theorem Cuts.semicolon : Cuts .semicolon .semicolon where
  front _ _ := .leaf rfl Token.noConfusion Token.noConfusion
  barrier := isBarrier_punctuation (by decide) (by decide)
  solid := rfl
  apart rest := apart_cons rest rfl Token.noConfusion Token.noConfusion

/-- A semicolon alone is grouped to its mark. -/
theorem statementNodes_semicolon : statementNodes [.semicolon] = [.semicolon] := by
  have hfront : Front none [.semicolon] [] [.semicolon] := Cuts.semicolon.front none []
  have hregroup := regroup_append_cons Cuts.semicolon.barrier [] []
  rw [regroup_nil] at hregroup
  exact hfront.statementNodes_eq.trans hregroup

end Grouping

private theorem findings_blanks_append (blanks : List Blank) {tokens : List Token}
    (h : Token.depth 0 tokens = 0) {mark : List Token} (hmark : mark = [] ∨ mark = [.semicolon]) :
    (groupStatement (Blank.tokens blanks ++ tokens ++ mark)).findings =
      (groupStatement tokens).findings := by
  have hnodes (mark : List Token) := statementNodes_blanks_append blanks (tokens ++ mark)
  have hsemicolon : statementNodes (tokens ++ [.semicolon]) =
      statementNodes tokens ++ [.semicolon] := by
    rw [Cuts.semicolon.statementNodes_append [] h fun _ ↦ rfl, statementNodes_semicolon]
  rw [List.append_assoc]
  simp only [TokenTree.findings, TokenTree.statementKind, TokenTree.tableCandidates,
    TokenTree.columnCandidates, nodes_groupStatement, hnodes, StatementKind.ofNodes_blanks_append,
    Tables.candidates_blanks_append, Columns.candidates_blanks_append]
  rcases hmark with rfl | rfl
  · rw [List.append_nil]
  · rw [hsemicolon, StatementKind.ofNodes_concat_semicolon, Tables.candidates_concat_semicolon,
      Columns.candidates_concat_semicolon]

namespace Script

private theorem Part.any_isContent (part : Part) {mark : List Token}
    (hmark : mark = [] ∨ mark = [.semicolon]) :
    (part.tokens ++ mark).any Token.isContent = part.statement?.isSome := by
  have hblanks (blanks : List Blank) : (Blank.tokens blanks).any Token.isContent = false := by
    simp [Blank.tokens, Token.isContent]
  have hmark : mark.any Token.isContent = false := by
    rcases hmark with rfl | rfl
    · rfl
    · rfl
  cases part with
  | blank blanks =>
    rw [Part.tokens, List.any_append, hblanks, hmark]
    rfl
  | statement before body =>
    rw [Part.tokens, List.any_append, List.any_append, body.content, hblanks, hmark]
    rfl

/-- The pieces that say something are the statements, and what is found in them is found in the
statements alone. -/
theorem findings_filter (parts : List Part) {mark : List Token}
    (hmark : mark = [] ∨ mark = [.semicolon]) :
    ((parts.map fun part ↦ part.tokens ++ mark).filter fun piece ↦ piece.any Token.isContent).map
        (fun piece ↦ (groupStatement piece).findings) =
      (parts.filterMap Part.statement?).map fun body ↦ (groupStatement body.tokens).findings := by
  induction parts with
  | nil => rfl
  | cons part parts ih =>
    have hcontent := part.any_isContent hmark
    rw [List.map_cons]
    cases part with
    | blank blanks =>
      rw [List.filter_cons_of_neg (by rw [hcontent]; nofun), ih]
      rfl
    | statement before body =>
      rw [List.filter_cons_of_pos (by rw [hcontent]; rfl), List.map_cons, ih, Part.tokens,
        findings_blanks_append before body.whole.closed hmark]
      rfl

end Script

/-- A script is analysed statement by statement: it has one tree for each of its statements, with
what is found in the statement alone. The analysis of the first statement fails exactly where that
of the script does, and has its first result or, if there is none, nothing. -/
theorem analysis_by_statement :
    (∀ parts : Script.Parts,
      ((Script.split parts.tokens).map groupStatement).map TokenTree.findings =
        parts.statements.map fun statement ↦ (groupStatement statement.tokens).findings) ∧
    ∀ (dialect : Dialect) (verbose : Bool) (text : String),
      analyzeFirst (.ofDialect dialect) text =
          (analyzeScript ⟨dialect, false, verbose⟩ text).map
            (fun results ↦ (results.head?.map StatementAnalysis.analysis).getD {}) ∧
        analyzeScript ⟨dialect, true, verbose⟩ text =
          (analyzeScript ⟨dialect, false, verbose⟩ text).map (List.take 1) := by
  constructor
  · intro parts
    have hterminated := Script.findings_filter parts.terminated (.inr rfl)
    have hlast := Script.findings_filter [parts.last] (.inl rfl)
    rw [List.map_singleton, List.append_nil] at hlast
    rw [Script.split, parts.segments_tokens, List.map_map, List.filter_append, List.map_append,
      Script.Parts.statements, List.filterMap_append, List.map_append, ← hterminated, ← hlast]
    rfl
  · intro dialect verbose text
    show ((Script.trees dialect text).map _).map _ = ((Script.trees dialect text).map _).map _ ∧
      (Script.trees dialect text).map _ = ((Script.trees dialect text).map _).map _
    cases Script.trees dialect text with
    | error failure => exact ⟨rfl, rfl⟩
    | ok trees =>
      cases trees with
      | nil => exact ⟨rfl, rfl⟩
      | cons tree trees => exact ⟨rfl, rfl⟩

/-- Two statements behind an empty one. The first has a semicolon in parentheses and one parenthesis
too many, and the second stands on a line of its own. -/
def Script.Parts.nested : Script.Parts where
  terminated := [
    .blank [.space],
    .statement []
      ⟨[.word ⟨"SELECT", none⟩, .blank .space, .word ⟨"f", none⟩, .openParen, .word ⟨"a", none⟩,
        .semicolon, .word ⟨"b", none⟩, .closeParen, .closeParen, .blank .space,
        .word ⟨"FROM", none⟩, .blank .space, .word ⟨"t", none⟩], by decide, by decide⟩]
  last := .statement [.newline]
    ⟨[.word ⟨"SELECT", none⟩, .blank .space, .word ⟨"c", none⟩, .blank .space,
      .word ⟨"FROM", none⟩, .blank .space, .word ⟨"u", none⟩], by decide, by decide⟩

/-- The semicolon in parentheses ends no statement, and before the first one stands none. -/
theorem analysis_by_statement_nested :
    let text := " ;SELECT f(a;b)) FROM t;\nSELECT c FROM u"
    Token.shown Script.Parts.nested.tokens = text ∧
      ((Script.split Script.Parts.nested.tokens).map groupStatement).map TokenTree.findings =
        [(.select, ["t"], ["f(a;b)"]), (.select, ["u"], ["c"])] ∧
      ((analyzeScript {} text).toOption.map fun results ↦
        results.map StatementAnalysis.sql) =
          some ["SELECT f(a;b)) FROM t;", "SELECT c FROM u"] ∧
      ((analyzeScript { firstOnly := true } text).toOption.map fun results ↦
        results.map StatementAnalysis.sql) = some ["SELECT f(a;b)) FROM t;"] := by
  refine ⟨by decide +kernel, ?_, by decide +kernel, ?_⟩
  · rw [analysis_by_statement.1 Script.Parts.nested]
    decide +kernel
  · rw [(analysis_by_statement.2 .generic false _).2]
    decide +kernel

end SqlFootprint
