import SqlFootprint.Proofs.Prefixes
import SqlFootprint.Proofs.Twins

/-!
# Names after `AS`

A name after `AS` becomes the alias of the name, call or value before it, or stays where it is and
is grouped with what follows. Either way a level with another name in its place is grouped to the
same nodes but for one, which differs in an alias or stands where its first name is taken for one
(`differInAlias_regroup`).
-/

namespace SqlFootprint

open Grouping

namespace Node

/-- The sequences differ in one node only, and there in an alias, or in a name that is one for where
it stands; the keywords of blocks are `before` up to that node and `after` behind it. -/
def DifferInAlias (before after nodes others : List Node) : Prop :=
  ∃ without front first second back, nodes = front ++ first :: back ∧
    others = front ++ second :: back ∧ Trades without first second ∧
    (without = true ∨ ∀ last, introducesAlias (lastOf last front) = true) ∧
    front.filter isCaseMark = before ∧ back.filter isCaseMark = after

/-- What stands around sequences that differ in an alias is the same. -/
theorem DifferInAlias.append {before after nodes others : List Node}
    (h : DifferInAlias before after nodes others) (first second : List Node) :
    DifferInAlias (first.filter isCaseMark ++ before) (after ++ second.filter isCaseMark)
      (first ++ (nodes ++ second)) (first ++ (others ++ second)) := by
  obtain ⟨without, front, node, other, back, rfl, rfl, htrades, hplace, rfl, rfl⟩ := h
  refine ⟨without, first ++ front, node, other, back ++ second, ?_, ?_, htrades, ?_, ?_, ?_⟩
  · simp only [List.append_assoc, List.cons_append]
  · simp only [List.append_assoc, List.cons_append]
  · rcases hplace with hwithout | hplace
    · exact .inl hwithout
    · refine .inr fun last ↦ ?_
      rw [lastOf_append]
      exact hplace _
  · rw [List.filter_append]
  · rw [List.filter_append]

/-- The nodes of an alias with `AS`, and what follows it. -/
def namedAs (word : Spelled ["AS"]) (blanks : List Blank) (name : NameWord) (rest : List Node) :
    List Node :=
  word.node :: (Blank.nodes blanks ++ name.plain.node :: rest)

end Node

namespace Grouping

open Node

/-- Grouping spares the keywords of blocks. -/
theorem spares_isCaseMark :
    Spares aliasStep isCaseMark ∧ Spares comparisonStep isCaseMark ∧ Spares listStep isCaseMark :=
  ⟨spares_aliasStep isBarrier_of_isCaseMark isAnyKeyword_of_isCaseMark,
    spares_comparisonStep isBarrier_of_isCaseMark isAnyKeyword_of_isCaseMark,
    spares_listStep isBarrier_of_isCaseMark isAnyKeyword_of_isCaseMark⟩

/-! ### Aliases -/

section

variable (word : Spelled ["AS"]) (blanks : List Blank)

private theorem aliasAfter?_namedAs {before : List Node} (hbefore : significant? before = none)
    (name : NameWord) (rest : List Node) :
    aliasAfter? (before ++ namedAs word blanks name rest) =
      some (name.word.value,
        before.length + 1 + (Blank.nodes blanks ++ [name.plain.node]).length) := by
  have has : word.node.isKeyword "AS" = true := word.isKeyword_eq (by decide)
  have hname := significant?_blanks_append blanks name.plain.node rest rfl
  rw [aliasAfter?, namedAs, significant?_append_cons _ _ rfl, hbefore, Option.none_or]
  simp only [has, ↓reduceIte]
  rw [← Nat.add_zero (before.length + 1), drop_append_cons, List.drop_zero, hname]
  simp only [Option.bind_some, Alias.bareName?_plain, Option.map_some, Nat.add_zero]

private theorem aliasAfter?_append_namedAs {before : List Node}
    (hbefore : significant? before ≠ none)
    (name : NameWord) (rest : List Node) :
    aliasAfter? (before ++ namedAs word blanks name rest) = aliasAfter? before := by
  obtain ⟨found, hfound⟩ := Option.ne_none_iff_exists'.1 hbefore
  have hcount := (significant?_count hfound).2
  rw [aliasAfter?, aliasAfter?, namedAs, significant?_append_cons _ _ rfl, hfound]
  simp only [Option.or_some, Option.getD_some]
  rw [List.drop_append_of_le_length hcount, significant?_append_cons _ _ rfl]
  cases significant? (before.drop found.2) with
  | none =>
    have hbare : bareName? word.node = none := rfl
    simp [hbare]
  | some next => rfl

private theorem twins_of_aliasedKind? {node : Node} {kindOf : String → Kind Node}
    (h : aliasedKind? node = some kindOf) (first second : String) (children others : List Node) :
    Twins true (.group (kindOf first) (node :: children))
      (.group (kindOf second) (node :: others)) := by
  unfold aliasedKind? at h
  split at h
  · split at h
    · cases h
    · cases h
      exact .name fun _ ↦ ⟨rfl, rfl⟩
  · cases h
    exact .call
  · cases h
    exact .value
  · cases h

private theorem groupAliases_namedAs {node : Node} {kindOf : String → Kind Node}
    (hkind : aliasedKind? node = some kindOf) {before : List Node}
    (hbefore : significant? before = none) (name : NameWord) (rest : List Node) :
    groupAliases (node :: (before ++ namedAs word blanks name rest)) =
      .group (kindOf name.word.value) (node :: (before ++ namedAs word blanks name [])) ::
        groupAliases rest := by
  have hstep : aliasStep node (before ++ namedAs word blanks name rest) =
      some (kindOf name.word.value,
        before.length + 1 + (Blank.nodes blanks ++ [name.plain.node]).length) := by
    rw [aliasStep, hkind, aliasAfter?_namedAs word blanks hbefore]
    rfl
  have htake : (Blank.nodes blanks ++ name.plain.node :: rest).take
      (Blank.nodes blanks ++ [name.plain.node]).length =
        Blank.nodes blanks ++ [name.plain.node] := by
    have hsplit : Blank.nodes blanks ++ name.plain.node :: rest =
        (Blank.nodes blanks ++ [name.plain.node]) ++ rest := List.append_cons _ _ _
    rw [hsplit, List.take_left]
  rw [folds_groupAliases.fold hstep, namedAs, take_append_cons, drop_append_cons, htake,
    Blank.drop_nodes_append]
  rfl

private theorem aliasStep_append_namedAs {node : Node} {before : List Node}
    (h : aliasedKind? node = none ∨ significant? before ≠ none) (name : NameWord)
    (rest : List Node) :
    aliasStep node (before ++ namedAs word blanks name rest) = aliasStep node before := by
  rcases h with hkind | hbefore
  · rw [aliasStep, aliasStep, hkind]
    rfl
  · rw [aliasStep, aliasStep, aliasAfter?_append_namedAs word blanks hbefore]

/-- `AS` and blanks open and close no blocks. -/
theorem filter_as_blanks : (word.node :: Blank.nodes blanks).filter isCaseMark = [] := by
  rw [List.filter_eq_nil_iff, List.forall_mem_cons]
  constructor
  · have hcase : word.node.isKeyword "CASE" = false := word.isKeyword_eq (by decide)
    have hend : word.node.isKeyword "END" = false := word.isKeyword_eq (by decide)
    simp [isCaseMark, hcase, hend]
  · exact Blank.forall_mem_nodes (fun _ ↦ Bool.false_ne_true) blanks

/-- A name after `AS` opens and closes no blocks. -/
theorem filter_namedAs (name : NameWord) (rest : List Node) :
    (namedAs word blanks name rest).filter isCaseMark = rest.filter isCaseMark := by
  have hname : name.plain.node.isCaseMark = false := rfl
  rw [namedAs, ← List.cons_append, List.filter_append, filter_as_blanks, List.nil_append,
    List.filter_cons_of_neg (by simp [hname])]

/-- For both names after `AS` the aliases are grouped in the same way: the name becomes the alias of
what stands before it, or it stays after `AS` and is grouped with what follows it. -/
def SettlesAlias (name other : NameWord) (before rest : List Node) : Prop :=
  DifferInOne isCaseMark (Twins true) (before.filter isCaseMark) (rest.filter isCaseMark)
      (groupAliases (before ++ namedAs word blanks name rest))
      (groupAliases (before ++ namedAs word blanks other rest)) ∨
    ∃ front, front.filter isCaseMark = before.filter isCaseMark ∧ ∀ name,
      groupAliases (before ++ namedAs word blanks name rest) =
        front ++ word.node :: (Blank.nodes blanks ++ groupAliases (name.plain.node :: rest))

section

variable {word : Spelled ["AS"]} {blanks : List Blank} {name other : NameWord}
  {before rest : List Node}

private theorem SettlesAlias.cons {more : List Node}
    (h : SettlesAlias word blanks name other more rest)
    {node : Node} (hmarks : (node :: more).filter isCaseMark = before.filter isCaseMark)
    (hgroup : ∀ name, groupAliases (before ++ namedAs word blanks name rest) =
      node :: groupAliases (more ++ namedAs word blanks name rest)) :
    SettlesAlias word blanks name other before rest := by
  rcases h with hdiffer | ⟨front, hfront, hnodes⟩
  · refine .inl ?_
    rw [hgroup, hgroup, ← hmarks]
    exact hdiffer.cons node
  · refine .inr ⟨node :: front, ?_, ?_⟩
    · rw [← hmarks, List.filter_cons, List.filter_cons, hfront]
    · intro name
      rw [hgroup, hnodes, List.cons_append]

private theorem SettlesAlias.of_aliasedKind? {node : Node} {kindOf : String → Kind Node}
    (hkind : aliasedKind? node = some kindOf) (hbefore : significant? before = none) :
    SettlesAlias word blanks name other (node :: before) rest := by
  refine .inl ⟨[], _, _, groupAliases rest,
    groupAliases_namedAs word blanks hkind hbefore name rest,
    groupAliases_namedAs word blanks hkind hbefore other rest,
    twins_of_aliasedKind? hkind _ _ _ _, ?_, folds_groupAliases.filter_eq spares_isCaseMark.1 rest⟩
  symm
  rw [List.filter_nil, List.filter_eq_nil_iff, List.forall_mem_cons]
  constructor
  · have hoperand := (isOperand_of_aliasedKind? hkind).1
    simp [isCaseMark_eq_false (of_isOperand hoperand).1]
  · intro blank hmem hmark
    have hblank := significant?_eq_none_iff.1 hbefore blank hmem
    rw [isBlank_of_isAnyKeyword (of_isCaseMark hmark).1] at hblank
    cases hblank

end

private theorem settlesAlias (name other : NameWord) (before rest : List Node) :
    SettlesAlias word blanks name other before rest := by
  induction before using folds_groupAliases.induction with
  | nil =>
    refine .inr ⟨[], rfl, ?_⟩
    intro name
    rw [List.nil_append, namedAs, folds_groupAliases.keep rfl,
      folds_groupAliases.append_of_keeps (aliasStep_blanks blanks), List.nil_append]
  | @keep node before hstep ih =>
    -- Only over blanks does a node reach `AS`; any other front ends the search for its alias.
    by_cases hfree : aliasedKind? node = none ∨ significant? before ≠ none
    · apply ih.cons rfl
      intro name
      apply folds_groupAliases.keep
      exact (aliasStep_append_namedAs word blanks hfree name rest).trans hstep
    · obtain ⟨hkind, hbefore⟩ := not_or.1 hfree
      obtain ⟨kindOf, hkindOf⟩ := Option.ne_none_iff_exists'.1 hkind
      exact .of_aliasedKind? hkindOf (Decidable.not_not.1 hbefore)
  | @fold node before kind count hstep ih =>
    obtain ⟨_, aliasName, _, halias, _⟩ := aliasStep_eq_some hstep
    have hcount := (aliasAfter?_count halias).2
    have hbefore : significant? before ≠ none := by
      intro hnone
      rw [aliasAfter?, hnone] at halias
      cases halias
    apply ih.cons (folds_groupAliases.filter_group spares_isCaseMark.1 hstep)
    intro name
    have hstarts : aliasStep node (before ++ namedAs word blanks name rest) = some (kind, count) :=
      (aliasStep_append_namedAs word blanks (.inr hbefore) name rest).trans hstep
    rw [List.cons_append, folds_groupAliases.fold hstarts, List.take_append_of_le_length hcount,
      List.drop_append_of_le_length hcount]

private theorem startsAlike_aliasStep (name other : NameWord) :
    StartsAlike aliasStep (Twins false) name.plain.node other.plain.node := by
  intro rest
  have hstep (name : NameWord) : aliasStep name.plain.node rest =
      (aliasAfter? rest).map fun found ↦
        (.identifier ⟨name.word.value, none, some found.1⟩, found.2) := by
    have hkind : aliasedKind? name.plain.node =
        some fun aliasName ↦ .identifier ⟨name.word.value, none, some aliasName⟩ :=
      if_neg name.notStar
    rw [aliasStep, hkind, Option.bind_some]
  rw [hstep, hstep]
  cases aliasAfter? rest with
  | none => exact .inl ⟨rfl, rfl, .name fun h ↦ absurd h Bool.false_ne_true⟩
  | some found => exact .inr ⟨_, _, _, rfl, rfl, .name fun h ↦ absurd h Bool.false_ne_true⟩

private theorem exists_regroup_head (name other : NameWord) (rest : List Node) :
    ∃ first second back, regroup (name.plain.node :: rest) = first :: back ∧
      regroup (other.plain.node :: rest) = second :: back ∧ Trades false first second ∧
      back.filter isCaseMark = rest.filter isCaseMark := by
  obtain ⟨haliases, hcomparisons, hlists⟩ := spares_isCaseMark
  obtain ⟨first, second, back, hfirst, hsecond, htwins, hback⟩ :=
    folds_groupAliases.exists_head haliases (startsAlike_aliasStep name other) rest
  obtain ⟨first', second', back', hfirst', hsecond', htwins', hback'⟩ :=
    folds_groupComparisons.exists_head hcomparisons (startsAlike_comparisonStep htwins) back
  obtain ⟨node, node', nodes, hnode, hnode', htrades, hnodes⟩ :=
    folds_groupLists.exists_head hlists (startsAlike_listStep htwins') back'
  refine ⟨node, node', nodes, ?_, ?_, htrades, hnodes.trans (hback'.trans hback)⟩
  · rw [regroup, hfirst, hfirst', hnode]
  · rw [regroup, hsecond, hsecond', hnode']

/-- A level with a name after `AS` and the one with another name in its place differ in an alias. -/
theorem differInAlias_regroup (name other : NameWord) (before rest : List Node) :
    DifferInAlias (before.filter isCaseMark) (rest.filter isCaseMark)
      (regroup (before ++ namedAs word blanks name rest))
      (regroup (before ++ namedAs word blanks other rest)) := by
  obtain ⟨-, hcomparisons, hlists⟩ := spares_isCaseMark
  rcases settlesAlias word blanks name other before rest with hdiffer | ⟨front, hfront, hnodes⟩
  · have hcompared := folds_groupComparisons.differInOne hcomparisons
      startsAlike_comparisonStep reachesAlike_comparisonStep hdiffer
    have hlisted := folds_groupLists.differInOne hlists startsAlike_listStep reachesAlike_listStep
      hcompared
    obtain ⟨front, first, second, back, hfirst, hsecond, htrades, hfront, hback⟩ := hlisted
    exact ⟨true, front, first, second, back, hfirst, hsecond, htrades, .inl rfl, hfront, hback⟩
  · obtain ⟨first, second, back, hfirst, hsecond, htrades, hback⟩ :=
      exists_regroup_head name other rest
    -- `AS` is no barrier to aliases, but the aliases are grouped by now.
    have hlevel (name : NameWord) : regroup (before ++ namedAs word blanks name rest) =
        groupLists (groupComparisons front) ++ word.node ::
          (Blank.nodes blanks ++ regroup (name.plain.node :: rest)) := by
      have hcomparison : Bars comparisonStep word.node := bars_comparisonStep rfl rfl rfl
      have hlist : Bars listStep word.node := bars_listStep rfl rfl rfl
      rw [regroup, hnodes, folds_groupComparisons.append_cons hcomparison,
        folds_groupComparisons.append_of_keeps (comparisonStep_blanks blanks),
        folds_groupLists.append_cons hlist,
        folds_groupLists.append_of_keeps (listStep_blanks blanks)]
      rfl
    refine ⟨false, groupLists (groupComparisons front) ++ word.node :: Blank.nodes blanks, first,
      second, back, ?_, ?_, htrades, ?_, ?_, hback⟩
    · rw [hlevel, hfirst, List.append_assoc, List.cons_append]
    · rw [hlevel, hsecond, List.append_assoc, List.cons_append]
    · refine .inr fun last ↦ ?_
      have has : word.node.isKeyword "AS" = true := word.isKeyword_eq (by decide)
      have hlast (last : Option Node) :
          lastOf last (word.node :: Blank.nodes blanks) = some word.node :=
        lastOf_blanks (some word.node) blanks
      rw [lastOf_append, hlast]
      simp [introducesAlias, has]
    · rw [List.filter_append, filter_as_blanks, List.append_nil, folds_groupLists.filter_eq hlists,
        folds_groupComparisons.filter_eq hcomparisons, hfront]

end

end Grouping

end SqlFootprint
