import Mathlib.Data.List.Basic
import Mathlib.Data.List.Induction
import Mathlib.Data.Nat.SuccPred
import SqlFootprint.Proofs.Links
import SqlFootprint.Tree.Program

/-!
# The normal form of builder programs

Whatever positions a program names, the tree that is finished has entries that name earlier ones
only. `Builder.Records` says what a builder holds after each call, and `normalForm_finish` what of
it is left: the children and operands that were there when the entry was made, the text of those
children, and as its parent the last entry that has it as a child.
-/

namespace SqlFootprint

open Entry

namespace Builder

/-- The entries that ask for a child which is there when they are made. -/
def Call.takers (calls : List Call) (child : Nat) : Set Nat :=
  {taker | child < taker ∧ ∃ call, calls[taker]? = some call ∧ child ∈ call.children}

/-- The text of an entry at a position, given the entries before it: that of a leaf is its own. -/
def Call.textAfter (entries : Array Entry) (position : Nat) : Call → String
  | leaf _ text => text
  | group _ children => String.join
      ((children.filter (· < position)).filterMap fun child ↦ entries[child]?.map Entry.text)

/-- The entry at a position is the one that was asked for, among the given entries. -/
structure Call.Makes (call : Call) (entries : Array Entry) (position : Nat) (entry : Entry) :
    Prop where
  kind : entry.kind = call.kind
  children : entry.children = call.children
  text : entry.text = call.textAfter entries position

/-- The builder holds one entry for each call, and for each child the last that asked for it. -/
structure Records (builder : Builder) (calls : List Call) : Prop where
  size : builder.entries.size = calls.length
  entry : ∀ (position : Nat) (call : Call), calls[position]? = some call →
    ∃ entry, builder.entries[position]? = some entry ∧
      call.Makes builder.entries position entry
  parent : ∀ child parent, parentAt? builder.entries child = some parent ↔
    IsGreatest (Call.takers calls child) parent

/-! ### One call -/

/-- The entries after one more call: those before, with a new parent where they are asked for, and
the entry that is made. -/
theorem entries_make (builder : Builder) (call : Call) :
    (builder.make call).entries = (adopt builder.entries builder.next call.children).push
      { kind := call.kind
        text := call.textAfter builder.entries builder.next
        children := call.children } := by
  cases call with
  | leaf kind text => rfl
  | group kind children =>
    have htext : builder.textOf children =
        (Call.group kind children).textAfter builder.entries builder.next := by
      rw [textOf, Call.textAfter, List.filterMap_filter]
      congr 2
      funext child
      by_cases hchild : child < builder.next
      · simp [hchild]
      · have hnone : builder.entries[child]? = none :=
          Array.getElem?_eq_none (Nat.le_of_not_lt hchild)
        simp [hchild, hnone]
    rw [← htext]
    rfl

private theorem size_make (builder : Builder) (call : Call) :
    (builder.make call).entries.size = builder.entries.size + 1 := by
  rw [entries_make, Array.size_push, size_adopt]

/-- The entries that were there stay, but for their parents. -/
theorem getElem?_make {builder : Builder} {position : Nat} {entry : Entry}
    (h : builder.entries[position]? = some entry) (call : Call) :
    ∃ parent, (builder.make call).entries[position]? = some { entry with parent } := by
  have hposition := (Array.getElem?_eq_some_iff.1 h).1
  have hne : position ≠ (adopt builder.entries builder.next call.children).size := by
    rw [size_adopt]
    omega
  rw [entries_make, Array.getElem?_push, if_neg hne, getElem?_adopt, h]
  by_cases hmem : position ∈ call.children
  · exact ⟨some builder.next, by simp [hmem]⟩
  · exact ⟨entry.parent, by simp [hmem]⟩

private theorem map_text_make {builder : Builder} {position : Nat}
    (h : position < builder.entries.size)
    (call : Call) : (builder.make call).entries[position]?.map Entry.text =
      builder.entries[position]?.map Entry.text := by
  have hentry := Array.getElem?_eq_getElem h
  obtain ⟨parent, hmade⟩ := getElem?_make hentry call
  rw [hmade, hentry]
  rfl

private theorem parentAt?_make (builder : Builder) (call : Call) (child : Nat) :
    parentAt? (builder.make call).entries child =
      if child < builder.next ∧ child ∈ call.children then some builder.next
      else parentAt? builder.entries child := by
  rw [entries_make, parentAt?_push, size_adopt]
  by_cases hlast : child = builder.entries.size
  · have hnone : parentAt? builder.entries child = none := by
      rw [parentAt?, Array.getElem?_eq_none (Nat.le_of_eq hlast.symm)]
      rfl
    have hnot : ¬(child < builder.next ∧ child ∈ call.children) := fun h ↦ by
      have hlt : child < builder.entries.size := h.1
      omega
    rw [if_pos hlast, if_neg hnot, hnone]
  · rw [if_neg hlast, parentAt?, getElem?_adopt, parentAt?]
    by_cases hchild : child < builder.entries.size
    · have hnext : child < builder.next := hchild
      rw [Array.getElem?_eq_getElem hchild]
      by_cases hmem : child ∈ call.children
      · simp [hnext, hmem]
      · simp [hmem]
    · have hnext : ¬child < builder.next := hchild
      rw [Array.getElem?_eq_none (Nat.le_of_not_lt hchild)]
      simp [hnext]

private theorem Call.textAfter_congr {entries others : Array Entry} {position : Nat} (call : Call)
    (h : ∀ child < position, entries[child]?.map Entry.text = others[child]?.map Entry.text) :
    call.textAfter entries position = call.textAfter others position := by
  cases call with
  | leaf kind text => rfl
  | group kind children =>
    rw [Call.textAfter, Call.textAfter]
    congr 1
    apply List.filterMap_congr
    intro child hmem
    exact h child (of_decide_eq_true (List.mem_filter.1 hmem).2)

/-- What takes a child is one of the calls. -/
theorem Call.lt_of_mem_takers {calls : List Call} {child taker : Nat}
    (h : taker ∈ takers calls child) : taker < calls.length := by
  obtain ⟨-, call, hcall, -⟩ := h
  exact (List.getElem?_eq_some_iff.1 hcall).1

private theorem Call.mem_takers_concat {calls : List Call} {call : Call} {child taker : Nat} :
    taker ∈ takers (calls ++ [call]) child ↔
      taker ∈ takers calls child ∨
        taker = calls.length ∧ child < calls.length ∧ child ∈ call.children := by
  simp only [takers, Set.mem_ofPred_eq]
  rcases Nat.lt_trichotomy taker calls.length with hlt | rfl | hgt
  · rw [List.getElem?_append_left hlt]
    have hne : taker ≠ calls.length := Nat.ne_of_lt hlt
    simp [hne]
  · simp
  · have hnone : (calls ++ [call])[taker]? = none := by
      rw [List.getElem?_eq_none_iff, List.length_append, List.length_singleton]
      omega
    have hbefore : calls[taker]? = none := List.getElem?_eq_none_iff.2 (Nat.le_of_lt hgt)
    have hne : taker ≠ calls.length := Nat.ne_of_gt hgt
    simp [hnone, hbefore, hne]

namespace Records

variable {builder : Builder} {calls : List Call}

private theorem nil : Records {} [] where
  size := rfl
  entry := by simp
  parent child parent := by
    constructor
    · intro h
      simp [parentAt?] at h
    · intro h
      exact absurd (Call.lt_of_mem_takers h.1) (Nat.not_lt_zero _)

private theorem entry_make (h : Records builder calls) (call : Call) {position : Nat} {given : Call}
    (hgiven : (calls ++ [call])[position]? = some given) :
    ∃ entry, (builder.make call).entries[position]? = some entry ∧
      given.Makes (builder.make call).entries position entry := by
  have hbound := (List.getElem?_eq_some_iff.1 hgiven).1
  rw [List.length_append, List.length_singleton] at hbound
  have htext : given.textAfter (builder.make call).entries position =
      given.textAfter builder.entries position := by
    apply given.textAfter_congr
    intro child hchild
    apply map_text_make
    rw [h.size]
    omega
  rcases Nat.lt_or_ge position calls.length with hlt | hge
  · rw [List.getElem?_append_left hlt] at hgiven
    obtain ⟨entry, hentry, hmakes⟩ := h.entry position given hgiven
    obtain ⟨parent, hmade⟩ := getElem?_make hentry call
    exact ⟨_, hmade, hmakes.kind, hmakes.children, hmakes.text.trans htext.symm⟩
  · obtain rfl : position = calls.length := by omega
    obtain rfl : call = given := by simpa using hgiven
    have hnext : builder.next = calls.length := h.size
    have hsize : (adopt builder.entries builder.next call.children).size = calls.length := by
      rw [size_adopt, h.size]
    refine ⟨{
      kind := call.kind
      text := call.textAfter builder.entries builder.next
      children := call.children }, ?_, ?_⟩
    · rw [entries_make, Array.getElem?_push, if_pos hsize.symm]
    · rw [hnext]
      exact ⟨rfl, rfl, htext.symm⟩

private theorem parent_make (h : Records builder calls) (call : Call) (child parent : Nat) :
    parentAt? (builder.make call).entries child = some parent ↔
      IsGreatest (Call.takers (calls ++ [call]) child) parent := by
  have hnext : builder.next = calls.length := h.size
  have hupper : ∀ taker ∈ Call.takers calls child, taker ≤ calls.length := fun taker hmem ↦
    Nat.le_of_lt (Call.lt_of_mem_takers hmem)
  rw [parentAt?_make, hnext]
  by_cases htakes : child < calls.length ∧ child ∈ call.children
  · have hgreatest : IsGreatest (Call.takers (calls ++ [call]) child) calls.length := by
      refine ⟨Call.mem_takers_concat.2 (.inr ⟨rfl, htakes⟩), fun taker hmem ↦ ?_⟩
      rcases Call.mem_takers_concat.1 hmem with hbefore | ⟨rfl, -⟩
      · exact hupper taker hbefore
      · exact Nat.le_refl _
    rw [if_pos htakes, Option.some_inj]
    constructor
    · rintro rfl
      exact hgreatest
    · exact hgreatest.unique
  · have hsame : Call.takers (calls ++ [call]) child = Call.takers calls child := by
      ext taker
      rw [Call.mem_takers_concat]
      exact or_iff_left fun hlast ↦ htakes hlast.2
    rw [if_neg htakes, hsame, h.parent]

private theorem make (h : Records builder calls) (call : Call) :
    Records (builder.make call) (calls ++ [call]) where
  size := by rw [size_make, h.size, List.length_append, List.length_singleton]
  entry _ _ := h.entry_make call
  parent := h.parent_make call

/-- A builder holds an entry for each of the calls that it was given. -/
theorem run (calls : List Call) : Records (run calls) calls := by
  induction calls using List.reverseRecOn with
  | nil => exact nil
  | append_singleton calls call ih =>
    rw [run_concat]
    exact ih.make call

end Records

end Builder

/-! ### What is finished -/

namespace Kind

/-- A kind keeps its operands if they all stand before, and is a literal otherwise. -/
theorem resolve_earlier?_eq (kind : Kind Nat) (position : Nat) :
    kind.resolve (Builder.earlier? position) =
      if ∀ operand ∈ kind.operands, operand < position then kind else literal := by
  cases kind with
  | comparison left operator right =>
    by_cases hleft : left < position
    · by_cases hright : right < position
      · simp [resolve, operands, Builder.earlier?, hleft, hright]
      · simp [resolve, operands, Builder.earlier?, hright]
    · simp [resolve, operands, Builder.earlier?, hleft]
  | _ => simp [resolve, operands]

private theorem lt_of_mem_operands_resolve {kind : Kind Nat} {position operand : Nat}
    (h : operand ∈ (kind.resolve (Builder.earlier? position)).operands) : operand < position := by
  rw [resolve_earlier?_eq] at h
  split at h
  · next hall => exact hall operand h
  · exact absurd h List.not_mem_nil

end Kind

namespace Builder

/-- The entry of a finished tree at a position is what is left of the one that was asked for: the
children that stand before it, its kind unless an operand does not, and the text of what is left. -/
structure Call.Leaves (call : Call) (tree : TokenTree) (position : Nat) (entry : Entry) :
    Prop where
  children : entry.children = call.children.filter (· < position)
  child_lt : ∀ child ∈ entry.children, child < position
  kind : entry.kind =
    if ∀ operand ∈ call.kind.operands, operand < position then call.kind else .literal
  operand_lt : ∀ operand ∈ entry.kind.operands, operand < position
  text : entry.text = match call with
    | leaf _ text => text
    | group _ _ => String.join
        (entry.children.filterMap fun child ↦ tree.entries[child]?.map Entry.text)

end Builder

/-- The tree is what is left of the calls and the roots: the roots that are there, the entry that
each call leaves, and for each entry as its parent the last that has it as a child. -/
structure TokenTree.NormalForm (calls : List Builder.Call) (roots : List Nat) (tree : TokenTree) :
    Prop where
  size : tree.entries.size = calls.length
  roots : tree.roots = roots.filter (· < calls.length)
  root_lt : ∀ root ∈ tree.roots, root < tree.entries.size
  entry : ∀ (position : Nat) (call : Builder.Call), calls[position]? = some call →
    ∃ entry, tree.entries[position]? = some entry ∧ call.Leaves tree position entry
  parent_eq_some : ∀ child parent, parentAt? tree.entries child = some parent ↔
    IsGreatest {taker | child ∈ childrenAt tree.entries taker} parent
  parent_eq_none : ∀ child, parentAt? tree.entries child = none ↔
    ∀ taker, child ∉ childrenAt tree.entries taker

namespace Builder

/-- The entries of a finished tree are those of the builder without what was not there in time. -/
theorem getElem?_finish (builder : Builder) (roots : List Nat) (position : Nat) :
    (builder.finish roots).entries[position]? =
      builder.entries[position]?.map (settle builder.next position) := by
  rw [finish, Array.getElem?_mapIdx]

private theorem map_text_finish (builder : Builder) (roots : List Nat) (position : Nat) :
    (builder.finish roots).entries[position]?.map Entry.text =
      builder.entries[position]?.map Entry.text := by
  rw [getElem?_finish, Option.map_map]
  rfl

namespace Records

variable {builder : Builder} {calls : List Call}

/-- What a call has made is finished as what the call leaves. -/
theorem leaves_finish (h : Records builder calls) (roots : List Nat) {position : Nat} {call : Call}
    (hcall : calls[position]? = some call) :
    ∃ entry, (builder.finish roots).entries[position]? = some entry ∧
      call.Leaves (builder.finish roots) position entry := by
  obtain ⟨entry, hentry, hmakes⟩ := h.entry position call hcall
  refine ⟨settle builder.next position entry, by rw [getElem?_finish, hentry, Option.map_some], ?_⟩
  refine ⟨?_, ?_, ?_, ?_, ?_⟩
  · rw [settle, hmakes.children]
  · intro child hmem
    exact of_decide_eq_true (List.mem_filter.1 hmem).2
  · rw [settle, hmakes.kind, Kind.resolve_earlier?_eq]
  · exact fun operand hmem ↦ Kind.lt_of_mem_operands_resolve hmem
  · cases call with
    | leaf kind text => exact hmakes.text
    | group kind children =>
      have hchildren : entry.children = children := hmakes.children
      simp only [settle, map_text_finish, hchildren]
      exact hmakes.text

private theorem mem_childrenAt_finish (h : Records builder calls) (roots : List Nat)
    (child taker : Nat) :
    child ∈ childrenAt (builder.finish roots).entries taker ↔
      taker ∈ Call.takers calls child := by
  rw [mem_childrenAt_iff]
  constructor
  · rintro ⟨entry, hentry, hmem⟩
    have hbound := (Array.getElem?_eq_some_iff.1 hentry).1
    rw [finish, Array.size_mapIdx, h.size] at hbound
    have hcall := List.getElem?_eq_getElem hbound
    obtain ⟨left, hleft, hleaves⟩ := h.leaves_finish roots hcall
    obtain rfl : left = entry := Option.some_inj.1 (hleft.symm.trans hentry)
    have hlt := hleaves.child_lt child hmem
    rw [hleaves.children] at hmem
    exact ⟨hlt, _, hcall, List.mem_of_mem_filter hmem⟩
  · rintro ⟨hlt, call, hcall, hmem⟩
    obtain ⟨entry, hentry, hleaves⟩ := h.leaves_finish roots hcall
    refine ⟨entry, hentry, ?_⟩
    rw [hleaves.children]
    exact List.mem_filter.2 ⟨hmem, decide_eq_true hlt⟩

/-- Finishing a tree drops no parent: the builder gives none that is not there. -/
theorem parentAt?_finish (h : Records builder calls) (roots : List Nat) (child : Nat) :
    parentAt? (builder.finish roots).entries child = parentAt? builder.entries child := by
  cases hentry : builder.entries[child]? with
  | none => simp only [parentAt?, getElem?_finish, hentry, Option.map_none]
  | some entry =>
    have hself : entry.parent.filter (fun parent ↦ child < parent && parent < builder.next) =
        entry.parent := by
      cases hparent : entry.parent with
      | none => rfl
      | some parent =>
        have hgreatest := (h.parent child parent).1 (by rw [parentAt?, hentry]; exact hparent)
        have hafter : child < parent := hgreatest.1.1
        have hbound : parent < builder.next := by
          rw [next, h.size]
          exact Call.lt_of_mem_takers hgreatest.1
        simp [hafter, hbound]
    simp only [parentAt?, getElem?_finish, hentry, Option.map_some, Option.bind_some]
    exact hself

/-- What a builder holds after the calls is finished in normal form. -/
theorem normalForm (h : Records builder calls) (roots : List Nat) :
    (builder.finish roots).NormalForm calls roots := by
  have hsize : (builder.finish roots).entries.size = calls.length := by
    rw [finish, Array.size_mapIdx, h.size]
  have hparent : ∀ child parent, parentAt? (builder.finish roots).entries child = some parent ↔
      IsGreatest {taker | child ∈ childrenAt (builder.finish roots).entries taker} parent := by
    intro child parent
    simp only [h.parentAt?_finish, h.parent, h.mem_childrenAt_finish]
    rfl
  have hroots : (builder.finish roots).roots = roots.filter (· < calls.length) := by
    rw [finish, next, h.size]
  refine ⟨hsize, hroots, ?_, fun _ _ ↦ h.leaves_finish roots, hparent, ?_⟩
  · intro root hmem
    rw [hroots] at hmem
    rw [hsize]
    exact of_decide_eq_true (List.mem_filter.1 hmem).2
  · intro child
    rw [Option.eq_none_iff_forall_ne_some]
    constructor
    · intro hnone taker hmem
      -- Of the entries that have the child, which are as many as the calls at most, one is last.
      have hbounded : BddAbove {taker | child ∈ childrenAt (builder.finish roots).entries taker} :=
        ⟨calls.length, fun taker hmem ↦ Nat.le_of_lt
          (Call.lt_of_mem_takers ((h.mem_childrenAt_finish roots child taker).1 hmem))⟩
      obtain ⟨last, hlast⟩ := hbounded.exists_isGreatest_of_nonempty ⟨taker, hmem⟩
      exact hnone last ((hparent child last).2 hlast)
    · intro hnot parent hsome
      exact hnot parent ((hparent child parent).1 hsome).1

/-- Nothing is dropped where every call names entries that are there. -/
theorem finish_eq_self (h : Records builder calls) {roots : List Nat}
    (hcalls : ∀ (position : Nat) (call : Call), calls[position]? = some call →
      ∀ named ∈ call.children ++ call.kind.operands, named < position)
    (hroots : ∀ root ∈ roots, root < calls.length) :
    builder.finish roots = ⟨builder.entries, roots⟩ := by
  have hkept : roots.filter (· < builder.next) = roots := by
    rw [List.filter_eq_self, next, h.size]
    exact fun root hmem ↦ decide_eq_true (hroots root hmem)
  have hentries : builder.entries.mapIdx (settle builder.next) = builder.entries := by
    apply Array.ext_getElem?
    intro position
    have hfinish := getElem?_finish builder roots position
    rw [finish] at hfinish
    rw [hfinish]
    cases hentry : builder.entries[position]? with
    | none => rfl
    | some entry =>
      have hbound := (Array.getElem?_eq_some_iff.1 hentry).1
      rw [h.size] at hbound
      have hcall := List.getElem?_eq_getElem hbound
      obtain ⟨made, hmade, hmakes⟩ := h.entry position _ hcall
      obtain rfl : made = entry := Option.some_inj.1 (hmade.symm.trans hentry)
      have hnamed := hcalls position _ hcall
      have hkind : made.kind.resolve (earlier? position) = made.kind := by
        rw [Kind.resolve_earlier?_eq, hmakes.kind, if_pos]
        exact fun operand hmem ↦ hnamed operand (List.mem_append_right _ hmem)
      have hchildren : made.children.filter (· < position) = made.children := by
        rw [hmakes.children, List.filter_eq_self]
        exact fun child hmem ↦ decide_eq_true (hnamed child (List.mem_append_left _ hmem))
      have hparent := h.parentAt?_finish roots position
      simp only [parentAt?, getElem?_finish, hentry, Option.map_some, Option.bind_some] at hparent
      rw [Option.map_some, settle, hkind, hchildren]
      exact congrArg (fun parent ↦ some { made with parent }) hparent
  rw [finish, hkept, hentries]

end Records

/-- Whatever positions the calls and the roots name, the finished tree is in normal form; and where
they name entries that are there, it is what the builder holds. -/
theorem normalForm_finish (calls : List Call) (roots : List Nat) :
    ((run calls).finish roots).NormalForm calls roots ∧
      ((∀ (position : Nat) (call : Call), calls[position]? = some call →
          ∀ named ∈ call.children ++ call.kind.operands, named < position) →
        (∀ root ∈ roots, root < calls.length) →
        (run calls).finish roots = ⟨(run calls).entries, roots⟩) := by
  have hrecords := Records.run calls
  exact ⟨hrecords.normalForm roots, hrecords.finish_eq_self⟩

/-- A list over two leaves is finished as it was made. -/
theorem finish_list_of_two :
    let calls : List Call :=
      [.leaf .literal "1", .leaf .literal "2", .group .identifierList [0, 1]]
    (run calls).finish [2] = ⟨(run calls).entries, [2]⟩ := by
  refine (normalForm_finish _ _).2 ?_ (by decide)
  intro position call hcall
  match position with
  | 0 | 1 | 2 =>
    cases hcall
    decide
  | position + 3 => cases hcall

/-- Positions that were not there in time are dropped, and the last of two groups is the parent. -/
example :
    (run [.leaf .literal "1", .group .identifierList [0, 1, 7],
      .group (.comparison 0 "=" 2) [2, 0, 0]]).finish [2, 9] =
    ⟨#[{ kind := .literal, text := "1", parent := some 2 },
      { kind := .identifierList, text := "1", children := [0] },
      { kind := .literal, text := "11", children := [0, 0] }], [2]⟩ := by
  decide +kernel

end Builder

end SqlFootprint
