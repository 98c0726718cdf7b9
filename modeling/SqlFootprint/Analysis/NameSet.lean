/-!
# Sets of names

A set of names is the list of its members in increasing order, each once. `mem_ofList_iff` says
that a set holds exactly the names it was made of, and `ext` that sets with the same members are
equal.
-/

namespace SqlFootprint

/-- A set of names, kept as its members in increasing order. -/
structure NameSet where
  names : List String
  increasing : names.Pairwise (· < ·)
  deriving DecidableEq

namespace NameSet

/-- The set without names. -/
def empty : NameSet := ⟨[], .nil⟩

instance : EmptyCollection NameSet := ⟨empty⟩

/-- Put a name at its place in an increasing list, unless it is there. -/
def place (name : String) : List String → List String
  | [] => [name]
  | first :: rest =>
    if name < first then name :: first :: rest
    else if name = first then first :: rest
    else first :: place name rest

theorem mem_place_iff {name other : String} {names : List String} :
    other ∈ place name names ↔ other = name ∨ other ∈ names := by
  induction names with
  | nil => simp [place]
  | cons first rest ih =>
    unfold place
    split
    · simp
    · split
      · next h => subst h; simp
      · simp only [List.mem_cons, ih]
        exact or_left_comm

private theorem lt_of_not {name first : String} (hlt : ¬ name < first) (hne : name ≠ first) :
    first < name := by
  rcases Std.lt_trichotomy name first with h | h | h
  · exact absurd h hlt
  · exact absurd h hne
  · exact h

private theorem pairwise_place (name : String) {names : List String} (h : names.Pairwise (· < ·)) :
    (place name names).Pairwise (· < ·) := by
  induction names with
  | nil => simp [place]
  | cons first rest ih =>
    obtain ⟨hfirst, hrest⟩ := List.pairwise_cons.1 h
    unfold place
    split
    · next hlt =>
      refine List.pairwise_cons.2 ⟨?_, h⟩
      intro other hmem
      rcases List.mem_cons.1 hmem with rfl | hmem
      · exact hlt
      · exact Std.lt_trans hlt (hfirst other hmem)
    · next hlt =>
      split
      · exact h
      · next hne =>
        refine List.pairwise_cons.2 ⟨?_, ih hrest⟩
        intro other hmem
        rcases mem_place_iff.1 hmem with rfl | hmem
        · exact lt_of_not hlt hne
        · exact hfirst other hmem

/-- The set with one more name. -/
def insert (name : String) (set : NameSet) : NameSet :=
  ⟨place name set.names, pairwise_place name set.increasing⟩

/-- The set of the names in a list. -/
def ofList (names : List String) : NameSet := names.foldr insert empty

/-- The set has no names. -/
def isEmpty (set : NameSet) : Bool := set.names.isEmpty

instance : Membership String NameSet := ⟨fun set name ↦ name ∈ set.names⟩

/-- A set holds exactly the names it was made of. -/
theorem mem_ofList_iff {name : String} {names : List String} :
    name ∈ ofList names ↔ name ∈ names := by
  show name ∈ (ofList names).names ↔ name ∈ names
  induction names with
  | nil => simp [ofList, empty]
  | cons first rest ih =>
    show name ∈ place first (ofList rest).names ↔ name ∈ first :: rest
    rw [mem_place_iff, ih, List.mem_cons]

private theorem eq_of_mem_iff {a b : List String} (ha : a.Pairwise (· < ·))
    (hb : b.Pairwise (· < ·)) (h : ∀ name, name ∈ a ↔ name ∈ b) : a = b := by
  induction a generalizing b with
  | nil =>
    cases b with
    | nil => rfl
    | cons first rest => exact absurd ((h first).2 (by simp)) (by simp)
  | cons x xs ih =>
    cases b with
    | nil => exact absurd ((h x).1 (by simp)) (by simp)
    | cons y ys =>
      obtain ⟨hx, hxs⟩ := List.pairwise_cons.1 ha
      obtain ⟨hy, hys⟩ := List.pairwise_cons.1 hb
      -- The first name of a list is its least member, and both have the same members.
      have hxy : x = y := by
        rcases List.mem_cons.1 ((h x).1 (by simp)) with heq | hmem
        · exact heq
        · rcases List.mem_cons.1 ((h y).2 (by simp)) with heq | hmem'
          · exact heq.symm
          · exact absurd (Std.lt_trans (hy x hmem) (hx y hmem')) Std.lt_irrefl
      subst hxy
      congr 1
      refine ih hxs hys fun name ↦ ?_
      constructor
      · intro hmem
        rcases List.mem_cons.1 ((h name).1 (List.mem_cons_of_mem _ hmem)) with heq | hmem'
        · subst heq
          exact absurd (hx _ hmem) Std.lt_irrefl
        · exact hmem'
      · intro hmem
        rcases List.mem_cons.1 ((h name).2 (List.mem_cons_of_mem _ hmem)) with heq | hmem'
        · subst heq
          exact absurd (hy _ hmem) Std.lt_irrefl
        · exact hmem'

/-- Sets with the same members are equal. -/
theorem ext {a b : NameSet} (h : ∀ name, name ∈ a ↔ name ∈ b) : a = b := by
  obtain ⟨a, ha⟩ := a
  obtain ⟨b, hb⟩ := b
  have : a = b := eq_of_mem_iff ha hb h
  subst this
  rfl

end NameSet

end SqlFootprint
