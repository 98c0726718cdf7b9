import SqlFootprint.Tree.Significant

/-!
# The gist of a node

Grouping and analysis read only a part of a node: what it is, the name or the mark that it is, a
keyword up to the case of its letters, and of a list what its items are. `Node.gist` is a node cut
down to that part, and `Node.gistOfAll` leaves out the blanks as well; whatever else there is of
nodes is not read where the gists are read in the same way.
-/

namespace SqlFootprint

namespace Text

private theorem isUpper_toLower (c : Char) : c.toLower.isUpper = false := by
  unfold Char.isUpper Char.toLower
  split
  · next hupper =>
    have hle : c.val.toNat ≤ 90 := hupper.2
    have hge : 65 ≤ c.val.toNat := hupper.1
    have hval : (c.val + ('a'.val - 'A'.val)).toNat = c.val.toNat + 32 := by
      rw [UInt32.toNat_add, Nat.mod_eq_of_lt]
      · rfl
      · show c.val.toNat + 32 < 2 ^ 32
        omega
    refine decide_eq_false fun h ↦ ?_
    have hbelow : c.val.toNat + 32 ≤ 90 := hval ▸ UInt32.le_iff_toNat_le.1 h.2
    omega
  · next hupper => exact decide_eq_false hupper

/-- Folding the case of a text that is folded changes nothing. -/
@[simp] theorem folded_ofList_folded (text : String) :
    folded (String.ofList (folded text)) = folded text := by
  have hlower (c : Char) : c.toLower.toLower = c.toLower :=
    dif_neg (of_decide_eq_false (isUpper_toLower c))
  simp only [folded, String.toList_ofList, List.map_map, Function.comp_def, hlower]

end Text

namespace Node

/-- The operand of a comparison of which only the name, if it is one, is known. -/
def operandOf (identifier : Option Identifier) : Node :=
  leaf (identifier.elim .literal .identifier) ""

@[simp] theorem identifier?_operandOf (identifier : Option Identifier) :
    (operandOf identifier).identifier? = identifier := by
  cases identifier <;> rfl

mutual

/-- The part of a node that is read. Of what is compared, only a name on the left is. -/
def gist : Node → Node
  | mk .keyword text _ => leaf .keyword (String.ofList (Text.folded text))
  | mk .punctuation text _ => leaf .punctuation text
  | mk .wildcard text _ => leaf .wildcard text
  | mk .identifierList _ children => mk .identifierList "" (gistOfAll children)
  | mk (.comparison left operator _) _ _ =>
    leaf (.comparison (operandOf left.identifier?) operator (operandOf none)) ""
  | mk kind _ _ => leaf kind ""

/-- The gists of the nodes that are no blanks. -/
def gistOfAll : List Node → List Node
  | [] => []
  | node :: rest => if node.isBlank then gistOfAll rest else node.gist :: gistOfAll rest

end

/-! ### What the gist keeps -/

@[simp] theorem isBlank_gist (node : Node) : node.gist.isBlank = node.isBlank := by
  cases node with | mk kind _ _ => cases kind <;> rfl

@[simp] theorem isAnyKeyword_gist (node : Node) : node.gist.isAnyKeyword = node.isAnyKeyword := by
  cases node with | mk kind _ _ => cases kind <;> rfl

@[simp] theorem isAnyPunctuation_gist (node : Node) :
    node.gist.isAnyPunctuation = node.isAnyPunctuation := by
  cases node with | mk kind _ _ => cases kind <;> rfl

@[simp] theorem identifier?_gist (node : Node) : node.gist.identifier? = node.identifier? := by
  cases node with | mk kind _ _ => cases kind <;> rfl

@[simp] theorem isList_gist (node : Node) : node.gist.isList = node.isList := by
  cases node with | mk kind _ _ => cases kind <;> rfl

@[simp] theorem isName_gist (node : Node) : node.gist.isName = node.isName := by
  rw [isName, identifier?_gist, isList_gist, isName]

/-- A keyword keeps its text up to the case of its letters. -/
theorem folded_text_gist {node : Node} (h : node.isAnyKeyword = true) :
    Text.folded node.gist.text = Text.folded node.text := by
  cases node with
  | mk kind text _ =>
    cases kind with
    | keyword => exact Text.folded_ofList_folded text
    | _ => cases h

/-- A mark keeps its text. -/
theorem text_gist {node : Node} (h : node.isAnyPunctuation = true) :
    node.gist.text = node.text := by
  cases node with
  | mk kind text _ =>
    cases kind with
    | punctuation => rfl
    | _ => cases h

@[simp] theorem isKeyword_gist (node : Node) (word : String) :
    node.gist.isKeyword word = node.isKeyword word := by
  rw [isKeyword, isKeyword, isAnyKeyword_gist]
  cases h : node.isAnyKeyword with
  | false => rfl
  | true => rw [Text.sameWord, folded_text_gist h, Text.sameWord]

@[simp] theorem isPunctuation_gist (node : Node) (text : String) :
    node.gist.isPunctuation text = node.isPunctuation text := by
  rw [isPunctuation, isPunctuation, isAnyPunctuation_gist]
  cases h : node.isAnyPunctuation with
  | false => rfl
  | true => rw [text_gist h]

/-- A blank is a node of the kind of blanks. -/
theorem eq_of_isBlank {node : Node} (h : node.isBlank = true) :
    ∃ text children, node = mk .blank text children := by
  cases node with
  | mk kind text children =>
    cases kind with
    | blank => exact ⟨text, children, rfl⟩
    | _ => cases h

/-- What is so for no nodes, and stays so with one more in front, be it a blank or not, is so for
all. -/
theorem blank_induction {motive : List Node → Prop} (nil : motive [])
    (blank : ∀ text children rest, motive rest → motive (mk .blank text children :: rest))
    (solid : ∀ node rest, node.isBlank = false → motive rest → motive (node :: rest))
    (nodes : List Node) : motive nodes := by
  induction nodes with
  | nil => exact nil
  | cons node rest ih =>
    cases h : node.isBlank with
    | true =>
      obtain ⟨text, children, rfl⟩ := eq_of_isBlank h
      exact blank text children rest ih
    | false => exact solid node rest h ih

/-! ### Gists of nodes in a row -/

/-- A blank has no part in the gist. -/
theorem gistOfAll_blank {node : Node} (h : node.isBlank = true) (rest : List Node) :
    gistOfAll (node :: rest) = gistOfAll rest := by
  rw [gistOfAll, if_pos h]

/-- A node that is no blank has its gist in that of all. -/
theorem gistOfAll_cons {node : Node} (h : node.isBlank = false) (rest : List Node) :
    gistOfAll (node :: rest) = node.gist :: gistOfAll rest := by
  rw [gistOfAll, h, if_neg Bool.false_ne_true]

/-- What has the same gist can stand for the other. -/
theorem gistOfAll_cons_congr {node other : Node} {rest more : List Node}
    (h : node.gist = other.gist) (hrest : gistOfAll rest = gistOfAll more) :
    gistOfAll (node :: rest) = gistOfAll (other :: more) := by
  have hblank : node.isBlank = other.isBlank := by rw [← isBlank_gist, h, isBlank_gist]
  rw [gistOfAll, gistOfAll, hblank, h, hrest]

/-- The gists are those of the nodes that are no blanks. -/
theorem gistOfAll_eq_map (nodes : List Node) :
    gistOfAll nodes = (nodes.filter (!·.isBlank)).map gist := by
  induction nodes using blank_induction with
  | nil => rfl
  | blank text children rest ih => exact ih
  | solid node rest h ih =>
    rw [gistOfAll_cons h, ih, List.filter_cons_of_pos (by simp [h]), List.map_cons]

@[simp] theorem gistOfAll_append (first second : List Node) :
    gistOfAll (first ++ second) = gistOfAll first ++ gistOfAll second := by
  simp only [gistOfAll_eq_map, List.filter_append, List.map_append]

/-- Blanks alone have no gist. -/
theorem gistOfAll_of_isBlank {blanks : List Node} (h : ∀ blank ∈ blanks, blank.isBlank = true) :
    gistOfAll blanks = [] := by
  rw [gistOfAll_eq_map, List.map_eq_nil_iff, List.filter_eq_nil_iff]
  intro blank hmem
  simp [h blank hmem]

/-- There are no blanks among the gists. -/
theorem isBlank_of_mem_gistOfAll {nodes : List Node} {node : Node} (h : node ∈ gistOfAll nodes) :
    node.isBlank = false := by
  rw [gistOfAll_eq_map] at h
  obtain ⟨other, hmem, rfl⟩ := List.mem_map.1 h
  simpa using (List.mem_filter.1 hmem).2

mutual

/-- A gist is its own gist. -/
@[simp] theorem gist_gist (node : Node) : node.gist.gist = node.gist := by
  cases node with
  | mk kind text children =>
    cases kind with
    | keyword => simp [gist, leaf]
    | identifierList => simp only [gist, gistOfAll_gistOfAll children]
    | comparison left operator right => simp only [gist, leaf, identifier?_operandOf]
    | _ => rfl

/-- Gists are their own gists. -/
@[simp] theorem gistOfAll_gistOfAll (nodes : List Node) :
    gistOfAll (gistOfAll nodes) = gistOfAll nodes := by
  cases nodes with
  | nil => rfl
  | cons node rest =>
    cases h : node.isBlank with
    | true => rw [gistOfAll_blank h, gistOfAll_gistOfAll rest]
    | false =>
      rw [gistOfAll_cons h, gistOfAll_cons (by rw [isBlank_gist, h]), gist_gist node,
        gistOfAll_gistOfAll rest]

end

/-- The items of a gist are the gists of the items. -/
theorem items_gist (node : Node) : node.gist.items = node.items.map gist := by
  cases node with
  | mk kind text children =>
    cases kind with
    | identifierList =>
      have hcomp : (fun child : Node ↦ !child.isBlank && !child.isAnyPunctuation) ∘ gist =
          fun child ↦ !child.isBlank && !child.isAnyPunctuation := by
        funext child
        simp
      show (gistOfAll children).filter _ = (children.filter _).map gist
      rw [gistOfAll_eq_map, List.filter_map, hcomp, List.filter_filter]
      congr 1
      apply List.filter_congr
      intro child _
      cases child.isBlank <;> simp
    | _ => rfl

/-- The names among the items of a gist are those of the node. -/
@[simp] theorem realNames_gist (node : Node) : node.gist.realNames = node.realNames := by
  rw [realNames, items_gist, List.filterMap_map, realNames]
  congr 1
  funext item
  rw [Function.comp_apply, identifier?_gist]

/-- The front of nodes is the front of their gists, without the blanks before it. -/
theorem significant?_gistOfAll (nodes : List Node) :
    significant? (gistOfAll nodes) = (significant? nodes).map fun found ↦ (found.1.gist, 1) := by
  induction nodes using blank_induction with
  | nil => rfl
  | blank text children rest ih =>
    have hfront : significant? (mk .blank text children :: rest) =
        (significant? rest).map fun found ↦ (found.1, found.2 + 1) := rfl
    rw [gistOfAll_blank rfl, ih, hfront, Option.map_map]
    rfl
  | solid node rest h ih =>
    rw [gistOfAll_cons h, significant?, significant?, h, isBlank_gist, h]
    rfl

private theorem gistOfAll_take {nodes : List Node} {node : Node} {count : Nat}
    (h : significant? nodes = some (node, count)) : gistOfAll (nodes.take count) = [node.gist] := by
  obtain ⟨blanks, rest, rfl, rfl, hblanks, hnode⟩ := significant?_eq_some_iff.1 h
  rw [List.take_append, List.take_of_length_le (Nat.le_succ _), Nat.add_sub_cancel_left,
    List.take_succ_cons, List.take_zero, gistOfAll_append, gistOfAll_of_isBlank hblanks,
    gistOfAll_cons hnode]
  rfl

/-- How many gists the given number of nodes have. -/
def gistCount (nodes : List Node) (count : Nat) : Nat := (gistOfAll (nodes.take count)).length

/-- The gists of nodes that are taken. -/
theorem take_gistCount (nodes : List Node) (count : Nat) :
    (gistOfAll nodes).take (gistCount nodes count) = gistOfAll (nodes.take count) := by
  have hsplit := congrArg gistOfAll (List.take_append_drop count nodes)
  rw [gistOfAll_append] at hsplit
  rw [← hsplit, gistCount, List.take_left]

/-- The gists of nodes that are left. -/
theorem drop_gistCount (nodes : List Node) (count : Nat) :
    (gistOfAll nodes).drop (gistCount nodes count) = gistOfAll (nodes.drop count) := by
  have hsplit := congrArg gistOfAll (List.take_append_drop count nodes)
  rw [gistOfAll_append] at hsplit
  rw [← hsplit, gistCount, List.drop_left]

/-- Behind some nodes, others are counted on their own. -/
theorem gistCount_add (nodes : List Node) (count more : Nat) :
    gistCount nodes (count + more) = gistCount nodes count + gistCount (nodes.drop count) more := by
  rw [gistCount, List.take_add, gistOfAll_append, List.length_append, gistCount, gistCount]

/-- A blank is not counted. -/
theorem gistCount_blank {node : Node} (h : node.isBlank = true) (rest : List Node) (count : Nat) :
    gistCount (node :: rest) (count + 1) = gistCount rest count := by
  rw [gistCount, List.take_succ_cons, gistOfAll_blank h, gistCount]

/-- A node that is no blank is counted. -/
theorem gistCount_cons {node : Node} (h : node.isBlank = false) (rest : List Node) (count : Nat) :
    gistCount (node :: rest) (count + 1) = gistCount rest count + 1 := by
  rw [gistCount, List.take_succ_cons, gistOfAll_cons h, List.length_cons, gistCount]

/-- Up to the front there is one gist. -/
theorem gistCount_significant? {nodes : List Node} {node : Node} {count : Nat}
    (h : significant? nodes = some (node, count)) : gistCount nodes count = 1 := by
  rw [gistCount, gistOfAll_take h, List.length_singleton]

end Node

end SqlFootprint
