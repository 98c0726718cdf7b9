/-!
# Paths

A path is a text whose parts stand between slashes. `parts` is its normal form, in which repeated
slashes and every `.` but a leading one are gone; paths are ordered part by part. The extension of
a file is what stands after the last point of its name, unless that point is the first character.
-/

namespace SqlFootprint.Path

/-- The pieces of a list of characters between a separator. -/
def piecesOf (separator : Char) : List Char → List (List Char)
  | [] => [[]]
  | c :: cs =>
    if c = separator then [] :: piecesOf separator cs
    else
      match piecesOf separator cs with
      | [] => [[c]]
      | piece :: rest => (c :: piece) :: rest

/-- The texts between the slashes of a path. -/
def pieces (path : String) : List String := (piecesOf '/' path.toList).map String.ofList

/-- A path that starts at the root of the file system. -/
def isAbsolute (path : String) : Bool := path.toList.head? == some '/'

/-- A part of a path. -/
inductive Part where
  | root
  | current
  | parent
  | named (name : String)
  deriving DecidableEq, Repr

/-- The part that a piece after the first one makes. -/
def Part.ofPiece? (piece : String) : Option Part :=
  if piece = "" ∨ piece = "." then none
  else if piece = ".." then some .parent
  else some (.named piece)

/-- The parts of a path. -/
def parts (path : String) : List Part :=
  let pieces := pieces path
  let inner := pieces.filterMap Part.ofPiece?
  if isAbsolute path then .root :: inner
  else if pieces.head? = some "." then .current :: inner
  else inner

/-- The place of a part in the order of parts. -/
def Part.rank : Part → Nat × String
  | root => (0, "")
  | current => (1, "")
  | parent => (2, "")
  | named name => (3, name)

/-- One part stands before another. -/
def Part.lt (a b : Part) : Bool :=
  let (m, x) := a.rank
  let (n, y) := b.rank
  m < n || (m == n && x < y)

/-- One path does not stand after another. -/
def partsLe : List Part → List Part → Bool
  | [], _ => true
  | _ :: _, [] => false
  | a :: as, b :: bs => if a = b then partsLe as bs else a.lt b

/-- Paths in their order. -/
def sort (paths : List String) : List String :=
  paths.mergeSort fun a b ↦ partsLe (parts a) (parts b)

/-- The name of the file or directory at the end of a path. -/
def fileName? (path : String) : Option String :=
  match (parts path).getLast? with
  | some (.named name) => some name
  | _ => none

/-- What stands after the last point of a file's name. -/
def extension? (path : String) : Option String :=
  (fileName? path).bind fun name ↦
    match (piecesOf '.' name.toList).reverse with
    | last :: [first] => if first = [] then none else some (String.ofList last)
    | last :: _ :: _ => some (String.ofList last)
    | _ => none

/-- The path of a name under a path. -/
def join (base name : String) : String :=
  if isAbsolute name ∨ base = "" then name
  else if base.toList.getLast? = some '/' then base ++ name
  else base ++ "/" ++ name

end SqlFootprint.Path
