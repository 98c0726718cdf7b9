import SqlFootprint.File.Path

/-!
# Files and directories

A file system as the list of what stands where, with the directory in which relative paths start.
`FileTree.locate` follows a path and the symbolic links on it, of which at most forty are allowed.
-/

namespace SqlFootprint

/-- Why a path cannot be followed or read. -/
inductive FileFault where
  | missing
  | notDirectory
  | isDirectory
  | nameTooLong
  | tooManyLinks
  | nullInName
  deriving DecidableEq, Repr

/-- The wording of a file fault, with its number if it has one. -/
def FileFault.message : FileFault → String
  | missing => "No such file or directory (os error 2)"
  | notDirectory => "Not a directory (os error 20)"
  | isDirectory => "Is a directory (os error 21)"
  | nameTooLong => "File name too long (os error 36)"
  | tooManyLinks => "Too many levels of symbolic links (os error 40)"
  | nullInName => "file name contained an unexpected NUL byte"

/-- What stands at a place of a file system. -/
inductive FileItem where
  | file (bytes : ByteArray)
  | directory
  | link (target : String)

/-- The names on the way from the root to a place. -/
abbrev Location := List String

/-- A file system: what stands where, and where relative paths start. -/
structure FileTree where
  items : List (Location × FileItem) := []
  workingDirectory : Location := []

namespace FileTree

/-- What stands at a place; the root is a directory. -/
def item? (tree : FileTree) (location : Location) : Option FileItem :=
  if location = [] then some .directory else tree.items.lookup location

/-- Add an item, and directories on the way to it where nothing stands yet. -/
def add (tree : FileTree) (location : Location) (item : FileItem) : FileTree :=
  let parents := (List.range location.length).map fun n ↦ location.take n
  let missing := parents.filter fun parent ↦ (tree.item? parent).isNone
  { tree with
    items := tree.items.filter (fun entry ↦ entry.1 != location) ++
      missing.map (fun parent ↦ (parent, .directory)) ++ [(location, item)] }

/-- The place that a path names where no symbolic link is on the way. -/
def placeOf (tree : FileTree) (path : String) : Location :=
  (Path.parts path).foldl (fun here part ↦
    match part with
    | .root => []
    | .current => here
    | .parent => here.dropLast
    | .named name => here ++ [name]) tree.workingDirectory

/-- Names of what stands right under a place. -/
def children (tree : FileTree) (location : Location) : List String :=
  tree.items.filterMap fun entry ↦
    if entry.1.dropLast = location then entry.1.getLast? else none

/-- How many symbolic links may be followed on one path. -/
def maxLinks : Nat := 40

/-- The longest name of a file, in bytes. -/
def maxNameLength : Nat := 255

/-- The longest path, in bytes. -/
def maxPathLength : Nat := 4095

/-- Follow names from a place, and at most `links` symbolic links on the way. -/
def follow (tree : FileTree) (links : Nat) (here : Location) :
    List String → Except FileFault Location
  | [] => .ok here
  | name :: rest =>
    match tree.item? here with
    | some .directory =>
      if name = "" ∨ name = "." then tree.follow links here rest
      else if name = ".." then tree.follow links here.dropLast rest
      else if maxNameLength < name.utf8ByteSize then .error .nameTooLong
      else
        match tree.item? (here ++ [name]) with
        | none => .error .missing
        | some (.link target) =>
          match links with
          | 0 => .error .tooManyLinks
          | links + 1 =>
            tree.follow links (if Path.isAbsolute target then [] else here)
              (Path.pieces target ++ rest)
        | some _ => tree.follow links (here ++ [name]) rest
    | _ => .error .notDirectory
termination_by names => (links, names.length)

/-- The place to which a path leads, links followed. -/
def locate (tree : FileTree) (path : String) : Except FileFault Location :=
  if path = "" then .error .missing
  else if path.toList.contains '\x00' then .error .nullInName
  else if maxPathLength < path.utf8ByteSize then .error .nameTooLong
  else
    tree.follow maxLinks (if Path.isAbsolute path then [] else tree.workingDirectory)
      (Path.pieces path)

/-- What stands where a path leads, links followed. -/
def itemAt? (tree : FileTree) (path : String) : Option FileItem :=
  match tree.locate path with
  | .ok location => tree.item? location
  | .error _ => none

/-- A path leads to a file. -/
def isFile (tree : FileTree) (path : String) : Bool :=
  match tree.itemAt? path with
  | some (.file _) => true
  | _ => false

/-- A path leads to a directory. -/
def isDirectory (tree : FileTree) (path : String) : Bool :=
  match tree.itemAt? path with
  | some .directory => true
  | _ => false

/-- The bytes of the file to which a path leads. -/
def read (tree : FileTree) (path : String) : Except FileFault ByteArray :=
  match tree.locate path with
  | .error fault => .error fault
  | .ok location =>
    match tree.item? location with
    | some (.file bytes) => .ok bytes
    | some .directory => .error .isDirectory
    | _ => .error .missing

end FileTree

end SqlFootprint
