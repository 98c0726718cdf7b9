import SqlFootprint.File.FileTree
import SqlFootprint.Text.Ascii

/-!
# SQL files of a directory

All files with the extension `sql` below a directory, in the order of their paths. Symbolic links
are followed, except to a directory that is being visited; what cannot be followed is passed over,
but the directory itself must be there.
-/

namespace SqlFootprint

/-- The path of a file has the extension `sql`, in any case. -/
def isSqlPath (path : String) : Bool :=
  (Path.extension? path).any fun extension ↦ Text.sameWord extension "sql"

namespace FileTree

/-- The files below a directory, by paths that start with `path`. `visiting` are the directories
on the way here, and `depth` bounds how far down the visit goes. -/
def filesBelow (tree : FileTree) (depth : Nat) (visiting : List Location) (path : String)
    (here : Location) : List String :=
  match depth with
  | 0 => []
  | depth + 1 =>
    (tree.children here).flatMap fun name ↦
      let inner := Path.join path name
      let isLink := match tree.item? (here ++ [name]) with
        | some (.link _) => true
        | _ => false
      match tree.follow maxLinks here [name] with
      | .error _ => []
      | .ok target =>
        match tree.item? target with
        | some (.file _) => [inner]
        | some .directory =>
          if isLink && visiting.contains target then []
          else tree.filesBelow depth (target :: visiting) inner target
        | _ => []

/-- A visit goes down by new places or by links to places not being visited, so it is never deeper
than this. -/
def depthBound (tree : FileTree) : Nat := (tree.items.length + 2) * (tree.items.length + 2)

/-- The SQL files of a directory, or of a path that is itself a file. -/
def sqlFiles (tree : FileTree) (path : String) : Except FileFault (List String) :=
  match tree.locate path with
  | .error fault => .error fault
  | .ok location =>
    let files := match tree.item? location with
      | some .directory => tree.filesBelow tree.depthBound [location] path location
      | some (.file _) => [path]
      | _ => []
    .ok (Path.sort (files.filter isSqlPath))

end FileTree

end SqlFootprint
