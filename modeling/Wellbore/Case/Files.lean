import Wellbore.Case.Path

/-!
# Files of a case

What a case needs from a file system is one question: what stands at a path?
`FileTree` answers it for files held in memory below a working directory, the way
a file system does: every part but the last must be a directory, and two dots
lead up again.
-/

namespace Wellbore

/-- What stands at a path. -/
inductive FileEntry where
  | missing
  /-- There is something, but it holds no text. -/
  | noText
  | text (content : String)
deriving DecidableEq, Repr, Inhabited

abbrev FileView := String → FileEntry

/-- Files by their paths below the working directory. -/
structure FileTree where
  files : List (List (List Char) × String) := []
deriving DecidableEq, Inhabited

namespace FileTree

/-- The tree of files whose paths below the working directory are given as texts. -/
def ofList (files : List (String × String)) : FileTree :=
  ⟨files.map fun (path, content) =>
    ((Path.pieces path).filter fun piece => !Path.isVoid piece, content)⟩

/-- Whether some file lies below a directory; the working directory always is
there. -/
def isDirectory (t : FileTree) (dir : List (List Char)) : Bool :=
  dir.isEmpty || t.files.any fun (path, _) => dir.length < path.length && dir.isPrefixOf path

/-- Follows the pieces of a path from a directory, given innermost part first. Above
the working directory, counted by `above`, nothing is known but that it is there. -/
def follow (t : FileTree) : (above : Nat) → (dir : List (List Char)) →
    List (List Char) → FileEntry
  | _, _, [] => .noText
  | above, dir, piece :: rest =>
    if Path.isVoid piece then follow t above dir rest
    else if piece = ['.', '.'] then
      match dir with
      | [] => follow t (above + 1) [] rest
      | _ :: outer => follow t above outer rest
    else if 0 < above then .missing
    else
      let here := (piece :: dir).reverse
      if t.isDirectory here then follow t above (piece :: dir) rest
      else
        match t.files.lookup here, rest with
        | some content, [] => .text content
        | _, _ => .missing

/-- The bytes of the longest path that a file system looks up. -/
def longestPath : Nat := 4095

/-- What stands at a path. The empty path names nothing, nor does one that is too
long. The root is there, and two dots lead from it to itself, but everything below it
is unknown. -/
def view (t : FileTree) : FileView := fun path =>
  if path = "" ∨ longestPath < path.utf8ByteSize then .missing
  else if Path.isAbsolute path then
    if (Path.parts path).all (fun part => part = ['.', '.']) then .noText else .missing
  else t.follow 0 [] (Path.pieces path)

end FileTree

end Wellbore
