/-!
# File paths

A path is a text whose names are parted by slashes. Two texts are the same path
if their parts agree: repeated slashes, a slash at the end, and single dots other
than a leading one make no difference, while two dots are a part like any other.
-/

namespace Wellbore.Path

/-- The texts between slashes. -/
def pieces (path : String) : List (List Char) := path.toList.splitOn '/'

/-- Whether the path begins at the root. -/
def isAbsolute (path : String) : Bool := path.toList.head? = some '/'

/-- Whether a piece stands for nothing: it is empty or a single dot. -/
def isVoid (piece : List Char) : Bool := piece = [] || piece = ['.']

/-- The parts of a path below its root; a relative path may begin with a dot. -/
def parts (path : String) : List (List Char) :=
  let pieces := pieces path
  let first := if !isAbsolute path && pieces.head? = some ['.'] then [['.']] else []
  first ++ pieces.filter fun piece => !isVoid piece

/-- Whether two texts are the same path. -/
def same (a b : String) : Bool := isAbsolute a = isAbsolute b && parts a = parts b

/-- The path `path` seen from the directory `dir`; an absolute path stays as it is. -/
def join (dir path : String) : String :=
  if isAbsolute path then path
  else
    match dir.toList.getLast? with
    | none => path
    | some '/' => dir ++ path
    | some _ => dir ++ "/" ++ path

/-- A text without the slashes and single dots at its end, given last character
first; the first character of all is kept if it is a slash or a lone dot. -/
def trimVoid : (fuel : Nat) → List Char → List Char
  | 0, cs => cs
  | fuel + 1, cs =>
    match cs with
    | ['/'] | ['.'] => cs
    | '/' :: rest => trimVoid fuel rest
    | '.' :: '/' :: rest => trimVoid fuel ('/' :: rest)
    | cs => cs

/-- A text without what follows its last slash, given last character first. -/
def dropLast (cs : List Char) : List Char :=
  cs.dropWhile fun c => c ≠ '/'

/-- The directory of a path: all but its last part. The root and the empty path
have none. -/
def parent? (path : String) : Option String :=
  if (parts path).isEmpty then none
  else
    let reversed := path.toList.reverse
    let trimmed := trimVoid reversed.length reversed
    let rest := dropLast trimmed
    some (String.ofList (trimVoid rest.length rest).reverse)

/-- The last part, if it is a name. -/
def fileName? (path : String) : Option (List Char) :=
  match (parts path).getLast? with
  | some part => if part = ['.', '.'] ∨ part = ['.'] then none else some part
  | none => none

/-- What follows the last dot of the name; a leading dot does not count. -/
def extension? (path : String) : Option String := do
  let reversed := (← fileName? path).reverse
  let after := reversed.takeWhile fun c => c ≠ '.'
  let before := (reversed.drop after.length).drop 1
  if before.isEmpty then none else some (String.ofList after.reverse)

end Wellbore.Path
