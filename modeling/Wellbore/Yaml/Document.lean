import Wellbore.Yaml.Node
import Wellbore.Yaml.Number
import Wellbore.Document

/-!
# YAML as a format for records

What a plain scalar means depends on what is wanted: any scalar is a text, and a
number or a flag is only read from a plain one, or from a literal block that is
tagged as such. Where a list or a record is wanted, nothing written at all means
an empty one. A record is always written by its names.

An alias is followed when what it stands for is wanted, and never when it is
skipped. A document allows a hundred times as many look-ups as it has nodes, so a
short text cannot stand for an enormous value.
-/

namespace Wellbore.Yaml

def standardTag (name : String) : String := "tag:yaml.org,2002:" ++ name

/-- Reading from a document with the given slots; the number is how many more aliases
may be followed. -/
abbrev Reading := ReaderT (Array Node) (StateT Nat Option)

instance : ReadMonad Reading where
  refuse := failure

open ReadMonad (ofOption refuse)

namespace Node

def bare : Node → Node
  | .anchored _ node => node.bare
  | node => node

/-- The node that is meant, which is found in its slot if an alias is written. -/
def meant (n : Node) : Reading Node :=
  match n.bare with
  | .alias slot => do
    let left ← get
    guard (0 < left)
    set (left - 1)
    return (← ofOption (← read)[slot]?).bare
  | n => return n

/-- Reads a scalar of a standard type. -/
def typed? {α : Type} (type : String) (scan : String → Option α) : Node → Option α
  | .scalar _ .plain text => scan text
  | .scalar tag .literal text => if tag = some (standardTag type) then scan text else none
  | _ => none

def isEmpty : Node → Bool
  | .scalar _ .plain text => text = ""
  | _ => false

def text? : Node → Option String
  | .scalar _ _ text => some text
  | _ => none

/-- Whether a node is something else than the absent value. Only the name of that value
may be tagged as it. -/
def present? : Node → Option Bool
  | .scalar none .plain text => some (text ≠ "" ∧ !namesNull text)
  | .scalar (some tag) .plain text =>
    if tag ≠ standardTag "null" then some true
    else if namesNull text then some false
    else none
  | _ => some true

instance : Document Node Reading where
  text? n := do ofOption (← n.meant).text?
  flag? n := do ofOption ((← n.meant).typed? "bool" flag?)
  natural? n := do ofOption ((← n.meant).typed? "int" unsigned?)
  integer? n := do ofOption (((← n.meant).typed? "int" signed?).bind Word.signed32?)
  real? n := do ofOption ((← n.meant).typed? "float" real?)
  present? n := do
    let n ← n.meant
    return if ← ofOption n.present? then some n else none
  list? n := do
    match ← n.meant with
    | .sequence items => return items
    | n => if n.isEmpty then return [] else refuse
  fields? n := do
    match ← n.meant with
    | .mapping entries =>
      return .named (← entries.mapM fun (key, value) => do
        return (← ofOption (← key.meant).text?, value))
    | n => if n.isEmpty then return .named [] else refuse

end Node

/-- Reads the one document of a text. -/
def read? {α : Type} (reader : Node → Reading α) (text : String) : Option α := do
  let (root, slots) ← Node.parse? text
  let (a, _) ← ((reader root).run slots).run (100 * root.size)
  return a

end Wellbore.Yaml
