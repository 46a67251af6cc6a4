/-!
# Written values and the records they hold

A configuration or a report can be written in more than one format. What a reader
of records needs from a format is the same for all of them and is collected in
`Document`; a record type then has one reader for every format. A format may have to
keep account of something while it is read, and reads in a monad of its own.

A record is written by field names or by position. `Fields.align` brings both to
one list of the fields in declaration order.
-/

namespace Wellbore

/-- The parts of a written record. -/
inductive Fields (ν : Type) where
  /-- Named fields in written order. -/
  | named (entries : List (String × ν))
  /-- Values in the order in which the record declares its fields. -/
  | ordered (values : List ν)

namespace Fields

variable {ν : Type}

/-- Whether some name stands twice in the list. -/
def hasDuplicate : List String → Bool
  | [] => false
  | name :: rest => rest.contains name || hasDuplicate rest

/-- The fields called `names`, each with its value if it was written. Fields with
other names are skipped; a field written twice, or a value past the last field,
is an error. -/
def align (names : List String) : Fields ν → Option (List (Option ν))
  | .named entries =>
    let known := entries.filter fun entry => names.contains entry.1
    if hasDuplicate (known.map (·.1)) then none
    else some (names.map fun name => known.lookup name)
  | .ordered values =>
    if names.length < values.length then none
    else some (values.map some ++ List.replicate (names.length - values.length) none)

end Fields

/-- A monad in which values are read and can be refused. -/
class ReadMonad (m : Type → Type) extends Monad m where
  refuse : {α : Type} → m α

instance : ReadMonad Option where
  refuse := none

/-- What was read from a value, which is refused if nothing was. -/
def ReadMonad.ofOption {m : Type → Type} [ReadMonad m] {α : Type} : Option α → m α
  | some a => pure a
  | none => refuse

/-- A format in which records are written; each reading refuses a value of
another kind. -/
class Document (ν : Type) (m : outParam (Type → Type)) where
  text? : ν → m String
  flag? : ν → m Bool
  /-- An unsigned 64-bit integer. -/
  natural? : ν → m Nat
  /-- A signed 32-bit integer. -/
  integer? : ν → m Int32
  real? : ν → m Float
  /-- The value itself, or nothing if it is written as absent. -/
  present? : ν → m (Option ν)
  list? : ν → m (List ν)
  fields? : ν → m (Fields ν)

namespace Document

variable {ν α : Type} {m : Type → Type} [ReadMonad m] [Document ν m]

/-- A list all of whose elements can be read. -/
def listOf? (read : ν → m α) (v : ν) : m (List α) := do
  (← list? v).mapM read

/-- The values of the fields called `names`. -/
def alignedTo (names : List String) (v : ν) : m (List (Option ν)) := do
  ReadMonad.ofOption ((← fields? v).align names)

/-- A field that must be written. -/
def required (read : ν → m α) (field : Option ν) : m α :=
  match field with
  | none => ReadMonad.refuse
  | some v => read v

/-- A field that may be left out or written as absent. -/
def optional (read : ν → m α) (field : Option ν) : m (Option α) :=
  match field with
  | none => pure none
  | some v => do
    match ← present? v with
    | none => pure none
    | some v => some <$> read v

/-- A field that has a value of its own when it is left out. -/
def withDefault (read : ν → m α) (value : α) (field : Option ν) : m α :=
  match field with
  | none => pure value
  | some v => read v

end Document

end Wellbore
