/-!
# Command line arguments

Arguments are positional texts and named options, in any order. An option takes a
value or none; its value follows it, or is attached by an equals sign. A value
that follows may not look like an option itself. Two dashes alone end the options.
-/

namespace Wellbore

structure Arguments where
  positional : List String := []
  /-- Options with their values; an option that takes none has the empty text. -/
  options : List (String × String) := []
deriving DecidableEq, Repr

namespace Arguments

/-- Adds an option, which may not be given twice. -/
def addOption? (as : Arguments) (name value : String) : Option Arguments :=
  if (as.options.lookup name).isSome then none
  else some { as with options := as.options ++ [(name, value)] }

/-- Whether a text would be taken for an option. -/
def looksLikeOption (text : String) : Bool :=
  match text.toList with
  | '-' :: _ :: _ => true
  | _ => false

/-- The name of a long option and the value attached to it. -/
def splitOption (text : List Char) : String × Option String :=
  let name := text.takeWhile fun c => c ≠ '='
  match text.drop name.length with
  | [] => (String.ofList name, none)
  | _ :: value => (String.ofList name, some (String.ofList value))

/-- Sorts arguments by role. `takesValue` knows the options and whether they take a
value; nothing comes of arguments that do not fit. -/
def sort? (takesValue : String → Option Bool) : List String → Arguments → Option Arguments
  | [], as => some as
  | arg :: rest, as =>
    if arg = "--" then some { as with positional := as.positional ++ rest }
    else if !looksLikeOption arg then
      sort? takesValue rest { as with positional := as.positional ++ [arg] }
    else
      match arg.toList with
      | '-' :: '-' :: long =>
        let (name, attached) := splitOption long
        match takesValue name, attached, rest with
        | some false, none, rest => (as.addOption? name "").bind (sort? takesValue rest)
        | some true, some value, rest => (as.addOption? name value).bind (sort? takesValue rest)
        | some true, none, value :: rest =>
          if looksLikeOption value then none
          else (as.addOption? name value).bind (sort? takesValue rest)
        | _, _, _ => none
      | _ => none

def has (as : Arguments) (name : String) : Bool := (as.options.lookup name).isSome

/-- The value of an option, read by `read`: nothing if the option is not given, and an
error if the value cannot be read. -/
def value? {α : Type} (as : Arguments) (name : String) (read : String → Option α) :
    Option (Option α) :=
  match as.options.lookup name with
  | none => some none
  | some text => (read text).map some

end Arguments

end Wellbore
