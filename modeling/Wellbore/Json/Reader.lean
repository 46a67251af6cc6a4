import Wellbore.Json.Number

/-!
# Reading JSON text

`Json.parse?` takes a whole text to its value. The text must be one value between
blanks; the value itself may be of any depth.
-/

namespace Wellbore.Json

/-- The four characters that may stand between tokens. -/
def isBlank (c : Char) : Bool :=
  c = ' ' || c = '\n' || c = '\t' || c = '\r'

def skipBlanks (cs : List Char) : List Char := cs.dropWhile isBlank

def hexValue? (c : Char) : Option Nat :=
  if c.isDigit then some (c.toNat - '0'.toNat)
  else if 'a' ≤ c ∧ c ≤ 'f' then some (c.toNat - 'a'.toNat + 10)
  else if 'A' ≤ c ∧ c ≤ 'F' then some (c.toNat - 'A'.toNat + 10)
  else none

/-- The code unit written as four hexadecimal digits. -/
def unit? : List Char → Option (Nat × List Char)
  | a :: b :: c :: d :: rest => do
    let a ← hexValue? a
    let b ← hexValue? b
    let c ← hexValue? c
    let d ← hexValue? d
    return (a * 4096 + b * 256 + c * 16 + d, rest)
  | _ => none

def escaped? : Char → Option Char
  | '"' => some '"'
  | '\\' => some '\\'
  | '/' => some '/'
  | 'b' => some '\x08'
  | 'f' => some '\x0c'
  | 'n' => some '\n'
  | 'r' => some '\r'
  | 't' => some '\t'
  | _ => none

/-- The rest of a string after its opening quote: its characters, or `none` for
them if a surrogate stands alone. `acc` holds the characters so far, last first. -/
def stringBody? : (fuel : Nat) → (acc : Option (List Char)) → List Char →
    Option (Option String × List Char)
  | 0, _, _ => none
  | fuel + 1, acc, cs =>
    match cs with
    | [] => none
    | '"' :: rest => some (acc.map fun acc => String.ofList acc.reverse, rest)
    | '\\' :: 'u' :: rest => do
      let (u, rest) ← unit? rest
      if u < 0xD800 ∨ 0xE000 ≤ u then
        stringBody? fuel (acc.map (Char.ofNat u :: ·)) rest
      else if u < 0xDC00 then
        match rest with
        | '\\' :: 'u' :: after =>
          let (v, after) ← unit? after
          if 0xDC00 ≤ v ∧ v < 0xE000 then
            let code := 0x10000 + (u - 0xD800) * 0x400 + (v - 0xDC00)
            stringBody? fuel (acc.map (Char.ofNat code :: ·)) after
          else stringBody? fuel none rest
        | _ => stringBody? fuel none rest
      else stringBody? fuel none rest
    | '\\' :: c :: rest => do
      let c ← escaped? c
      stringBody? fuel (acc.map (c :: ·)) rest
    | c :: rest =>
      if c.toNat < 0x20 then none else stringBody? fuel (acc.map (c :: ·)) rest

/-- A string after its opening quote, every character of `cs` being fuel. -/
def string? (cs : List Char) : Option (Option String × List Char) :=
  stringBody? (cs.length + 1) (some []) cs

/-- Wraps the members of an object, which denotes nothing if some name does not. -/
def ofMembers (members : List (Option String × Json)) : Json :=
  match members.mapM fun (name, value) => name.map (·, value) with
  | some members => .obj members
  | none => .unreadable

mutual

/-- One value at the front of a text that starts with no blank. -/
def value? : (fuel : Nat) → List Char → Option (Json × List Char)
  | 0, _ => none
  | fuel + 1, cs =>
    match cs with
    | 'n' :: 'u' :: 'l' :: 'l' :: rest => some (.null, rest)
    | 't' :: 'r' :: 'u' :: 'e' :: rest => some (.bool true, rest)
    | 'f' :: 'a' :: 'l' :: 's' :: 'e' :: rest => some (.bool false, rest)
    | '"' :: rest => do
      let (text, rest) ← string? rest
      return (text.elim .unreadable .str, rest)
    | '[' :: rest =>
      match skipBlanks rest with
      | ']' :: rest => some (.arr [], rest)
      | rest => items? fuel [] rest
    | '\x7b' :: rest =>
      match skipBlanks rest with
      | '\x7d' :: rest => some (.obj [], rest)
      | rest => members? fuel [] rest
    | _ => do
      let (number, rest) ← numberText? cs
      return (number.value, rest)

/-- The items of an array from the next one on; `acc` holds those read, last first. -/
def items? : (fuel : Nat) → (acc : List Json) → List Char → Option (Json × List Char)
  | 0, _, _ => none
  | fuel + 1, acc, cs => do
    let (item, rest) ← value? fuel cs
    match skipBlanks rest with
    | ',' :: rest => items? fuel (item :: acc) (skipBlanks rest)
    | ']' :: rest => some (.arr (item :: acc).reverse, rest)
    | _ => none

/-- The members of an object from the next one on. -/
def members? : (fuel : Nat) → (acc : List (Option String × Json)) → List Char →
    Option (Json × List Char)
  | 0, _, _ => none
  | fuel + 1, acc, cs =>
    match cs with
    | '"' :: rest => do
      let (name, rest) ← string? rest
      match skipBlanks rest with
      | ':' :: rest =>
        let (item, rest) ← value? fuel (skipBlanks rest)
        match skipBlanks rest with
        | ',' :: rest => members? fuel ((name, item) :: acc) (skipBlanks rest)
        | '\x7d' :: rest => some (ofMembers ((name, item) :: acc).reverse, rest)
        | _ => none
      | _ => none
    | _ => none

end

/-- The value of a text. Each call consumes a character or is followed by one that
does, so twice the length is fuel enough. -/
def parse? (text : String) : Option Json := do
  let cs := text.toList
  let (value, rest) ← value? (2 * cs.length + 2) (skipBlanks cs)
  guard (skipBlanks rest).isEmpty
  return value

end Wellbore.Json
