import Wellbore.Yaml.Cursor
import Wellbore.Yaml.Token

/-!
# Scanning YAML scalars

Plain, quoted and block scalars. Each scanner takes the cursor at the first
character of the scalar and gives its text and the cursor after it.
-/

namespace Wellbore.Yaml

/-- A character that ends a plain scalar inside brackets. -/
def isFlowMark (c : Char) : Bool :=
  c = ',' || c = '[' || c = ']' || c = '\x7b' || c = '\x7d'

/-- Splits off the characters up to a blank, a break or an indicator that ends a
plain scalar. Inside brackets a colon right before a bracket is refused. -/
def plainRun? (flow : Bool) : List Char → Option (List Char)
  | [] => some []
  | x :: rest =>
    if isBlank x || isBreak x then some []
    else
      let next := rest.head?
      let colon := x = ':'
      let beforeMark := next.any fun y => isFlowMark y || y = '?'
      let beforeBlank := next.all fun y => isBlank y || isBreak y
      if flow && colon && beforeMark then none
      else if (colon && beforeBlank) || (flow && isFlowMark x) then some []
      else (plainRun? flow rest).map (x :: ·)

/-- A plain scalar: its text, the cursor after it, and whether it ended on a new
line. It goes on over lines that are indented beyond `indent`. -/
def plainScalar? (flow : Bool) (indent : Int) :
    (fuel : Nat) → Cursor → (acc : List Char) → Gap → Option (List Char × Cursor × Bool)
  | 0, c, acc, g => some (acc, c, !g.breaks.isEmpty)
  | fuel + 1, c, acc, g =>
    if c.atDocumentMarker || c.sees 0 '#' then some (acc, c, !g.breaks.isEmpty)
    else do
      let run ← plainRun? flow c.rest
      if run.isEmpty then return (acc, c, !g.breaks.isEmpty)
      let acc := acc ++ g.fold ++ run
      let c := c.skip run.length
      if c.rest.isEmpty || !c.blankOrEnd 0 then return (acc, c, false)
      let (c, g) ← c.gap? (indent + 1) c.rest.length {}
      if !flow && (c.column : Int) < indent + 1 then return (acc, c, !g.breaks.isEmpty)
      plainScalar? flow indent fuel c acc g

def hexDigit? (c : Char) : Option Nat :=
  if c.isDigit then some (c.toNat - '0'.toNat)
  else if 'a' ≤ c ∧ c ≤ 'f' then some (c.toNat - 'a'.toNat + 10)
  else if 'A' ≤ c ∧ c ≤ 'F' then some (c.toNat - 'A'.toNat + 10)
  else none

/-- The number written as `n` hexadecimal digits. -/
def hexNumber? (n : Nat) (cs : List Char) : Option Nat := do
  let digits ← (cs.take n).mapM hexDigit?
  guard (digits.length = n)
  return digits.foldl (fun acc d => acc * 16 + d) 0

/-- The character of an escape after its backslash, and how long the escape is. -/
def escape? : List Char → Option (Char × Nat)
  | [] => none
  | x :: rest =>
    let coded (n : Nat) : Option (Char × Nat) := do
      let code ← hexNumber? n rest
      guard (code < 0xD800 ∨ (0xE000 ≤ code ∧ code ≤ 0x10FFFF))
      return (Char.ofNat code, n + 1)
    match x with
    | '0' => some ('\x00', 1)
    | 'a' => some ('\x07', 1)
    | 'b' => some ('\x08', 1)
    | 't' | '\t' => some ('\t', 1)
    | 'n' => some ('\n', 1)
    | 'v' => some ('\x0b', 1)
    | 'f' => some ('\x0c', 1)
    | 'r' => some ('\r', 1)
    | 'e' => some ('\x1b', 1)
    | ' ' | '"' | '/' | '\\' => some (x, 1)
    | 'N' => some ('\u0085', 1)
    | '_' => some ('\u00a0', 1)
    | 'L' => some ('\u2028', 1)
    | 'P' => some ('\u2029', 1)
    | 'x' => coded 2
    | 'u' => coded 4
    | 'U' => coded 8
    | _ => none

/-- The inside of a quoted scalar and the cursor after the closing quote. `folding`
says that a line was just ended by a backslash. -/
def quotedBody? (single : Bool) :
    (fuel : Nat) → Cursor → (acc : List Char) → Option (List Char × Cursor)
  | 0, _, _ => none
  | fuel + 1, c, acc =>
    if c.atDocumentMarker then none
    else
      match c.rest with
      | [] => none
      | x :: rest =>
        if isBlank x || isBreak x then do
          let (c, g) ← c.gap? 0 c.rest.length {}
          quotedBody? single fuel c (acc ++ g.fold)
        else if single then
          if x = '\'' then
            if rest.head? = some '\'' then quotedBody? single fuel (c.skip 2) (acc ++ ['\''])
            else some (acc, c.skip 1)
          else quotedBody? single fuel (c.skip 1) (acc ++ [x])
        else if x = '"' then some (acc, c.skip 1)
        else if x = '\\' then
          match rest with
          | y :: _ =>
            if isBreak y then do
              -- A line ended by a backslash is joined without a blank.
              let (_, c) := (c.skip 1).skipBreak
              let (c, g) ← c.gap? 0 c.rest.length { breaks := ['\x00'] }
              quotedBody? single fuel c (acc ++ g.breaks.drop 1)
            else do
              let (z, n) ← escape? rest
              quotedBody? single fuel (c.skip (n + 1)) (acc ++ [z])
          | [] => none
        else quotedBody? single fuel (c.skip 1) (acc ++ [x])

def quotedScalar? (single : Bool) (c : Cursor) : Option (List Char × Cursor) :=
  quotedBody? single (c.rest.length + 1) (c.skip 1) []

/-- What becomes of the breaks at the end of a block scalar. -/
inductive Chomping where
  | strip
  | clip
  | keep
deriving DecidableEq, Repr

/-- The chomping and the indentation that a block header gives, in either order. -/
def blockHeader? (c : Cursor) : Option (Chomping × Nat × Cursor) :=
  let chomp? (c : Cursor) : Option (Chomping × Cursor) :=
    if c.sees 0 '+' then some (.keep, c.skip 1)
    else if c.sees 0 '-' then some (.strip, c.skip 1)
    else none
  let digit? (c : Cursor) : Option (Option (Nat × Cursor)) :=
    match c.ahead? 0 with
    | some x =>
      if x = '0' then none
      else if x.isDigit then some (some (x.toNat - '0'.toNat, c.skip 1))
      else some none
    | none => some none
  match chomp? c with
  | some (chomping, c) =>
    (digit? c).map fun
      | some (n, c) => (chomping, n, c)
      | none => (chomping, 0, c)
  | none =>
    (digit? c).map fun
      | some (n, c) =>
        match chomp? c with
        | some (chomping, c) => (chomping, n, c)
        | none => (.clip, n, c)
      | none => (.clip, 0, c)

/-- Passes the empty lines of a block. While `indent` is zero it is still to be found,
and `widest` is the widest empty line so far. -/
def blockBreaks? (indent : Nat) :
    (fuel : Nat) → Cursor → (widest : Nat) → (breaks : List Char) →
    Option (Cursor × Nat × List Char)
  | 0, c, widest, breaks => some (c, widest, breaks)
  | fuel + 1, c, widest, breaks =>
    let spaces := (c.rest.takeWhile fun x => x = ' ').length
    let c := c.skip (if indent = 0 then spaces else min spaces (indent - c.column))
    let widest := max widest c.column
    if (indent = 0 || c.column < indent) && c.sees 0 '\t' then none
    else
      match c.rest with
      | x :: _ =>
        if isBreak x then
          let (text, c) := c.skipBreak
          blockBreaks? indent fuel c widest (breaks ++ text)
        else some (c, widest, breaks)
      | [] => some (c, widest, breaks)

/-- The lines of a block scalar. `first` is the break before the current line,
`breaks` the empty lines after it, and `blankBefore` says that the line before
began with a blank. -/
def blockLines? (literal : Bool) (indent : Nat) :
    (fuel : Nat) → Cursor → (acc first breaks : List Char) → (blankBefore : Bool) →
    Option (List Char × List Char × List Char × Cursor)
  | 0, c, acc, first, breaks, _ => some (acc, first, breaks, c)
  | fuel + 1, c, acc, first, breaks, blankBefore =>
    if c.column = indent ∧ !c.rest.isEmpty then do
      let blank := c.sees 0 ' ' || c.sees 0 '\t'
      let folds := !literal && first.head? = some '\n' && !blankBefore && !blank
      let acc := acc ++ (if folds then (if breaks.isEmpty then [' '] else []) else first) ++ breaks
      let (line, c) := c.skipWhile fun x => !isBreak x
      let (first, c) := c.skipBreak
      let (c, _, breaks) ← blockBreaks? indent (c.rest.length + 1) c 0 []
      blockLines? literal indent fuel c (acc ++ line) first breaks blank
    else some (acc, first, breaks, c)

/-- A block scalar in a collection indented by `parent`. -/
def blockScalar? (literal : Bool) (parent : Int) (c : Cursor) :
    Option (List Char × Cursor) := do
  let (chomping, increment, c) ← blockHeader? (c.skip 1)
  let (_, c) := c.skipWhile isBlank
  let c := if c.sees 0 '#' then (c.skipWhile fun x => !isBreak x).2 else c
  guard (c.rest.isEmpty ∨ c.rest.head?.any isBreak)
  let (_, c) := c.skipBreak
  let given : Nat :=
    if increment = 0 then 0 else (if 0 ≤ parent then parent.toNat else 0) + increment
  let (c, widest, breaks) ← blockBreaks? given (c.rest.length + 1) c 0 []
  let indent := if given ≠ 0 then given else max (max widest (parent + 1).toNat) 1
  let (acc, first, breaks, c) ←
    blockLines? literal indent (c.rest.length + 1) c [] [] breaks false
  let text := match chomping with
    | .strip => acc
    | .clip => acc ++ first
    | .keep => acc ++ first ++ breaks
  return (text, c)

end Wellbore.Yaml
