/-!
# Places in a YAML text

A cursor is the rest of a text and how far into it that is. Lines end with any of
five breaks; the one of two characters counts once, and all but the two Unicode
separators are read as a newline.

Distances along a text are counted in octets of its encoding, columns in characters.
-/

namespace Wellbore.Yaml

/-- A blank within a line. -/
def isBlank (c : Char) : Bool := c = ' ' || c = '\t'

def isBreak (c : Char) : Bool :=
  c = '\n' || c = '\r' || c = '\u0085' || c = '\u2028' || c = '\u2029'

/-- A character that may stand in a YAML text. -/
def isAllowed (c : Char) : Bool :=
  let n := c.toNat
  n = 0x09 || n = 0x0A || n = 0x0D || (0x20 ≤ n && n ≤ 0x7E) || n = 0x85
    || (0xA0 ≤ n && n ≤ 0xFFFD) || 0x10000 ≤ n

/-- How many octets a text takes up. -/
def octetsOf (cs : List Char) : Nat := cs.foldl (fun n c => n + c.utf8Size) 0

/-- The rest of a text and the place where it begins. -/
structure Cursor where
  rest : List Char
  /-- How many octets have been passed. -/
  octets : Nat := 0
  line : Nat := 0
  column : Nat := 0
deriving Repr, Inhabited

namespace Cursor

def ahead? (c : Cursor) (n : Nat) : Option Char := c.rest[n]?

/-- Whether the character `n` places ahead is `x`. -/
def sees (c : Cursor) (n : Nat) (x : Char) : Bool := c.ahead? n = some x

/-- Whether the place `n` ahead is a blank, a break or the end. -/
def blankOrEnd (c : Cursor) (n : Nat) : Bool :=
  match c.ahead? n with
  | some x => isBlank x || isBreak x
  | none => true

def skip (c : Cursor) (n : Nat) : Cursor :=
  { c with
    rest := c.rest.drop n
    octets := c.octets + octetsOf (c.rest.take n)
    column := c.column + n }

/-- Passes the characters of one line that pass a test. -/
def skipWhile (c : Cursor) (test : Char → Bool) : List Char × Cursor :=
  let run := c.rest.takeWhile test
  (run, c.skip run.length)

/-- Passes a break, if there is one, and gives it as it is read. -/
def skipBreak (c : Cursor) : List Char × Cursor :=
  let passed (n : Nat) (rest : List Char) : Cursor :=
    { rest, octets := c.octets + n, line := c.line + 1, column := 0 }
  match c.rest with
  | '\r' :: '\n' :: rest => (['\n'], passed 2 rest)
  | x :: rest =>
    if x = '\u2028' ∨ x = '\u2029' then ([x], passed x.utf8Size rest)
    else if isBreak x then (['\n'], passed x.utf8Size rest)
    else ([], c)
  | [] => ([], c)

/-- Whether a line begins here with `mark` three times, followed by a blank or the
end. -/
def atMarker (c : Cursor) (mark : Char) : Bool :=
  c.column = 0 && c.sees 0 mark && c.sees 1 mark && c.sees 2 mark && c.blankOrEnd 3

/-- Whether a document begins or ends at this line. -/
def atDocumentMarker (c : Cursor) : Bool := c.atMarker '-' || c.atMarker '.'

end Cursor

/-- Blanks and breaks between two pieces of a scalar. -/
structure Gap where
  /-- The blanks before the first break. -/
  blanks : List Char := []
  breaks : List Char := []
deriving Repr, Inhabited

/-- Breaks fold: one alone becomes a blank, the first of several is dropped. -/
def Gap.fold (g : Gap) : List Char :=
  match g.breaks with
  | [] => g.blanks
  | ['\n'] => [' ']
  | '\n' :: more => more
  | breaks => breaks

/-- Passes blanks and breaks. A tab left of `tabLimit` on a new line is refused. -/
def Cursor.gap? (tabLimit : Int) : (fuel : Nat) → Cursor → Gap → Option (Cursor × Gap)
  | 0, c, g => some (c, g)
  | fuel + 1, c, g =>
    match c.rest with
    | [] => some (c, g)
    | x :: _ =>
      if isBlank x then
        if g.breaks.isEmpty then
          gap? tabLimit fuel (c.skip 1) { g with blanks := g.blanks ++ [x] }
        else if x = '\t' ∧ (c.column : Int) < tabLimit then none
        else gap? tabLimit fuel (c.skip 1) g
      else if isBreak x then
        let (text, c) := c.skipBreak
        gap? tabLimit fuel c { g with breaks := g.breaks ++ text }
      else some (c, g)

end Wellbore.Yaml
