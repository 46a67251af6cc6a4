import Wellbore.Yaml.Scalar

/-!
# From YAML text to tokens

Structure comes from brackets and from indentation. A key on one line is only known
for a key when its colon is met, so the place where it began is remembered and the
key token is put in there afterwards, together with the start of a block mapping
if the key opens one.
-/

namespace Wellbore.Yaml

/-- A place where a one-line key may have begun. -/
structure PossibleKey where
  /-- How many tokens stand before it. -/
  position : Nat
  octets : Nat
  line : Nat
  column : Nat
  /-- The indentation leaves no other reading. -/
  required : Bool
deriving Repr, Inhabited

/-- The state of a scan. -/
structure Lexer where
  cursor : Cursor
  tokens : Array Token := #[]
  /-- The indentation of the innermost block, less than zero outside of blocks. -/
  indent : Int := -1
  /-- The indentations around it. -/
  outer : List Int := []
  /-- The possible key of every open bracket, innermost first, then that of the block. -/
  keys : List (Option PossibleKey) := [none]
  /-- Whether a key may begin here. -/
  keyAllowed : Bool := true
deriving Inhabited

namespace Lexer

def inFlow (l : Lexer) : Bool := l.keys.length > 1

def emit (l : Lexer) (t : Token) : Lexer := { l with tokens := l.tokens.push t }

/-- Puts a token before those from `position` on. -/
def emitAt (l : Lexer) (position : Nat) (t : Token) : Lexer :=
  { l with tokens := l.tokens.insertIdxIfInBounds position t }

def skip (l : Lexer) (n : Nat) : Lexer := { l with cursor := l.cursor.skip n }

def column (l : Lexer) : Int := l.cursor.column

/-- Passes blanks, comments and breaks up to the next token. A tab only counts as a
blank where no key can begin. A byte order mark may begin a line and takes up a
column. -/
def toNextToken : (fuel : Nat) → Lexer → Lexer
  | 0, l => l
  | fuel + 1, l =>
    let tabs := l.inFlow || !l.keyAllowed
    let c := l.cursor
    let c := if c.column = 0 && c.sees 0 '\ufeff' then c.skip 1 else c
    let (_, c) := c.skipWhile fun x => x = ' ' || (tabs && x = '\t')
    let c := if c.sees 0 '#' then (c.skipWhile fun x => !isBreak x).2 else c
    match c.rest with
    | x :: _ =>
      if isBreak x then
        toNextToken fuel
          { l with cursor := c.skipBreak.2, keyAllowed := l.keyAllowed || !l.inFlow }
      else { l with cursor := c }
    | [] => { l with cursor := c }

/-- A possible key must have its colon on its line and within 1024 octets. -/
def dropStaleKeys (l : Lexer) : Option Lexer := do
  let keys ← l.keys.mapM fun key =>
    match key with
    | none => some none
    | some k =>
      if k.line < l.cursor.line ∨ k.octets + 1024 < l.cursor.octets then
        if k.required then none else some none
      else some (some k)
  return { l with keys }

/-- Gives up the possible key of the innermost level. -/
def dropKey (l : Lexer) : Option Lexer :=
  match l.keys with
  | key :: rest =>
    if key.any PossibleKey.required then none else some { l with keys := none :: rest }
  | [] => some l

/-- Remembers that a key may begin here. -/
def saveKey (l : Lexer) : Option Lexer :=
  if l.keyAllowed then do
    let l ← l.dropKey
    let key := {
      position := l.tokens.size, octets := l.cursor.octets, line := l.cursor.line
      column := l.cursor.column, required := !l.inFlow && l.indent = l.column }
    return { l with keys := some key :: l.keys.drop 1 }
  else some l

/-- Opens a block if `column` lies beyond the indentation; its start token goes to
`position`, or to the end. -/
def openBlock (l : Lexer) (column : Int) (position : Option Nat) (start : Token) : Lexer :=
  if !l.inFlow && l.indent < column then
    let l := { l with outer := l.indent :: l.outer, indent := column }
    match position with
    | some n => l.emitAt n start
    | none => l.emit start
  else l

/-- Closes the blocks that are indented beyond `column`. -/
def closeBlocks (column : Int) : (fuel : Nat) → Lexer → Lexer
  | 0, l => l
  | fuel + 1, l =>
    if !l.inFlow && column < l.indent then
      closeBlocks column fuel
        { l.emit .blockEnd with indent := l.outer.head?.getD (-1), outer := l.outer.drop 1 }
    else l

/-- Closes blocks down to `column`; each open block is one entry of `outer`. -/
def unroll (l : Lexer) (column : Int) : Lexer := closeBlocks column (l.outer.length + 1) l

def isNameChar (c : Char) : Bool := c.isAlphanum || c = '_' || c = '-'

/-- The name of an anchor or an alias after its mark. -/
def anchorName? (c : Cursor) : Option (String × Cursor) :=
  let (name, c) := (c.skip 1).skipWhile isNameChar
  let ends := c.blankOrEnd 0 || c.rest.head?.any fun x =>
    x = '?' || x = ':' || x = ',' || x = ']' || x = '\x7d' || x = '%' || x = '@' || x = '\x60'
  if name.isEmpty || !ends then none else some (String.ofList name, c)

/-- A character of a tag or of the prefix of one. -/
def isTagChar (c : Char) : Bool :=
  isNameChar c || ";/?:@&=+$,.!~*'()[]%".toList.contains c

/-- How many octets follow a first octet of a coded character. -/
def continuations? (octet : Nat) : Option Nat :=
  if octet < 0x80 then some 0
  else if octet < 0xC0 then none
  else if octet < 0xE0 then some 1
  else if octet < 0xF0 then some 2
  else if octet < 0xF8 then some 3
  else none

/-- The octets of a tag, each of them as the character with its number. A character may
be written as the codes of its octets, of which `pending` are still to come; codes
that do not have the form of a character are refused. -/
def tagOctets? : (pending : Nat) → List Char → Option (List Char)
  | pending, '%' :: a :: b :: rest => do
    let octet := (← hexDigit? a) * 16 + (← hexDigit? b)
    let pending ←
      if pending = 0 then continuations? octet
      else if 0x80 ≤ octet ∧ octet < 0xC0 then some (pending - 1)
      else none
    return Char.ofNat octet :: (← tagOctets? pending rest)
  | _, '%' :: _ => none
  | pending, c :: rest =>
    if pending = 0 then (tagOctets? 0 rest).map (c :: ·) else none
  | pending, [] => if pending = 0 then some [] else none

/-- What a written piece of a tag stands for. A zero octet ends it. -/
def decodeTag? (cs : List Char) : Option String :=
  (tagOctets? 0 cs).map fun octets => String.ofList (octets.takeWhile fun c => c ≠ '\x00')

/-- A tag; outside of angle brackets no bracket or comma belongs to it. A tag of which
nothing but its mark is left has no handle. -/
def tag? (flow : Bool) (c : Cursor) : Option (Token × Cursor) := do
  let (token, c) ←
    if c.sees 1 '<' then do
      let (uri, c) := (c.skip 2).skipWhile isTagChar
      guard (c.sees 0 '>' && !uri.isEmpty)
      let uri ← decodeTag? uri
      some (Token.tag "" uri, c.skip 1)
    else do
      let (name, after) := (c.skip 1).skipWhile isNameChar
      let suffixChar (x : Char) := isTagChar x && !isFlowMark x
      if after.sees 0 '!' then
        let (suffix, c) := (after.skip 1).skipWhile suffixChar
        guard !suffix.isEmpty
        let suffix ← decodeTag? suffix
        some (Token.tag ("!" ++ String.ofList name ++ "!") suffix, c)
      else
        let (suffix, c) := (c.skip 1).skipWhile suffixChar
        let suffix ← decodeTag? suffix
        some (if suffix = "" then Token.tag "" "!" else Token.tag "!" suffix, c)
  guard (c.blankOrEnd 0 || (flow && c.sees 0 ','))
  return (token, c)

/-- A number of up to nine digits. -/
def directiveNumber? (c : Cursor) : Option (Nat × Cursor) :=
  let (digits, c) := c.skipWhile Char.isDigit
  if digits.isEmpty ∨ 9 < digits.length then none
  else some (digits.foldl (fun n d => n * 10 + (d.toNat - '0'.toNat)) 0, c)

/-- A directive, up to the end of its line. -/
def directive? (c : Cursor) : Option (Token × Cursor) := do
  let (name, c) := (c.skip 1).skipWhile isNameChar
  guard (c.blankOrEnd 0)
  let (_, c) := c.skipWhile isBlank
  let (token, c) ←
    if name = "YAML".toList then do
      let (major, c) ← directiveNumber? c
      guard (c.sees 0 '.')
      let (minor, c) ← directiveNumber? (c.skip 1)
      some (Token.versionDirective major minor, c)
    else if name = "TAG".toList then do
      guard (c.sees 0 '!')
      let (handle, after) := (c.skip 1).skipWhile isNameChar
      let (handle, c) ←
        if after.sees 0 '!' then some ("!" ++ String.ofList handle ++ "!", after.skip 1)
        else if handle.isEmpty then some ("!", after)
        else none
      let (blanks, c) := c.skipWhile isBlank
      guard !blanks.isEmpty
      let (text, c) := c.skipWhile isTagChar
      guard (!text.isEmpty && c.blankOrEnd 0)
      some (Token.tagDirective handle (← decodeTag? text), c)
    else none
  let (_, c) := c.skipWhile isBlank
  let c := if c.sees 0 '#' then (c.skipWhile fun x => !isBreak x).2 else c
  guard (c.rest.isEmpty ∨ c.rest.head?.any isBreak)
  return (token, c.skipBreak.2)

def blockEntry? (l : Lexer) : Option Lexer := do
  guard (l.inFlow || l.keyAllowed)
  let l := l.openBlock l.column none .blockSequenceStart
  let l ← l.dropKey
  return { (l.skip 1).emit .blockEntry with keyAllowed := true }

/-- A key with its own mark. -/
def explicitKey? (l : Lexer) : Option Lexer := do
  guard (l.inFlow || l.keyAllowed)
  let l := l.openBlock l.column none .blockMappingStart
  let l ← l.dropKey
  return { (l.skip 1).emit .key with keyAllowed := !l.inFlow }

/-- The colon between a key and its value. -/
def value? (l : Lexer) : Option Lexer :=
  match l.keys with
  | some key :: outer =>
    let l := { l with keys := none :: outer }
    let l := l.emitAt key.position .key
    let l := l.openBlock key.column (some key.position) .blockMappingStart
    some { (l.skip 1).emit .value with keyAllowed := false }
  | _ => do
    guard (l.inFlow || l.keyAllowed)
    let l := l.openBlock l.column none .blockMappingStart
    return { (l.skip 1).emit .value with keyAllowed := !l.inFlow }

def openFlow? (l : Lexer) (start : Token) : Option Lexer := do
  let l ← l.saveKey
  return { (l.skip 1).emit start with keys := none :: l.keys, keyAllowed := true }

def closeFlow? (l : Lexer) (stop : Token) : Option Lexer := do
  let l ← l.dropKey
  let keys := if l.inFlow then l.keys.drop 1 else l.keys
  return { (l.skip 1).emit stop with keys, keyAllowed := false }

/-- A token that ends all blocks and cannot be part of a key. -/
def atTop? (l : Lexer) : Option Lexer := do
  let l ← (l.unroll (-1)).dropKey
  return { l with keyAllowed := false }

/-- A scalar, an anchor or a tag, with which a key may begin. -/
def content? (l : Lexer) (scan : Cursor → Option (Token × Cursor)) : Option Lexer := do
  let l ← l.saveKey
  let (token, cursor) ← scan l.cursor
  return { l.emit token with cursor, keyAllowed := false }

/-- Whether a plain scalar can begin with `x` when `y` follows it. -/
def startsPlain (flow : Bool) (x : Char) (y : Option Char) : Bool :=
  let free := !isBlank x && !isBreak x && !("-?:,[]#&*!|>'\"%@\x60\x7b\x7d".toList.contains x)
  let blankNext := y.all fun y => isBlank y || isBreak y
  let dash := x = '-' && !(y.any isBlank)
  let mark := !flow && (x = '?' || x = ':') && !blankNext
  free || dash || mark

def plain? (l : Lexer) : Option Lexer := do
  let l ← l.saveKey
  let (text, cursor, newLine) ←
    plainScalar? l.inFlow l.indent (l.cursor.rest.length + 1) l.cursor [] {}
  return { l.emit (.scalar .plain (String.ofList text)) with cursor, keyAllowed := newLine }

def block? (l : Lexer) (literal : Bool) : Option Lexer := do
  let l ← l.dropKey
  let (text, cursor) ← blockScalar? literal l.indent l.cursor
  let style := if literal then ScalarStyle.literal else .folded
  return { l.emit (.scalar style (String.ofList text)) with cursor, keyAllowed := true }

/-- Scans the token at the cursor, which is not at the end. -/
def token? (l : Lexer) (x : Char) : Option Lexer :=
  let c := l.cursor
  let named (make : String → Token) (c : Cursor) : Option (Token × Cursor) :=
    (anchorName? c).map fun (name, c) => (make name, c)
  let quoted (single : Bool) (c : Cursor) : Option (Token × Cursor) :=
    (quotedScalar? single c).map fun (text, c) => (.scalar .quoted (String.ofList text), c)
  if c.column = 0 ∧ x = '%' then do
    let l ← l.atTop?
    let (token, cursor) ← directive? l.cursor
    return { l.emit token with cursor }
  else if c.atMarker '-' then l.atTop?.map fun l => (l.skip 3).emit .documentStart
  else if c.atMarker '.' then l.atTop?.map fun l => (l.skip 3).emit .documentEnd
  else if x = '[' then l.openFlow? .flowSequenceStart
  else if x = '\x7b' then l.openFlow? .flowMappingStart
  else if x = ']' then l.closeFlow? .flowSequenceEnd
  else if x = '\x7d' then l.closeFlow? .flowMappingEnd
  else if x = ',' then l.dropKey.map fun l =>
    { (l.skip 1).emit .flowEntry with keyAllowed := true }
  else if x = '-' ∧ c.blankOrEnd 1 then l.blockEntry?
  else if x = '?' ∧ (l.inFlow ∨ c.blankOrEnd 1) then l.explicitKey?
  else if x = ':' ∧ (l.inFlow ∨ c.blankOrEnd 1) then l.value?
  else if x = '*' then l.content? (named .alias)
  else if x = '&' then l.content? (named .anchor)
  else if x = '!' then l.content? (tag? l.inFlow)
  else if x = '|' ∧ !l.inFlow then l.block? true
  else if x = '>' ∧ !l.inFlow then l.block? false
  else if x = '\'' then l.content? (quoted true)
  else if x = '"' then l.content? (quoted false)
  else if startsPlain l.inFlow x (c.ahead? 1) then l.plain?
  else none

/-- Scans tokens until the end of the text, where all blocks are closed. Every token
takes a character, so the fuel that is left always exceeds the rest of the text. -/
def run? : (fuel : Nat) → Lexer → Option Lexer
  | 0, _ => none
  | fuel + 1, l => do
    let l ← (toNextToken fuel l).dropStaleKeys
    let l := l.unroll l.column
    match l.cursor.rest with
    | [] => (l.unroll (-1)).dropKey
    | x :: _ => run? fuel (← l.token? x)

end Lexer

/-- The tokens of a text. Every token takes at least one character. -/
def tokens? (text : String) : Option (List Token) := do
  let cs := text.toList
  guard (cs.all isAllowed)
  let l ← Lexer.run? (cs.length + 2) { cursor := { rest := cs } }
  return l.tokens.toList

end Wellbore.Yaml
