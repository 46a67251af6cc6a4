import Wellbore.Yaml.Lexer

/-!
# YAML nodes

The tree that a list of tokens stands for. A missing node between two indicators is
an empty plain scalar.

Anchored nodes go into numbered slots, and an alias means whatever ends up in the
slot of its name. The slot of an anchor is the number of names known before it. A
name that is anchored again gets a new slot this way but is not counted again, so the
next new name shares that slot, and the node anchored last in it is the one that
both names mean.
-/

namespace Wellbore.Yaml

inductive Node where
  | scalar (tag : Option String) (style : ScalarStyle) (text : String)
  | sequence (items : List Node)
  | mapping (entries : List (Node × Node))
  | anchored (slot : Nat) (node : Node)
  | alias (slot : Nat)
deriving Inhabited

namespace Node

/-- The node that stands where nothing is written. -/
def empty : Node := .scalar none .plain ""

mutual

/-- The size of a tree: one for a scalar or an alias, and two for a collection, one at
its start and one at its end. -/
def size : Node → Nat
  | .scalar _ _ _ | .alias _ => 1
  | .sequence items => sizeOfItems items + 2
  | .mapping entries => sizeOfEntries entries + 2
  | .anchored _ node => node.size

def sizeOfItems : List Node → Nat
  | [] => 0
  | item :: rest => item.size + sizeOfItems rest

def sizeOfEntries : List (Node × Node) → Nat
  | [] => 0
  | (key, value) :: rest => key.size + value.size + sizeOfEntries rest

end

mutual

/-- Puts the anchored nodes of a tree into their slots, in the order in which they
begin. -/
def fill (slots : Array Node) : Node → Array Node
  | .scalar _ _ _ | .alias _ => slots
  | .sequence items => fillItems slots items
  | .mapping entries => fillEntries slots entries
  | .anchored slot node => node.fill (slots.setIfInBounds slot node)

/-- Puts the anchored nodes of some items into their slots. -/
def fillItems (slots : Array Node) : List Node → Array Node
  | [] => slots
  | item :: rest => fillItems (item.fill slots) rest

/-- Puts the anchored nodes of some entries into their slots. -/
def fillEntries (slots : Array Node) : List (Node × Node) → Array Node
  | [] => slots
  | (key, value) :: rest => fillEntries (value.fill (key.fill slots)) rest

end

/-- What is left to read, and what has been named. -/
structure State where
  tokens : List Token
  /-- The slots of the names, latest first. -/
  slots : List (String × Nat) := []
  /-- How many different names there are. -/
  names : Nat := 0
  /-- The prefixes that tag handles stand for. -/
  handles : List (String × String) := []

namespace State

def next? (s : State) : Option Token := s.tokens.head?

def skip (s : State) : State := { s with tokens := s.tokens.tail }

/-- Whether the next token is one of some. -/
def isAt (s : State) (ts : List Token) : Bool := s.next?.any ts.contains

/-- Gives a slot to a name. -/
def anchor (s : State) (name : String) : State :=
  { s with
    slots := (name, s.names) :: s.slots
    names := if (s.slots.lookup name).isSome then s.names else s.names + 1 }

/-- The full form of a tag, if its handle is known. -/
def resolve? (s : State) (handle suffix : String) : Option String :=
  if handle = "" then some suffix else (s.handles.lookup handle).map (· ++ suffix)

end State

/-- The slot and the tag that an anchor and a tag before a node give it, in either
order. -/
def properties? (s : State) : Option (Option Nat × Option String × State) :=
  match s.next? with
  | some (.anchor name) =>
    let slot := s.names
    let s := s.skip.anchor name
    match s.next? with
    | some (.tag handle suffix) =>
      (s.resolve? handle suffix).map fun tag => (some slot, some tag, s.skip)
    | _ => some (some slot, none, s)
  | some (.tag handle suffix) => do
    let tag ← s.resolve? handle suffix
    let s := s.skip
    match s.next? with
    | some (.anchor name) => some (some s.names, some tag, s.skip.anchor name)
    | _ => some (none, some tag, s)
  | _ => some (none, none, s)

/-- A node in the slot that its anchor gives it. -/
def within (slot : Option Nat) (node : Node) : Node :=
  match slot with
  | some slot => .anchored slot node
  | none => node

mutual

/-- One node. `block` admits block collections, `indentless` a sequence that is not
indented beyond its mapping. -/
def node? (block indentless : Bool) : (fuel : Nat) → State → Option (Node × State)
  | 0, _ => none
  | fuel + 1, s =>
    match s.next? with
    | some (.alias name) => (s.slots.lookup name).map fun slot => (.alias slot, s.skip)
    | _ => do
      let (slot, tag, s) ← properties? s
      let unwritten? : Option (Node × State) :=
        if slot.isSome ∨ tag.isSome then some (.scalar tag .plain "", s) else none
      let (node, s) ←
        match s.next? with
        | some .blockEntry => if indentless then indentless? fuel [] s else unwritten?
        | some (.scalar style text) => some (.scalar tag style text, s.skip)
        | some .flowSequenceStart => flowSequence? fuel true [] s.skip
        | some .flowMappingStart => flowMapping? fuel true [] s.skip
        | some .blockSequenceStart => if block then blockSequence? fuel [] s.skip else none
        | some .blockMappingStart => if block then blockMapping? fuel [] s.skip else none
        | _ => unwritten?
      return (within slot node, s)

/-- A node, or an empty one before any of the given tokens. -/
def nodeUnless? (block indentless : Bool) (stops : List Token) :
    (fuel : Nat) → State → Option (Node × State)
  | 0, _ => none
  | fuel + 1, s =>
    if s.isAt stops then some (.empty, s) else node? block indentless fuel s

/-- The entries of an indented sequence from the next one on. -/
def blockSequence? : (fuel : Nat) → (acc : List Node) → State → Option (Node × State)
  | 0, _, _ => none
  | fuel + 1, acc, s =>
    match s.next? with
    | some .blockEntry => do
      let (item, s) ← nodeUnless? true false [.blockEntry, .blockEnd] fuel s.skip
      blockSequence? fuel (item :: acc) s
    | some .blockEnd => some (.sequence acc.reverse, s.skip)
    | _ => none

/-- The entries of a sequence that ends with its mapping. -/
def indentless? : (fuel : Nat) → (acc : List Node) → State → Option (Node × State)
  | 0, _, _ => none
  | fuel + 1, acc, s =>
    match s.next? with
    | some .blockEntry => do
      let (item, s) ←
        nodeUnless? true false [.blockEntry, .key, .value, .blockEnd] fuel s.skip
      indentless? fuel (item :: acc) s
    | _ => some (.sequence acc.reverse, s)

/-- The entries of an indented mapping from the next one on. -/
def blockMapping? : (fuel : Nat) → (acc : List (Node × Node)) → State →
    Option (Node × State)
  | 0, _, _ => none
  | fuel + 1, acc, s =>
    match s.next? with
    | some .key => do
      let (key, s) ← nodeUnless? true true [.key, .value, .blockEnd] fuel s.skip
      if s.isAt [.value] then
        let (value, s) ← nodeUnless? true true [.key, .value, .blockEnd] fuel s.skip
        blockMapping? fuel ((key, value) :: acc) s
      else blockMapping? fuel ((key, .empty) :: acc) s
    | some .blockEnd => some (.mapping acc.reverse, s.skip)
    | _ => none

/-- The entries of a bracketed sequence; an entry with a key is a mapping of its
own. A key that is missing takes the token in whose place it would stand. -/
def flowSequence? : (fuel : Nat) → (first : Bool) → (acc : List Node) → State →
    Option (Node × State)
  | 0, _, _, _ => none
  | fuel + 1, first, acc, s =>
    if s.isAt [.flowSequenceEnd] then some (.sequence acc.reverse, s.skip)
    else do
      let s ← if first then some s else if s.isAt [.flowEntry] then some s.skip else none
      if s.isAt [.key] then
        let s := s.skip
        let (key, s) ←
          if s.isAt [.value, .flowEntry, .flowSequenceEnd] then some (.empty, s.skip)
          else node? false false fuel s
        if s.isAt [.value] then
          let (value, s) ← nodeUnless? false false [.flowEntry, .flowSequenceEnd] fuel s.skip
          flowSequence? fuel false (.mapping [(key, value)] :: acc) s
        else flowSequence? fuel false (.mapping [(key, .empty)] :: acc) s
      else if s.isAt [.flowSequenceEnd] then some (.sequence acc.reverse, s.skip)
      else
        let (item, s) ← node? false false fuel s
        flowSequence? fuel false (item :: acc) s

/-- The entries of a bracketed mapping; an entry without a key mark has no value. -/
def flowMapping? : (fuel : Nat) → (first : Bool) → (acc : List (Node × Node)) → State →
    Option (Node × State)
  | 0, _, _, _ => none
  | fuel + 1, first, acc, s =>
    if s.isAt [.flowMappingEnd] then some (.mapping acc.reverse, s.skip)
    else do
      let s ← if first then some s else if s.isAt [.flowEntry] then some s.skip else none
      if s.isAt [.key] then
        let (key, s) ← nodeUnless? false false [.value, .flowEntry, .flowMappingEnd] fuel s.skip
        if s.isAt [.value] then
          let (value, s) ← nodeUnless? false false [.flowEntry, .flowMappingEnd] fuel s.skip
          flowMapping? fuel false ((key, value) :: acc) s
        else flowMapping? fuel false ((key, .empty) :: acc) s
      else if s.isAt [.flowMappingEnd] then some (.mapping acc.reverse, s.skip)
      else
        let (key, s) ← node? false false fuel s
        flowMapping? fuel false ((key, .empty) :: acc) s

end

/-- The handles that need no directive. -/
def standardHandles : List (String × String) :=
  [("!", "!"), ("!!", "tag:yaml.org,2002:")]

/-- The directives before a document; a version or a handle may be given once, and
only the first major version is known. -/
def directives? : (fuel : Nat) → (seen : Bool) → (handles : List (String × String)) →
    List Token → Option (List (String × String) × List Token)
  | 0, _, _, _ => none
  | fuel + 1, seen, handles, tokens =>
    match tokens with
    | .versionDirective major minor :: rest =>
      if seen ∨ major ≠ 1 ∨ (minor ≠ 1 ∧ minor ≠ 2) then none
      else directives? fuel true handles rest
    | .tagDirective handle text :: rest =>
      if (handles.lookup handle).isSome then none
      else directives? fuel seen ((handle, text) :: handles) rest
    | rest => some (handles, rest)

/-- The one document of a text, and how many slots its anchors need at most; a second
document is refused, and a text without any is an empty node. -/
def ofTokens? (tokens : List Token) : Option (Node × Nat) :=
  if tokens.isEmpty then some (.empty, 0)
  else do
    let (handles, rest) ← directives? (tokens.length + 1) false [] tokens
    let marked := rest.head? = some .documentStart
    guard (marked ∨ rest.length = tokens.length)
    let s : State := {
      tokens := if marked then rest.tail else rest
      handles := handles ++ standardHandles }
    let absent := marked ∧ s.tokens.head?.all fun t =>
      match t with
      | .versionDirective _ _ | .tagDirective _ _ | .documentStart | .documentEnd => true
      | _ => false
    let (node, s) ←
      if absent then some (.empty, s)
      else node? true false (6 * s.tokens.length + 6) s
    guard (s.tokens.all (· == .documentEnd))
    return (node, s.names + 1)

/-- The one document of a text, with its slots. -/
def parse? (text : String) : Option (Node × Array Node) := do
  let (root, slots) ← ofTokens? (← tokens? text)
  return (root, root.fill (Array.replicate slots .empty))

end Node

end Wellbore.Yaml
