import BehaviorTree.Yaml.Token

/-!
The node of a document from its tokens. A text holds at most one document. Aliases are replaced by
what their anchors name.
-/

namespace BehaviorTree.Yaml

/-- What is left to read, and what was named so far. -/
structure Reading where
  tokens : List Token
  /-- The latest first. -/
  anchors : List (String × Yaml) := []
  handles : List (String × String) := []

/-- The properties of a node before its content. -/
structure Properties where
  anchor : Option String := none
  tag : Option (String × String) := none

namespace Reading

def emptyScalar : Yaml := .scalar .plain none ""

def next? (reading : Reading) : Option Token := reading.tokens.head?

def skip (reading : Reading) : Reading := { reading with tokens := reading.tokens.drop 1 }

def sees (reading : Reading) (tokens : List Token) : Bool :=
  match reading.next? with
  | some token => tokens.contains token
  | none => false

/-- An anchor and a tag in either order. -/
def properties (reading : Reading) : Properties × Reading :=
  match reading.tokens with
  | .anchor name :: .tag handle suffix :: rest =>
      ({ anchor := some name, tag := some (handle, suffix) }, { reading with tokens := rest })
  | .tag handle suffix :: .anchor name :: rest =>
      ({ anchor := some name, tag := some (handle, suffix) }, { reading with tokens := rest })
  | .anchor name :: rest => ({ anchor := some name }, { reading with tokens := rest })
  | .tag handle suffix :: rest =>
      ({ tag := some (handle, suffix) }, { reading with tokens := rest })
  | _ => ({}, reading)

def knownHandles (reading : Reading) : List (String × String) :=
  reading.handles ++ [("!", "!"), ("!!", coreTag "")]

/-- The whole tag; `none` if its handle is unknown. -/
def resolve (reading : Reading) : Option (String × String) → Option (Option String)
  | none => some none
  | some ("", suffix) => some (some suffix)
  | some (handle, suffix) =>
      (reading.knownHandles.find? (·.1 = handle)).map fun known => some (known.2 ++ suffix)

/-- A lone exclamation mark asks for nothing on a scalar. -/
def scalarTag : Option String → Option String
  | some "!" => none
  | tag => tag

def named (reading : Reading) (anchor : Option String) (node : Yaml) : Reading :=
  match anchor with
  | none => reading
  | some name => { reading with anchors := (name, node) :: reading.anchors }

mutual

/-- A node. Blocks may stand only where `inBlock`, and entries of a sequence without an
indentation of its own only where `indentless`. -/
def node (inBlock indentless : Bool) : Nat → Reading → Option (Yaml × Reading)
  | 0, _ => none
  | fuel + 1, reading =>
      match reading.tokens with
      | .alias name :: rest => do
          let known ← reading.anchors.find? (·.1 = name)
          return (known.2, { reading with tokens := rest })
      | _ => do
          let (properties, behind) := reading.properties
          let tag ← reading.resolve properties.tag
          let begun := behind.named properties.anchor .circular
          let (found, after) ← content inBlock indentless fuel tag
            (properties.anchor.isSome || tag.isSome) begun
          return (found, after.named properties.anchor found)

/-- A node behind its properties. With properties it may be empty. -/
def content (inBlock indentless : Bool) :
    Nat → Option String → Bool → Reading → Option (Yaml × Reading)
  | 0, _, _, _ => none
  | fuel + 1, tag, mayBeEmpty, reading =>
      match reading.next? with
      | some (.scalar style text) => some (.scalar style (scalarTag tag) text, reading.skip)
      | some .flowSequence => do
          let (items, after) ← flowItems fuel true reading.skip
          return (.sequence tag items, after)
      | some .flowMapping => do
          let (entries, after) ← flowEntries fuel true reading.skip
          return (.mapping tag entries, after)
      | some .blockEntry =>
          if indentless then do
            let (items, after) ← indentlessItems fuel reading
            return (.sequence tag items, after)
          else empty tag mayBeEmpty reading
      | some .blockSequence =>
          if inBlock then do
            let (items, after) ← blockItems fuel reading.skip
            return (.sequence tag items, after)
          else empty tag mayBeEmpty reading
      | some .blockMapping =>
          if inBlock then do
            let (entries, after) ← blockEntries fuel reading.skip
            return (.mapping tag entries, after)
          else empty tag mayBeEmpty reading
      | _ => empty tag mayBeEmpty reading

def empty (tag : Option String) (mayBeEmpty : Bool) (reading : Reading) :
    Option (Yaml × Reading) :=
  if mayBeEmpty then some (.scalar .plain (scalarTag tag) "", reading) else none

/-- A node, or an empty one before certain tokens. -/
def nodeUnless (stops : List Token) (inBlock indentless : Bool) :
    Nat → Reading → Option (Yaml × Reading)
  | 0, _ => none
  | fuel + 1, reading =>
      if reading.sees stops then some (emptyScalar, reading)
      else node inBlock indentless fuel reading

def blockItems : Nat → Reading → Option (List Yaml × Reading)
  | 0, _ => none
  | fuel + 1, reading =>
      match reading.next? with
      | some .blockEntry => do
          let (item, after) ←
            nodeUnless [.blockEntry, .blockEnd] true false fuel reading.skip
          let (items, last) ← blockItems fuel after
          return (item :: items, last)
      | some .blockEnd => some ([], reading.skip)
      | _ => none

def indentlessItems : Nat → Reading → Option (List Yaml × Reading)
  | 0, _ => none
  | fuel + 1, reading =>
      match reading.next? with
      | some .blockEntry => do
          let (item, after) ←
            nodeUnless [.blockEntry, .key, .value, .blockEnd] true false fuel reading.skip
          let (items, last) ← indentlessItems fuel after
          return (item :: items, last)
      | _ => some ([], reading)

def blockEntries : Nat → Reading → Option (List (Yaml × Yaml) × Reading)
  | 0, _ => none
  | fuel + 1, reading =>
      match reading.next? with
      | some .key => do
          let (key, afterKey) ← nodeUnless [.key, .value, .blockEnd] true true fuel reading.skip
          let (found, after) ← blockValue fuel afterKey
          let (entries, last) ← blockEntries fuel after
          return ((key, found) :: entries, last)
      | some .blockEnd => some ([], reading.skip)
      | _ => none

def blockValue : Nat → Reading → Option (Yaml × Reading)
  | 0, _ => none
  | fuel + 1, reading =>
      if reading.sees [.value] then
        nodeUnless [.key, .value, .blockEnd] true true fuel reading.skip
      else some (emptyScalar, reading)

/-- The items of a sequence in a flow; a pair may stand for a mapping of one entry. -/
def flowItems : Nat → Bool → Reading → Option (List Yaml × Reading)
  | 0, _, _ => none
  | fuel + 1, isFirst, reading =>
      if reading.sees [.flowSequenceEnd] then some ([], reading.skip)
      else if !isFirst && !reading.sees [.flowEntry] then none
      else
        let begun := if isFirst then reading else reading.skip
        if begun.sees [.flowSequenceEnd] then some ([], begun.skip)
        else do
          let (item, after) ←
            if begun.sees [.key] then flowPair fuel begun.skip else node false false fuel begun
          let (items, last) ← flowItems fuel false after
          return (item :: items, last)

def flowPair : Nat → Reading → Option (Yaml × Reading)
  | 0, _ => none
  | fuel + 1, reading => do
      let (key, afterKey) ←
        nodeUnless [.value, .flowEntry, .flowSequenceEnd] false false fuel reading
      let (found, after) ← flowValue [.flowEntry, .flowSequenceEnd] fuel afterKey
      return (.mapping none [(key, found)], after)

def flowEntries : Nat → Bool → Reading → Option (List (Yaml × Yaml) × Reading)
  | 0, _, _ => none
  | fuel + 1, isFirst, reading =>
      if reading.sees [.flowMappingEnd] then some ([], reading.skip)
      else if !isFirst && !reading.sees [.flowEntry] then none
      else
        let begun := if isFirst then reading else reading.skip
        if begun.sees [.flowMappingEnd] then some ([], begun.skip)
        else if begun.sees [.key] then do
          let (key, afterKey) ←
            nodeUnless [.value, .flowEntry, .flowMappingEnd] false false fuel begun.skip
          let (found, after) ← flowValue [.flowEntry, .flowMappingEnd] fuel afterKey
          let (entries, last) ← flowEntries fuel false after
          return ((key, found) :: entries, last)
        else do
          let (key, after) ← node false false fuel begun
          let (entries, last) ← flowEntries fuel false after
          return ((key, emptyScalar) :: entries, last)

def flowValue (stops : List Token) : Nat → Reading → Option (Yaml × Reading)
  | 0, _ => none
  | fuel + 1, reading =>
      if reading.sees [.value] then nodeUnless stops false false fuel reading.skip
      else some (emptyScalar, reading)

end

/-- Directives before a document: at most one version, which must be 1.1 or 1.2, and handles, each
named once. -/
def directives : Bool → List Token → List (String × String) →
    Option (List Token × List (String × String))
  | seen, .version major minor :: rest, handles =>
      if seen || major ≠ 1 || (minor ≠ 1 && minor ≠ 2) then none
      else directives true rest handles
  | seen, .handle handle start :: rest, handles =>
      if handles.any (·.1 = handle) then none
      else directives seen rest ((handle, start) :: handles)
  | _, rest, handles => some (rest, handles)

def isDirective : Token → Bool
  | .version _ _ | .handle _ _ => true
  | _ => false

/-- The node of an explicit document, which may be empty. -/
def explicitNode (fuel : Nat) (reading : Reading) : Option (Yaml × Reading) :=
  match reading.next? with
  | none => some (emptyScalar, reading)
  | some token =>
      if isDirective token || token = .documentStart || token = .documentEnd then
        some (emptyScalar, reading)
      else node true false fuel reading

def document (tokens : List Token) : Option Yaml := do
  let fuel := 4 * tokens.length + 4
  match tokens with
  | [] => return .absent
  | first :: _ =>
      let (found, after) ←
        if isDirective first || first = .documentStart then do
          let (rest, handles) ← directives false tokens []
          match rest with
          | .documentStart :: content => explicitNode fuel { tokens := content, handles }
          | _ => none
        else node true false fuel { tokens }
      if (after.tokens.dropWhile (· = .documentEnd)).isEmpty then return found else none

end Reading

/-- The document that a text holds. -/
def read (text : String) : Option Yaml := (tokens text).bind Reading.document

end BehaviorTree.Yaml
