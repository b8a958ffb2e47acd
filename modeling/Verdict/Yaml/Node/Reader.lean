/-
Reading nodes from tokens: documents, block and flow collections, and the
properties that stand before a node. A text holds one document, or
nothing.
-/
import Verdict.Table
import Verdict.Yaml.Node
import Verdict.Yaml.Token

namespace Verdict.Yaml

/-- What a document's directives say about tags. -/
abbrev Handles := Table String

namespace Handles

/-- The short forms that need no directive. -/
def common : Handles := [("!", "!"), ("!!", Kind.family)]

/-- The short forms after those of a document's own. -/
def withCommon (own : Handles) : Handles := own ++ common

end Handles

/-- What is left to read, and what was read: the tokens, the short forms of
tags, the nodes that have an anchor, and all nodes. -/
structure Unread where
  tokens : List Token
  handles : Handles
  anchors : Table Nat := []
  graph : Graph := {}

/-- Reading from what is left. -/
abbrev Read := StateT Unread (Except Failure)

namespace Read

-- ============================================================= tokens

/-- The next token. -/
def peek : Read Token := do
  match (← get).tokens with
  | [] => pure .finish
  | .broken failure :: _ => throw failure
  | token :: _ => pure token

/-- Pass over the next token. -/
def skip : Read Unit := modify fun s => { s with tokens := s.tokens.drop 1 }

/-- Whether the next token is one of some; it is passed over if it is the
given one. -/
def skipIf (token : Token) : Read Bool := do
  if (← peek) = token then
    skip
    pure true
  else pure false

/-- Whether the next token is one of these. -/
def atOneOf (tokens : List Token) : Read Bool := do pure (tokens.contains (← peek))

-- ========================================================= properties

/-- What may stand before a node. -/
structure Properties where
  anchor : Option String := none
  tag : Option String := none

/-- The address that a tag stands for. -/
def addressOf (handle : Option String) (suffix : String) : Read String := do
  match handle with
  | none => pure suffix
  | some handle =>
      match (← get).handles.at? handle with
      | some address => pure (address ++ suffix)
      | none => throw .malformed

/-- The properties before a node, in either order. -/
def properties : Read Properties := do
  match ← peek with
  | .anchor name =>
      skip
      match ← peek with
      | .tag handle suffix =>
          skip
          pure ⟨some name, some (← addressOf handle suffix)⟩
      | _ => pure ⟨some name, none⟩
  | .tag handle suffix =>
      skip
      let anchor ← match ← peek with
        | .anchor name => do
            skip
            pure (some name)
        | _ => pure none
      pure ⟨anchor, some (← addressOf handle suffix)⟩
  | _ => pure {}

/-- The tag that asks for the kind that a node would have without one. -/
def plainTag : String := "!"

/-- The kind of a scalar. -/
def scalarKind (tag : Option String) (text : List Char) (plain : Bool) : Kind :=
  match tag with
  | none => if plain then .ofPlain text else .text
  | some tag => if tag = plainTag then .ofPlain text else .ofAddress tag

/-- The kind of a collection. -/
def collectionKind (tag : Option String) (usual : Kind) : Kind :=
  match tag with
  | none => usual
  | some tag => if tag = plainTag then usual else .ofAddress tag

/-- The node that an alias stands for. -/
def aliased (name : String) : Read Nat := do
  match (← get).anchors.at? name with
  | some n => pure n
  | none => throw .malformed

-- ================================================== opening and closing

/-- An anchor names one node. -/
def checkAnchor (anchor : Option String) : Read Unit := do
  match anchor with
  | some name => if (← get).anchors.has name then throw .malformed
  | none => pure ()

/-- Begin a node. It has its anchor from its beginning on, so that its parts
can be aliases of it. -/
def opening (anchor : Option String) (kind : Kind) : Read Nat := do
  let n := (← get).graph.nodes.size
  modify fun s =>
    { s with
        graph := s.graph.opening kind
        anchors := match anchor with
          | some name => s.anchors.put name n
          | none => s.anchors }
  pure n

/-- End a node. -/
def closing (n : Nat) (content : Content) : Read Nat := do
  modify fun s => { s with graph := s.graph.closing n content }
  pure n

/-- A scalar. -/
def leaf (anchor : Option String) (kind : Kind) (text : List Char) : Read Nat := do
  closing (← opening anchor kind) (.scalar text)

/-- The node where none is written. -/
def emptyNode : Read Nat := leaf none .null []

/-- A mapping of one entry that is written without brackets. -/
def single (key value : Nat) : Read Nat := do
  closing (← opening none .mapping) (.mapping [(key, value)])

-- ============================================================== nodes

/-- The greatest number of collections around a node. -/
def greatestDepth : Nat := 400

/-- Where a node stands: as an entry of a block, where it may be a block
collection, of which a sequence may do without an indent; or in a flow
collection. -/
inductive Place where
  | block
  | entry
  | flow
  deriving DecidableEq

mutual

/-- The next node. Every token is read by few calls, so fuel in proportion
to their number suffices. -/
def node : Nat → Nat → Place → Read Nat
  | 0, _, _ => throw .malformed
  | n + 1, depth, place => do
      match ← peek with
      | .alias name =>
          skip
          aliased name
      | _ =>
          let p ← properties
          let _ ← peek
          checkAnchor p.anchor
          content n depth place p

/-- A node with the given properties. -/
def content : Nat → Nat → Place → Properties → Read Nat
  | 0, _, _, _ => throw .malformed
  | n + 1, depth, place, p => do
      let list : Read Nat := opening p.anchor (collectionKind p.tag .list)
      let mapping : Read Nat := opening p.anchor (collectionKind p.tag .mapping)
      let nested : Read Unit := if greatestDepth < depth then throw .tooDeep else pure ()
      match ← peek with
      | .scalar text plain =>
          skip
          leaf p.anchor (scalarKind p.tag text.toList plain) text.toList
      | .flowSequence =>
          nested
          skip
          let m ← list
          closing m (.sequence (← flowItems n (depth + 1) true))
      | .flowMapping =>
          nested
          skip
          let m ← mapping
          closing m (.mapping (← flowEntries n (depth + 1) true))
      | .blockEntry =>
          if place = .entry then
            nested
            let m ← list
            closing m (.sequence (← openItems n (depth + 1)))
          else absent p
      | .blockSequence =>
          if place = .flow then absent p
          else
            nested
            skip
            let m ← list
            closing m (.sequence (← blockItems n (depth + 1)))
      | .blockMapping =>
          if place = .flow then absent p
          else
            nested
            skip
            let m ← mapping
            closing m (.mapping (← blockEntries n (depth + 1)))
      | _ => absent p

/-- The node of which only properties are written, if any are. -/
def absent (p : Properties) : Read Nat :=
  if p.anchor.isSome ∨ p.tag.isSome then leaf p.anchor (scalarKind p.tag [] true) []
  else throw .malformed

/-- The next node, or the empty one where one of some tokens follows. -/
def nodeUnless : Nat → Nat → Place → List Token → Read Nat
  | 0, _, _, _ => throw .malformed
  | n + 1, depth, place, follow => do
      if ← atOneOf follow then emptyNode else node n depth place

/-- The entries of a block sequence. -/
def blockItems : Nat → Nat → Read (List Nat)
  | 0, _ => throw .malformed
  | n + 1, depth => do
      if ← skipIf .blockEntry then
        let item ← nodeUnless n depth .block [.blockEntry, .blockEnd]
        pure (item :: (← blockItems n depth))
      else if ← skipIf .blockEnd then pure []
      else throw .malformed

/-- The entries of a block sequence that is not indented further than the
mapping it is in. -/
def openItems : Nat → Nat → Read (List Nat)
  | 0, _ => throw .malformed
  | n + 1, depth => do
      if ← skipIf .blockEntry then
        let item ← nodeUnless n depth .block [.blockEntry, .key, .value, .blockEnd]
        pure (item :: (← openItems n depth))
      else pure []

/-- The value after a key of a block mapping. -/
def blockValue : Nat → Nat → Read Nat
  | 0, _ => throw .malformed
  | n + 1, depth => do
      if ← skipIf .value then nodeUnless n depth .entry [.key, .value, .blockEnd]
      else emptyNode

/-- The entries of a block mapping. -/
def blockEntries : Nat → Nat → Read (List (Nat × Nat))
  | 0, _ => throw .malformed
  | n + 1, depth => do
      if ← skipIf .key then
        let key ← nodeUnless n depth .entry [.key, .value, .blockEnd]
        let value ← blockValue n depth
        pure ((key, value) :: (← blockEntries n depth))
      else if ← skipIf .blockEnd then pure []
      else throw .malformed

/-- The value after a key of a flow collection that ends with a token. -/
def flowValue : Nat → Nat → Token → Read Nat
  | 0, _, _ => throw .malformed
  | n + 1, depth, last => do
      if ← skipIf .value then nodeUnless n depth .flow [.flowEntry, last]
      else emptyNode

/-- The entries of a flow sequence. One with a key is a mapping of its
own. -/
def flowItems : Nat → Nat → Bool → Read (List Nat)
  | 0, _, _ => throw .malformed
  | n + 1, depth, first => do
      if ← skipIf .flowSequenceEnd then pure []
      else
        if !first then
          if !(← skipIf .flowEntry) then throw .malformed
        if ← skipIf .key then
          let key ← nodeUnless n depth .flow [.value, .flowEntry, .flowSequenceEnd]
          let value ← flowValue n depth .flowSequenceEnd
          let item ← single key value
          pure (item :: (← flowItems n depth false))
        else if ← skipIf .flowSequenceEnd then pure []
        else
          let item ← node n depth .flow
          pure (item :: (← flowItems n depth false))

/-- The entries of a flow mapping. -/
def flowEntries : Nat → Nat → Bool → Read (List (Nat × Nat))
  | 0, _, _ => throw .malformed
  | n + 1, depth, first => do
      if ← skipIf .flowMappingEnd then pure []
      else
        if !first then
          if !(← skipIf .flowEntry) then throw .malformed
        if ← skipIf .key then
          let key ← nodeUnless n depth .flow [.value, .flowEntry, .flowMappingEnd]
          let value ← flowValue n depth .flowMappingEnd
          pure ((key, value) :: (← flowEntries n depth false))
        else if ← skipIf .flowMappingEnd then pure []
        else
          let key ← node n depth .flow
          let value ← emptyNode
          pure ((key, value) :: (← flowEntries n depth false))

end

-- ========================================================== documents

/-- The directives before a document: the version is given once at most,
and so is each short form. -/
def directives : List Token → Bool → Handles → Except Failure (List Token × Handles)
  | .directive (.version major) :: rest, versioned, handles =>
      if versioned ∨ major ≠ 1 then .error .malformed else directives rest true handles
  | .directive (.handle handle address) :: rest, versioned, handles =>
      if handles.has handle then .error .malformed
      else directives rest versioned (handles.put handle address)
  | .directive .other :: rest, versioned, handles => directives rest versioned handles
  | tokens, _, handles => .ok (tokens, handles)

/-- Pass over the ends of documents. -/
def skipEnds : Read Unit :=
  modify fun s => { s with tokens := s.tokens.dropWhile (· = .documentEnd) }

/-- Read the directives that come next. -/
def ownHandles : Read Handles := do
  let (tokens, own) ← directives (← get).tokens false []
  modify fun s => { s with tokens := tokens }
  let _ ← peek
  pure own

/-- The node of a document and the end of the text after it. The directives
of another document are read before that one is refused. -/
def root (follow : List Token) : Read Nat := do
  let n := 4 * (← get).tokens.length + 4
  let read ← nodeUnless n 0 .block follow
  skipEnds
  if (← peek) = .finish then pure read
  else do
    let _ ← ownHandles
    throw .malformed

/-- What begins or ends a document. -/
def boundaries (t : Token) : Bool :=
  match t with
  | .directive _ => true
  | .documentStart => true
  | .documentEnd => true
  | .finish => true
  | _ => false

/-- The one node of a text that has no other, if it has one. -/
def document : Read (Option Nat) := do
  match ← peek with
  | .finish => pure none
  | .directive _ => announced
  | .documentStart => announced
  | _ => pure (some (← root []))
where
  announced : Read (Option Nat) := do
    let own ← ownHandles
    modify fun s => { s with handles := own.withCommon }
    if ← skipIf .documentStart then
      let next ← peek
      pure (some (← root (if boundaries next then [next] else [])))
    else throw .malformed

end Read

/-- The nodes that tokens describe, with the number of the outermost one if
there is one. -/
def Graph.ofTokens (tokens : List Token) : Except Failure (Option Nat × Graph) :=
  (Read.document.run { tokens, handles := .common }).map fun (root, s) => (root, s.graph)

end Verdict.Yaml
