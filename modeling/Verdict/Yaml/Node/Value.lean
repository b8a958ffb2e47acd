/-
The values of nodes. A scalar has its value at once; a collection is begun
at once and filled after all that were begun before it, so that of several
failures the one nearest to the root is reported, and the first of those
on one level. Before a mapping is filled it takes in the entries of the
mappings that are merged into it, and keeps them wherever else it stands.
What the nodes come to is read off at the end; what holds itself stays in
cells.
-/
import Verdict.Text.Base64
import Verdict.Value.Same
import Verdict.Yaml.Node

namespace Verdict.Yaml

-- ======================================================= values made

/-- What a node comes to: a value, or a collection of what other nodes come
to. -/
inductive Made where
  | leaf (v : Value)
  /-- Not-a-number other than under its name: each is a key of its own. -/
  | nan
  | list (items : List Nat)
  | pairs (entries : List (Nat × Nat))
  | map (entries : List (Nat × Nat))
  | set (items : List Nat)
  deriving Repr

/-- Whether it can be a key: a collection cannot. -/
def Made.isKey : Made → Bool
  | .leaf _ => true
  | .nan => true
  | _ => false

/-- The nodes, as merging has left them, what they have come to, and the
collections that have been begun, in order. -/
structure Making where
  nodes : Array Node
  made : Array (Option Made)
  begun : Array Nat := #[]

/-- Making values of nodes. -/
abbrev Make := StateT Making (Except Failure)

namespace Make

/-- The node of a number. -/
def nodeAt (n : Nat) : Make Node := do pure ((← get).nodes.getD n .empty)

/-- The entries of a mapping. -/
def entriesOf (n : Nat) : Make (List (Nat × Nat)) := do
  match (← nodeAt n).content with
  | .mapping entries => pure entries
  | _ => throw .malformed

/-- The items of a sequence. -/
def itemsOf (n : Nat) : Make (List Nat) := do
  match (← nodeAt n).content with
  | .sequence items => pure items
  | _ => throw .malformed

/-- Change a node. -/
def change (n : Nat) (f : Node → Node) : Make Unit :=
  modify fun s => { s with nodes := s.nodes.modify n f }

/-- Note what a node has come to. -/
def become (n : Nat) (m : Made) : Make Unit :=
  modify fun s => { s with made := s.made.set! n (some m) }

/-- What a node has come to. -/
def madeAt (n : Nat) : Make (Option Made) := do pure ((← get).made.getD n none)

-- ============================================================= scalars

/-- The text of a node: that of a scalar, or of the value that a mapping
stands for. A mapping that stands for itself has none; as many levels as
there are nodes find that out. -/
def textOf : Nat → Nat → Make (List Char)
  | 0, _ => throw .tooDeep
  | levels + 1, n => do
      match (← nodeAt n).content with
      | .scalar text => pure text
      | .sequence _ => throw .malformed
      | .mapping entries =>
          let s ← get
          let own := entries.find? fun e => (s.nodes.getD e.1 .empty).kind = .own
          match own with
          | some (_, value) => textOf levels value
          | none => throw .malformed

/-- The truth value of a text. -/
def truthValue (text : List Char) : Except Failure Value :=
  let word := text.map Char.toLower
  match Kind.truthWords.find? fun w => w.1.toList = word with
  | some (_, b) => .ok (.bool b)
  | none => .error (.tag .noWord)

/-- The bytes of a text. -/
def bytesValue (text : List Char) : Except Failure Value :=
  if text.all fun c => c.toNat < 128 then
    match Text.Base64.decode text with
    | some bytes => .ok (.bytes bytes)
    | none => .error .malformed
  else .error .malformed

/-- The time of a text. -/
def timeValue (text : List Char) : Except Failure Value :=
  match TimeParts.ofText? text with
  | none => .error (.tag .noParts)
  | some parts =>
      parts.build.map fun
        | .inl date => .date date
        | .inr time => .dateTime time

/-- The value of a text of a given kind. -/
def textValue (kind : Kind) (text : List Char) : Except Failure Value :=
  match kind with
  | .null => .ok .null
  | .bool => truthValue text
  | .int => (Number.wholeNumber text).map .int
  | .float => (Number.float text).map .float
  | .bytes => bytesValue text
  | .time => timeValue text
  | .text => .ok (.str (String.ofList text))
  | _ => .error .malformed

/-- What a node comes to as a text. -/
def scalarMade (n : Nat) : Make Made := do
  let text ← textOf ((← get).nodes.size + 1) n
  let node ← nodeAt n
  match node.kind, node.content with
  | .time, .mapping _ => throw (.tag .noText)
  | kind, _ =>
      match ← textValue kind text with
      | .float .nan => pure (if Number.namesNan text then .leaf (.float .nan) else .nan)
      | v => pure (.leaf v)

-- ========================================================= collections

/-- What a collection of a kind is before it is filled; values of the other
kinds are no collections. -/
def unfilled? : Kind → Option Made
  | .list => some (.list [])
  | .orderedMap => some (.pairs [])
  | .pairs => some (.pairs [])
  | .mapping => some (.map [])
  | .set => some (.set [])
  | _ => none

/-- Have a node come to something, unless it has. -/
def make (n : Nat) : Make Unit := do
  if (← madeAt n).isNone then
    match unfilled? (← nodeAt n).kind with
    | some m =>
        become n m
        modify fun s => { s with begun := s.begun.push n }
    | none => become n (← scalarMade n)

-- ============================================================== merging

/-- What a node adds to a mapping that it is merged into: its entries once
others are merged into it, or those of the mappings it lists, of which the
first counts most and so comes last. -/
def addedBy (merge : Nat → Make Unit) (n : Nat) : Make (List (Nat × Nat)) := do
  let added (n : Nat) : Make (List (Nat × Nat)) := do
    discard (entriesOf n)
    merge n
    entriesOf n
  match (← nodeAt n).content with
  | .sequence items => pure (← items.mapM added).reverse.flatten
  | _ => added n

/-- Take the merges out of a mapping, of whose entries some have been passed
over, last first: the outcome is what they add. The key of a value that a
mapping stands for is a text in a mapping that does not. A mapping that is
merged into itself has no merges left by then. -/
def takeMerges (merge : Nat → Make Unit) (n : Nat) (passed : List (Nat × Nat)) :
    List (Nat × Nat) → Make (List (Nat × Nat))
  | [] => pure []
  | (key, value) :: rest => do
      match (← nodeAt key).kind with
      | .merge =>
          let left := passed.reverse ++ rest
          change n fun node => { node with content := .mapping left }
          let added ← addedBy merge value
          if (← entriesOf n) = left then
            pure (added ++ (← takeMerges merge n passed rest))
          else pure added
      | .own =>
          change key fun node => { node with kind := .text }
          takeMerges merge n ((key, value) :: passed) rest
      | _ => takeMerges merge n ((key, value) :: passed) rest

/-- Merge into a mapping what its entries ask for. Every merge takes an
entry away, so as many levels as there are entries suffice. -/
def mergeInto : Nat → Nat → Make Unit
  | 0, _ => throw .malformed
  | levels + 1, n => do
      let added ← takeMerges (mergeInto levels) n [] (← entriesOf n)
      if !added.isEmpty then
        let own ← entriesOf n
        change n fun node => { node with content := .mapping (added ++ own) }

-- ============================================================== filling

/-- Whether the keys that two nodes have come to are the same. -/
def isSameKey (n m : Nat) : Make Bool := do
  match ← madeAt n, ← madeAt m with
  | some (.leaf v), some (.leaf w) => pure (v.sameKey w)
  | _, _ => pure (n = m)

/-- Entries with one more: a key that is known keeps its place and its own
form. -/
def withEntry (key value : Nat) : List (Nat × Nat) → Make (List (Nat × Nat))
  | [] => pure [(key, value)]
  | (k, v) :: rest => do
      if ← isSameKey k key then pure ((k, value) :: rest)
      else pure ((k, v) :: (← withEntry key value rest))

/-- Make the keys and values of a mapping, whose keys are no collections:
the outcome is its entries. -/
def makeEntries (read : List (Nat × Nat)) :
    List (Nat × Nat) → Make (List (Nat × Nat))
  | [] => pure read
  | (key, value) :: rest => do
      make key
      if !(← madeAt key).any Made.isKey then throw .malformed
      make value
      makeEntries (← withEntry key value read) rest

/-- The entries of a mapping after merging, with their keys and values
made. -/
def filledEntries (levels n : Nat) : Make (List (Nat × Nat)) := do
  discard (entriesOf n)
  mergeInto levels n
  makeEntries [] (← entriesOf n)

/-- Make the key and the value of a mapping of one entry. -/
def makePair (n : Nat) : Make (Nat × Nat) := do
  match ← entriesOf n with
  | [(key, value)] =>
      make key
      make value
      pure (key, value)
  | _ => throw .malformed

/-- Fill a collection. -/
def fill (levels n : Nat) : Make Unit := do
  match (← nodeAt n).kind with
  | .list =>
      let items ← itemsOf n
      items.forM make
      become n (.list items)
  | .mapping => become n (.map (← filledEntries levels n))
  | .set => become n (.set ((← filledEntries levels n).map (·.1)))
  | _ => become n (.pairs (← (← itemsOf n).mapM makePair))

/-- Fill the collections that have been begun from the given one on, and
those that are begun on the way. -/
def fillFrom (levels : Nat) : Nat → Nat → Make Unit
  | 0, _ => pure ()
  | steps + 1, i => do
      match (← get).begun[i]? with
      | some n =>
          fill levels n
          fillFrom levels steps (i + 1)
      | none => pure ()

/-- Have a node and all its parts come to something. Every node is begun
once. -/
def makeAll (root : Nat) : Make Unit := do
  let s ← get
  let entryCount (node : Node) : Nat := match node.content with
    | .mapping entries => entries.length
    | _ => 0
  make root
  fillFrom (s.nodes.foldl (fun n node => n + entryCount node) 1) s.nodes.size 0

end Make

-- =============================================================== values

namespace Made

/-- The values of two nodes, if both have one. -/
def both (part : Nat → Option Value) (e : Nat × Nat) : Option (Value × Value) := do
  pure (← part e.1, ← part e.2)

/-- The value of what a node has come to, from those of its parts. -/
def value? (part : Nat → Option Value) : Made → Option Value
  | leaf v => some v
  | nan => some (.float .nan)
  | list items => (items.mapM part).map .list
  | pairs entries =>
      (entries.mapM (both part)).map fun es => .list (es.map fun e => .pair e.1 e.2)
  | map entries => (entries.mapM (both part)).map .map
  | set items => (items.mapM part).map .set

/-- The values of nodes, with those of nodes whose parts all have one; the
nodes are taken in the given order. -/
def settleOnce (made : Array (Option Made)) (order : List Nat)
    (values : Array (Option Value)) : Array (Option Value) :=
  order.foldl (fun values n =>
    match values.getD n none, made.getD n none with
    | none, some m => values.set! n (m.value? fun k => values.getD k none)
    | _, _ => values) values

/-- The values of nodes that do not hold themselves: what has a value only
after later ones is found on a further pass. -/
def settle (made : Array (Option Made)) (order : List Nat) :
    Nat → Array (Option Value) → Array (Option Value)
  | 0, values => values
  | passes + 1, values =>
      let next := settleOnce made order values
      let count (vs : Array (Option Value)) : Nat := vs.countP Option.isSome
      if count next = count values then values else settle made order passes next

/-- The value that a node has come to. What holds itself is a place in
cells, one for each collection that has no value of its own. -/
def valueOf (made : Array (Option Made)) (order : List Nat) (root : Nat) : Value :=
  let values := settle made order made.size (Array.replicate made.size none)
  let cells := order.filter fun n =>
    (values.getD n none).isNone && (made.getD n none).isSome
  let part (n : Nat) : Option Value :=
    some ((values.getD n none).getD (.link (cells.idxOf n)))
  match values.getD root none with
  | some v => v
  | none =>
      .recurring (cells.filterMap fun n => (made.getD n none).bind (value? part))
        (cells.idxOf root)

end Made

/-- The value of a node. -/
def Graph.valueOf (g : Graph) (root : Nat) : Except Failure Value := do
  let start : Making := { nodes := g.nodes, made := Array.replicate g.nodes.size none }
  let (_, s) ← (Make.makeAll root).run start
  pure (Made.valueOf s.made g.ended.toList root)

end Verdict.Yaml
