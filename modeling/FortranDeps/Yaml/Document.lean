import FortranDeps.Yaml.Token

/-!
From tokens to a document. Open collections are kept on a stack, and every token is read
once. A token that cannot start a node leaves the node that was due empty; it may also
end a sequence that has no end token of its own, and leave out a value.
-/

namespace FortranDeps.Yaml

inductive Node where
  | scalar (tag : Option String) (style : Style) (text : String)
  | sequence (items : List Node)
  | mapping (entries : List (Node × Node))
  /-- The node with the given anchor number. -/
  | reference (anchor : Nat)
  deriving Repr

namespace Node

/-- The node that stands where nothing is written. -/
def absent : Node := scalar none .plain ""

end Node

structure Document where
  /-- The node of the document; none if the text is empty. -/
  root : Option Node
  /-- The nodes with anchors by their numbers. -/
  anchored : List (Nat × Node)
  deriving Repr

/-- The collections that are still open. -/
inductive Frame where
  | blockSequence (items : List Node)
  /-- A sequence in a mapping whose entries stand below its key. It has no end token. -/
  | indentlessSequence (items : List Node)
  | blockMapping (entries : List (Node × Node)) (key : Option Node)
  /-- A flow sequence, possibly with a pair of which the key may have been read. -/
  | flowSequence (items : List Node) (pair : Option (Option Node))
  /-- A flow mapping. The next node is a bare key if it has no value. -/
  | flowMapping (entries : List (Node × Node)) (key : Option Node) (bare : Bool)
  deriving Repr

namespace Frame

/-- Adds a finished node. -/
def add (node : Node) : Frame → Frame
  | blockSequence items => blockSequence (items ++ [node])
  | indentlessSequence items => indentlessSequence (items ++ [node])
  | blockMapping entries none => blockMapping entries (some node)
  | blockMapping entries (some key) => blockMapping (entries ++ [(key, node)]) none
  | flowSequence items none => flowSequence (items ++ [node]) none
  | flowSequence items (some none) => flowSequence items (some (some node))
  | flowSequence items (some (some key)) => flowSequence (items ++ [.mapping [(key, node)]]) none
  | flowMapping entries none true => flowMapping (entries ++ [(node, .absent)]) none false
  | flowMapping entries none false => flowMapping entries (some node) false
  | flowMapping entries (some key) _ => flowMapping (entries ++ [(key, node)]) none false

/-- The node that a frame becomes when it is closed. -/
def node : Frame → Node
  | blockSequence items | indentlessSequence items | flowSequence items _ => .sequence items
  | blockMapping entries _ | flowMapping entries _ _ => .mapping entries

/-- Whether a value may come next. -/
def awaitsValue : Frame → Bool
  | blockMapping _ (some _) | flowSequence _ (some (some _)) | flowMapping _ (some _) _ => true
  | _ => false

end Frame

/-- The places at which a node is due. -/
inductive Slot where
  | bareDocument
  | markedDocument
  | blockItem
  | indentlessItem
  | blockPart
  | flowItem
  | pairKey
  | pairValue
  | flowMember
  | flowKey
  | flowValue
  deriving DecidableEq, Repr

namespace Slot

def allowsBlock : Slot → Bool
  | bareDocument | markedDocument | blockItem | indentlessItem | blockPart => true
  | _ => false

/-- Whether a token says that the node is left out. -/
def endsBefore : Slot → Token → Bool
  | markedDocument, .versionDirective .. | markedDocument, .tagDirective ..
  | markedDocument, .documentStart | markedDocument, .documentEnd
  | markedDocument, .streamEnd => true
  | blockItem, .blockEntry | blockItem, .blockEnd => true
  | indentlessItem, .blockEntry | indentlessItem, .key | indentlessItem, .value
  | indentlessItem, .blockEnd => true
  | blockPart, .key | blockPart, .value | blockPart, .blockEnd => true
  | pairValue, .flowEntry | pairValue, .flowSequenceEnd => true
  | flowKey, .value | flowKey, .flowEntry | flowKey, .flowMappingEnd => true
  | flowValue, .flowEntry | flowValue, .flowMappingEnd => true
  | _, _ => false

end Slot

/-- What stands before a node. -/
structure Properties where
  anchor : Option Nat := none
  tag : Option String := none
  deriving DecidableEq, Repr

def Properties.none : Properties := {}

structure Builder where
  /-- The open collections with their anchors, the innermost first. -/
  frames : List (Option Nat × Frame) := []
  /-- The node that is due; otherwise a mark of the innermost collection is. -/
  due : Option (Slot × Properties)
  root : Option Node := none
  names : List (String × Nat) := []
  anchored : List (Nat × Node) := []
  /-- What the tag handles are short for. -/
  handles : List (String × String)
  deriving Repr

namespace Builder

def await (builder : Builder) (slot : Slot) : Builder := { builder with due := some (slot, .none) }

/-- Puts a finished node into the innermost collection. -/
def complete (builder : Builder) (anchor : Option Nat) (node : Node) : Builder :=
  let builder := { builder with
    due := none
    anchored := anchor.toList.map (·, node) ++ builder.anchored }
  match builder.frames with
  | [] => { builder with root := some node }
  | (outer, frame) :: frames => { builder with frames := (outer, frame.add node) :: frames }

/-- Closes the innermost collection. -/
def close (builder : Builder) : Builder :=
  match builder.frames with
  | [] => builder
  | (anchor, frame) :: frames => { builder with frames }.complete anchor frame.node

def openFrame (builder : Builder) (properties : Properties) (frame : Frame) : Builder :=
  { builder with frames := (properties.anchor, frame) :: builder.frames, due := none }

/-- The tag of a scalar. A mark alone is none. -/
def scalarTag (properties : Properties) : Option String := properties.tag.filter (· ≠ "!")

def completeScalar (builder : Builder) (properties : Properties) (style : Style) (text : String) :
    Builder :=
  builder.complete properties.anchor (.scalar (scalarTag properties) style text)

/-- Whether a token starts the node that is due, or adds to what stands before it. -/
def startsNode (slot : Slot) (properties : Properties) : Token → Bool
  | .alias _ => properties == .none
  | .anchor _ => properties.anchor.isNone
  | .tag .. => properties.tag.isNone
  | .scalar .. | .flowSequenceStart | .flowMappingStart => true
  | .blockSequenceStart | .blockMappingStart => slot.allowsBlock
  | .blockEntry => slot == .blockPart
  | _ => false

/-- The whole tag for a handle and a suffix. -/
def resolveTag (builder : Builder) (handle suffix : String) : Except Fault String :=
  if handle = "" then .ok suffix
  else match builder.handles.lookup handle with
    | some start => .ok (start ++ suffix)
    | none => .error (.unknownTagHandle handle)

/-- Reads a token that starts the node that is due. -/
def startNode (builder : Builder) (slot : Slot) (properties : Properties) :
    Token → Except Fault Builder
  | .alias name =>
      match builder.names.lookup name with
      | some anchor => .ok (builder.complete none (.reference anchor))
      | none => .error (.unknownAlias name)
  | .anchor name =>
      let anchor := builder.names.length
      .ok { builder with
        names := (name, anchor) :: builder.names
        due := some (slot, { properties with anchor := some anchor }) }
  | .tag handle suffix => do
      let tag ← builder.resolveTag handle suffix
      return { builder with due := some (slot, { properties with tag := some tag }) }
  | .scalar style text => .ok (builder.completeScalar properties style text)
  | .flowSequenceStart =>
      .ok ((builder.openFrame properties (.flowSequence [] none)).await .flowItem)
  | .flowMappingStart =>
      .ok ((builder.openFrame properties (.flowMapping [] none true)).await .flowMember)
  | .blockSequenceStart => .ok (builder.openFrame properties (.blockSequence []))
  | .blockMappingStart => .ok (builder.openFrame properties (.blockMapping [] none))
  | .blockEntry =>
      .ok ((builder.openFrame properties (.indentlessSequence [])).await .indentlessItem)
  | _ => .error .unexpectedToken

/-- Leaves the node that is due empty if the token says so. -/
def settleDue (builder : Builder) (token : Token) : Builder :=
  match builder.due with
  | some (slot, properties) =>
      if !startsNode slot properties token &&
          (properties != .none || slot.endsBefore token) then
        builder.completeScalar properties .plain ""
      else builder
  | none => builder

/-- Closes a sequence without an end token before any token that is no entry of it. -/
def settleIndentless (builder : Builder) (token : Token) : Builder :=
  match builder.due, builder.frames with
  | none, (_, .indentlessSequence _) :: _ => if token = .blockEntry then builder else builder.close
  | _, _ => builder

/-- Leaves out a value that does not come. -/
def settleValue (builder : Builder) (token : Token) : Builder :=
  match builder.due, builder.frames with
  | none, (_, frame) :: _ =>
      if frame.awaitsValue && token != .value then builder.complete none .absent else builder
  | _, _ => builder

def settle (builder : Builder) (token : Token) : Builder :=
  ((builder.settleDue token).settleIndentless token).settleValue token

/-- Replaces the innermost collection. -/
def replaceFrame (builder : Builder) (frame : Frame) : Builder :=
  match builder.frames with
  | [] => builder
  | (anchor, _) :: frames => { builder with frames := (anchor, frame) :: frames }

/-- Reads a mark of the innermost collection, or what follows the document. -/
def readMark (builder : Builder) (token : Token) : Except Fault Builder :=
  match builder.frames.head?.map Prod.snd, token with
  | none, .documentEnd | none, .streamEnd => .ok builder
  | none, _ => .error .severalDocuments
  | some (.blockSequence _), .blockEntry => .ok (builder.await .blockItem)
  | some (.blockSequence _), .blockEnd => .ok builder.close
  | some (.indentlessSequence _), .blockEntry => .ok (builder.await .indentlessItem)
  | some (.blockMapping _ none), .key => .ok (builder.await .blockPart)
  | some (.blockMapping _ none), .blockEnd => .ok builder.close
  | some (.blockMapping _ (some _)), .value => .ok (builder.await .blockPart)
  | some (.flowSequence _ none), .flowEntry => .ok (builder.await .flowItem)
  | some (.flowSequence _ none), .flowSequenceEnd => .ok builder.close
  | some (.flowSequence _ (some (some _))), .value => .ok (builder.await .pairValue)
  | some (.flowMapping entries none _), .flowEntry =>
      .ok ((builder.replaceFrame (.flowMapping entries none true)).await .flowMember)
  | some (.flowMapping _ none _), .flowMappingEnd => .ok builder.close
  | some (.flowMapping _ (some _) _), .value => .ok (builder.await .flowValue)
  | _, _ => .error .unexpectedToken

/-- Reads a token where a node is due. At the start of an entry a flow collection can
also end, or a key can be announced. -/
def readDue (builder : Builder) (slot : Slot) (properties : Properties) (token : Token) :
    Except Fault Builder :=
  match slot, properties == .none, builder.frames.head?.map Prod.snd, token with
  | .flowItem, true, _, .flowSequenceEnd
  | .flowMember, true, _, .flowMappingEnd => .ok builder.close
  | .flowItem, true, some (.flowSequence items _), .key =>
      .ok ((builder.replaceFrame (.flowSequence items (some none))).await .pairKey)
  | .flowMember, true, some (.flowMapping entries _ _), .key =>
      .ok ((builder.replaceFrame (.flowMapping entries none false)).await .flowKey)
  | .pairKey, true, _, .value | .pairKey, true, _, .flowEntry
  | .pairKey, true, _, .flowSequenceEnd => .ok (builder.complete none .absent)
  | _, _, _, _ =>
      if startsNode slot properties token then builder.startNode slot properties token
      else .error .unexpectedToken

def step (builder : Builder) (token : Token) : Except Fault Builder :=
  let builder := builder.settle token
  match builder.due with
  | some (slot, properties) => builder.readDue slot properties token
  | none => builder.readMark token

end Builder

/-- The tag handles that are known without a directive. -/
def standardHandles : List (String × String) := [("!", "!"), ("!!", "tag:yaml.org,2002:")]

/-- Reads the directives of a document: at most one version, and tag handles that differ. -/
def readDirectives : List Token → Except Fault (List (String × String))
  | [] => .ok []
  | .versionDirective major minor :: rest => do
      unless major = 1 && (minor = 1 || minor = 2) do throw .badDirective
      if rest.any (· matches .versionDirective ..) then throw .badDirective
      readDirectives rest
  | .tagDirective handle start :: rest => do
      let handles ← readDirectives rest
      if (handles.lookup handle).isSome then throw .badDirective
      return (handle, start) :: handles
  | _ :: rest => readDirectives rest

def isDirective : Token → Bool
  | .versionDirective .. | .tagDirective .. => true
  | _ => false

/-- The document of a token list. -/
def Document.ofTokens (tokens : List Token) : Except Fault Document := do
  let directives := tokens.takeWhile isDirective
  let handles := (← readDirectives directives) ++ standardHandles
  let build (slot : Slot) (content : List Token) : Except Fault Document := do
    let builder ← content.foldlM Builder.step { due := some (slot, .none), handles }
    match builder.root with
    | some root => return ⟨some root, builder.anchored⟩
    | none => throw .unexpectedToken
  match tokens.dropWhile isDirective with
  | .documentStart :: content => build .markedDocument content
  | content =>
      if !directives.isEmpty then throw .badDirective
      else if content = [.streamEnd] then return ⟨none, []⟩
      else build .bareDocument content

end FortranDeps.Yaml
