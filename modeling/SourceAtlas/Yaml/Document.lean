import SourceAtlas.Yaml.Lexer
import SourceAtlas.Yaml.Node

/-!
# YAML documents

The tokens of a text are grouped into nodes, and the single document of the text gives its value.
References stand for the node that carries their anchor.
-/

namespace SourceAtlas.Yaml

/-- The tokens that are left, and what names stand for. -/
structure Grouping where
  tokens : List Token
  /-- Anchored nodes; one that is still open stands for itself. -/
  anchors : List (String × Node) := []
  /-- What handles of types stand for. -/
  handles : List (String × String) := []

/-- Reading from the tokens that are left. -/
abbrev Grouped (α : Type) : Type := StateT Grouping (Except Fault) α

namespace Grouped

def peek : Grouped Token := do return (← get).tokens.headD .streamEnd

def pass : Grouped Unit := modify fun state => { state with tokens := state.tokens.tail }

def fail {α : Type} (cause : Malformed) : Grouped α := throw (.malformed cause)

def expect (token : Token) : Grouped Unit := do
  if (← peek) = token then pass else fail .misplaced

def empty : Node := .ofScalar .null []

/-- A node unless one of the tokens follows, and an empty node then. -/
def unlessNext (ends : List Token) (node : Grouped Node) : Grouped Node := do
  if ends.contains (← peek) then return empty else node

def blockEntries (node : Grouped Node) (ends : List Token) : Nat → Grouped (List Node)
  | 0 => fail .misplaced
  | fuel + 1 => do
      if (← peek) = .blockEntry then
        pass
        let item ← unlessNext (.blockEntry :: ends) node
        let items ← blockEntries node ends fuel
        return item :: items
      else return []

/-- The value of a mapping entry, if its mark follows. -/
def entryValue (node : Grouped Node) (ends : List Token) : Grouped Node := do
  if (← peek) = .value then
    pass
    unlessNext ends node
  else return empty

def blockMapping (node : Grouped Node) : Nat → Grouped (List (Node × Node))
  | 0 => fail .misplaced
  | fuel + 1 => do
      if (← peek) = .key then
        pass
        let ends : List Token := [.key, .value, .blockEnd]
        let key ← unlessNext ends node
        let value ← entryValue node ends
        let entries ← blockMapping node fuel
        return (key, value) :: entries
      else
        expect .blockEnd
        return []

/-- One entry of a flow sequence: a node, or a mapping of one entry. -/
def flowItem (node : Grouped Node) : Grouped Node := do
  if (← peek) = .key then
    pass
    let ends : List Token := [.flowEntry, .flowSequenceEnd]
    let key ← unlessNext (.value :: ends) node
    let value ← entryValue node ends
    return .ofMapping .mapping [(key, value)]
  else node

/-- The entries of a flow sequence up to its end; `first` tells that none has been read. -/
def flowSequence (node : Grouped Node) (first : Bool) : Nat → Grouped (List Node)
  | 0 => fail .misplaced
  | fuel + 1 => do
      if (← peek) = .flowSequenceEnd then
        pass
        return []
      if !first then expect .flowEntry
      if (← peek) = .flowSequenceEnd then
        pass
        return []
      let item ← flowItem node
      let items ← flowSequence node false fuel
      return item :: items

/-- One entry of a flow mapping; a node without mark is a key without value. -/
def flowPair (node : Grouped Node) : Grouped (Node × Node) := do
  if (← peek) = .key then
    pass
    let ends : List Token := [.flowEntry, .flowMappingEnd]
    let key ← unlessNext (.value :: ends) node
    let value ← entryValue node ends
    return (key, value)
  else
    let key ← node
    return (key, empty)

/-- The entries of a flow mapping up to its end; `first` tells that none has been read. -/
def flowMapping (node : Grouped Node) (first : Bool) : Nat → Grouped (List (Node × Node))
  | 0 => fail .misplaced
  | fuel + 1 => do
      if (← peek) = .flowMappingEnd then
        pass
        return []
      if !first then expect .flowEntry
      if (← peek) = .flowMappingEnd then
        pass
        return []
      let pair ← flowPair node
      let pairs ← flowMapping node false fuel
      return pair :: pairs

def typeName (handle : Option String) (rest : String) : Grouped String := do
  match handle with
  | none => return rest
  | some handle =>
      match (← get).handles.lookup handle with
      | some start => return start ++ rest
      | none => fail .undefinedHandle

def anchorHere : Grouped (Option String) := do
  match ← peek with
  | .anchor name =>
      pass
      return some name
  | _ => return none

def typeHere : Grouped (Option String) := do
  match ← peek with
  | .type handle rest =>
      pass
      return some (← typeName handle rest)
  | _ => return none

/-- An anchor and a type in front of a node, in any order. -/
def properties : Grouped (Option String × Option String) := do
  match ← anchorHere with
  | some name => return (some name, ← typeHere)
  | none =>
      let type ← typeHere
      return (← anchorHere, type)

def setAnchor (name : String) (node : Node) : Grouped Unit :=
  modify fun state => { state with anchors := (name, node) :: state.anchors }

/-- Read a node while its anchor stands for the node itself. -/
def anchored (anchor : Option String) (node : Grouped Node) : Grouped Node := do
  match anchor with
  | none => node
  | some name =>
      if ((← get).anchors.lookup name).isSome then fail .duplicateAnchor
      setAnchor name .enclosing
      let node ← node
      setAnchor name node
      return node

def collectionType (name : Option String) (ordinary : NodeType) : NodeType :=
  match name with
  | none => ordinary
  | some "!" => ordinary
  | some name => .ofName name

/-- The type of a scalar: a plain one without type, and one of type `!`, tell their type. -/
def scalarType (name : Option String) (plain : Bool) (text : List Char) : NodeType :=
  match name with
  | none => if plain then plainType text else .text
  | some "!" => plainType text
  | some name => .ofName name

/-- Which nodes may follow. -/
structure Context where
  /-- Block collections may. -/
  block : Bool := false
  /-- A block sequence without indentation of its own may. -/
  indentless : Bool := false

/-- A node in a context; collections may nest as deep as the first argument says. -/
def node : Nat → Context → Grouped Node
  | 0, _ => throw .tooDeep
  | depth + 1, context => do
      match ← peek with
      | .reference name =>
          pass
          match (← get).anchors.lookup name with
          | some node => return node
          | none => fail .undefinedAlias
      | _ =>
          let (anchor, type) ← properties
          anchored anchor do
            let fuel := (← get).tokens.length + 1
            match ← peek with
            | .blockEntry =>
                if context.indentless then
                  let items ← blockEntries (node depth ⟨true, false⟩) [.key, .value, .blockEnd] fuel
                  return .ofSequence (collectionType type .sequence) items
                else if anchor.isSome || type.isSome then
                  return .ofScalar (scalarType type true []) []
                else fail .misplaced
            | .scalar text plain =>
                pass
                return .ofScalar (scalarType type plain text) text
            | .flowSequenceStart =>
                pass
                let items ← flowSequence (node depth ⟨false, false⟩) true fuel
                return .ofSequence (collectionType type .sequence) items
            | .flowMappingStart =>
                pass
                let entries ← flowMapping (node depth ⟨false, false⟩) true fuel
                return .ofMapping (collectionType type .mapping) entries
            | token =>
                if context.block && token == .blockSequenceStart then
                  pass
                  let items ← blockEntries (node depth ⟨true, false⟩) [.blockEnd] fuel
                  expect .blockEnd
                  return .ofSequence (collectionType type .sequence) items
                else if context.block && token == .blockMappingStart then
                  pass
                  let entries ← blockMapping (node depth ⟨true, true⟩) fuel
                  return .ofMapping (collectionType type .mapping) entries
                -- An anchor or a type without a node behind it belongs to an empty scalar.
                else if anchor.isSome || type.isSome then
                  return .ofScalar (scalarType type true []) []
                else fail .misplaced

/-- The handles that every document has. -/
def standardHandles : List (String × String) := [("!", "!"), ("!!", NodeType.nameStart)]

/-- The directives in front of a document: its handles. -/
def directives (seenVersion : Bool) (handles : List (String × String)) :
    Nat → Grouped (List (String × String))
  | 0 => fail .misplaced
  | fuel + 1 => do
      match ← peek with
      | .directive (.version major _) =>
          if seenVersion || major != 1 then fail .misplaced
          pass
          directives true handles fuel
      | .directive (.handle name start) =>
          if (handles.lookup name).isSome then fail .misplaced
          pass
          directives seenVersion ((name, start) :: handles) fuel
      | .directive .other =>
          pass
          directives seenVersion handles fuel
      | _ => return handles

def passEnds : Nat → Grouped Unit
  | 0 => return ()
  | fuel + 1 => do
      if (← peek) = .documentEnd then
        pass
        passEnds fuel

def maxDepth : Nat := 487

/-- The only document of a text, or nothing if the text has none. -/
def document : Grouped (Option Node) := do
  let fuel := (← get).tokens.length + 1
  match ← peek with
  | .streamEnd => return none
  | .directive _ | .documentStart =>
      let handles ← directives false [] fuel
      expect .documentStart
      modify fun state => { state with handles := handles ++ standardHandles }
      match ← peek with
      | .directive _ | .documentStart | .documentEnd | .streamEnd => return some empty
      | _ => return some (← node maxDepth ⟨true, false⟩)
  | _ =>
      modify fun state => { state with handles := standardHandles }
      return some (← node maxDepth ⟨true, false⟩)

/-- The only document of a text, with nothing behind it. -/
def onlyDocument : Grouped (Option Node) := do
  let found ← document
  passEnds ((← get).tokens.length + 1)
  if (← peek) = .streamEnd then return found else fail .furtherDocument

end Grouped

/-- The value of a text: that of its only document, or null if it has none. -/
def load (text : List Char) : Except Fault Value := do
  let tokens ← tokensOf text
  let (found, _) ← Grouped.onlyDocument.run { tokens := tokens }
  match found with
  | none => .ok .null
  | some node =>
      match node.meaning.fault with
      | some (_, fault) => .error fault
      | none => .ok node.meaning.value

instance : Reader := ⟨load⟩

end SourceAtlas.Yaml
