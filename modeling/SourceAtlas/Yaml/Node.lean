import SourceAtlas.Yaml.ScalarType

/-!
# Nodes and what they stand for

A node is built from its parts together with its value. A node may have no value; then it carries
the reason. Of several reasons in a document the one that lies least deep counts, and of equally
deep ones the first.
-/

namespace SourceAtlas.Yaml

/-- What a node stands for. -/
structure Meaning where
  value : Value
  /-- Why the node has no value, and how deep below it the reason lies. -/
  fault : Option (Nat × Fault) := none

/-- A node with its type and its meaning. Merged entries are in place. -/
inductive Node
  | scalar (type : NodeType) (text : List Char) (meaning : Meaning)
  | sequence (type : NodeType) (items : List Node) (meaning : Meaning)
  | mapping (type : NodeType) (entries : List (Node × Node)) (meaning : Meaning)
  /-- A collection inside itself. -/
  | enclosing

namespace Meaning

def broken (depth : Nat) (fault : Fault) : Meaning := ⟨.null, some (depth, fault)⟩

def misshapen (depth : Nat) (cause : Malformed) : Meaning := broken depth (.malformed cause)

/-- Of two reasons the one that lies less deep, or else the first. -/
def firstFault (a b : Option (Nat × Fault)) : Option (Nat × Fault) :=
  match a, b with
  | none, b => b
  | a, none => a
  | some a, some b => if b.1 < a.1 then some b else some a

/-- The reason in a part, seen from the whole. -/
def partFault (meaning : Meaning) : Option (Nat × Fault) :=
  meaning.fault.map fun (depth, fault) => (depth + 1, fault)

def firstFaultOf (faults : List (Option (Nat × Fault))) : Option (Nat × Fault) :=
  faults.foldl firstFault none

end Meaning

namespace Node

def meaning : Node → Meaning
  | scalar _ _ meaning => meaning
  | sequence _ _ meaning => meaning
  | mapping _ _ meaning => meaning
  | enclosing => ⟨.enclosing, none⟩

def type : Node → NodeType
  | scalar type _ _ => type
  | sequence type _ _ => type
  | mapping type _ _ => type
  | enclosing => .other ""

/-- What a node stands for as a key: a key of a default value is its text. -/
def keyMeaning : Node → Meaning
  | scalar .default text _ => ⟨.text (String.ofList text), none⟩
  | node => node.meaning

def ofScalar (type : NodeType) (text : List Char) : Node :=
  let meaning : Meaning := match readScalar type text with
    | .ok value => ⟨value, none⟩
    | .error fault =>
        match type with
        | .orderedMapping | .pairs | .set | .sequence | .mapping => .broken 1 fault
        | _ => .broken 0 fault
  .scalar type text meaning

/-- The reason why an entry has no value, seen from its mapping. -/
def entryFault (entry : Node × Node) : Option (Nat × Fault) :=
  let key := entry.1.keyMeaning
  let shapeFault := if key.value.isKey then none else some (1, .malformed .collectionKey)
  Meaning.firstFaultOf [key.partFault, shapeFault, entry.2.meaning.partFault]

def entryValue (entry : Node × Node) : Value × Value :=
  (entry.1.keyMeaning.value, entry.2.meaning.value)

def ownEntries : Node → Option (List (Node × Node))
  | mapping _ entries _ => some entries
  | enclosing => some []
  | _ => none

/-- The entries that a mapping takes over from a node; of a list the last mapping comes first. -/
def mergedEntries : Node → Option (List (Node × Node))
  | mapping _ entries _ => some entries
  | sequence _ items _ => (items.mapM ownEntries).map fun parts => parts.reverse.flatten
  | enclosing => some []
  | scalar _ _ _ => none

def isMerge (node : Node) : Bool := node.type == .merge

/-- The entries of a mapping with merged ones in front. -/
def mergeEntries (entries : List (Node × Node)) : Option (List (Node × Node)) :=
  ((entries.filter fun entry => entry.1.isMerge).mapM fun entry => mergedEntries entry.2).map
    fun merged => merged.flatten ++ entries.filter fun entry => !entry.1.isMerge

/-- The text of the value of a default key, for scalar types of mappings. -/
def defaultText? (entries : List (Node × Node)) : Option Node :=
  (entries.find? fun entry => entry.1.type == .default).map (·.2)

/-- What an entry of an ordered mapping stands for: a mapping of one entry. -/
def orderedEntry (node : Node) : Meaning :=
  match node with
  | mapping _ [entry] _ =>
      ⟨.entry entry.1.meaning.value entry.2.meaning.value,
        Meaning.firstFault entry.1.meaning.fault entry.2.meaning.fault⟩
  | _ => .misshapen 0 .wrongShape

def listMeaning (items : List Meaning) : Meaning :=
  ⟨.list (items.map (·.value)), Meaning.firstFaultOf (items.map Meaning.partFault)⟩

def ofSequence (type : NodeType) (items : List Node) : Node :=
  let meaning : Meaning := match type with
    | .sequence => listMeaning (items.map Node.meaning)
    | .orderedMapping | .pairs => listMeaning (items.map orderedEntry)
    | .mapping | .set => .misshapen 1 .wrongShape
    | .merge | .default | .other _ => .misshapen 0 .unknownType
    | _ => .misshapen 0 .wrongShape
  .sequence type items meaning

/-- The meaning of a scalar type on a mapping: that of the value of its default key. -/
def defaultMeaning (type : NodeType) (entries : List (Node × Node)) : Meaning :=
  match defaultText? entries with
  | some (scalar _ text _) =>
      if type = .timestamp then .broken 0 (.badScalar .noText) else (ofScalar type text).meaning
  | some enclosing => .broken 0 .tooDeep
  | _ => .misshapen 0 .wrongShape

def ofMapping (type : NodeType) (entries : List (Node × Node)) : Node :=
  let merged := mergeEntries entries
  let all := merged.getD []
  let faults := Meaning.firstFaultOf (all.map entryFault)
  let meaning : Meaning :=
    match type with
    | .mapping =>
        if merged.isNone then .misshapen 1 .badMerge else ⟨.mapping (all.map entryValue), faults⟩
    | .set =>
        if merged.isNone then .misshapen 1 .badMerge
        else ⟨.set (all.map fun entry => (entryValue entry).1), faults⟩
    | .sequence | .orderedMapping | .pairs => .misshapen 1 .wrongShape
    | .merge | .default | .other _ => .misshapen 0 .unknownType
    | _ => defaultMeaning type entries
  .mapping type (if merged.isNone then entries else all) meaning

end Node

end SourceAtlas.Yaml
