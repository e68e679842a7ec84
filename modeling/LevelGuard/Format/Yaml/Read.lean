import LevelGuard.Format.Value
import LevelGuard.Format.Yaml.Node

/-!
# YAML

A text holds at most one document; an empty text holds an empty scalar. Aliases are
replaced by what they stand for, down to a depth that is greater than that of any record
that is decoded, since a node may contain an alias of itself.
-/
namespace LevelGuard.Format.Yaml

namespace Node

mutual

def targets : Node → List (Nat × Node)
  | .scalar _ | .alias _ => []
  | .list items => itemTargets items
  | .map entries => entryTargets entries
  | .anchored number node => (number, node) :: node.targets

def itemTargets : List Node → List (Nat × Node)
  | [] => []
  | n :: rest => n.targets ++ itemTargets rest

def entryTargets : List (Node × Node) → List (Nat × Node)
  | [] => []
  | (k, v) :: rest => k.targets ++ v.targets ++ entryTargets rest

end

mutual

/-- The value of a node, given those that aliases stand for. A map with a key that is no
scalar is no record. -/
def toValue (meaning : Nat → Value) : Node → Value
  | .scalar s => .scalar s
  | .list items => .list (itemValues meaning items)
  | .map entries => ((entryValues? meaning entries).map Value.map).getD .other
  | .alias number => meaning number
  | .anchored _ node => node.toValue meaning

def itemValues (meaning : Nat → Value) : List Node → List Value
  | [] => []
  | n :: rest => n.toValue meaning :: itemValues meaning rest

def entryValues? (meaning : Nat → Value) : List (Node × Node) → Option (List (String × Value))
  | [] => some []
  | (k, v) :: rest =>
    match (k.toValue meaning).text?, entryValues? meaning rest with
    | some key, some entries => some ((key, v.toValue meaning) :: entries)
    | _, _ => none

end

/-- What a number stands for: the last of the nodes with it. -/
def meaningOf (values : List (Nat × Value)) (number : Nat) : Value :=
  ((values.find? fun e => e.1 = number).map Prod.snd).getD .other

/-- The values of nodes with anchors, last first, with aliases replaced to a depth. -/
def meanings (targets : List (Nat × Node)) : (depth : Nat) → List (Nat × Value)
  | 0 => []
  | depth + 1 =>
    let below := meanings targets depth
    targets.map fun (number, node) => (number, node.toValue (meaningOf below))

end Node

/-- A depth below which no record is decoded. -/
def aliasDepth : Nat := 8

def read? (s : String) : Option Value := do
  let cs :=
    match s.toList with
    | '\uFEFF' :: cs => cs
    | cs => cs
  if !cs.all isAllowed then none
  let node ← Node.ofTokens? (← Token.scan? cs)
  return node.toValue (Node.meaningOf (Node.meanings node.targets.reverse aliasDepth))

end LevelGuard.Format.Yaml
