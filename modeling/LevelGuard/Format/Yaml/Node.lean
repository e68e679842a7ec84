import LevelGuard.Format.Yaml.Token

/-!
# Nodes of YAML

The tokens of a document make up one node: a scalar, a list, a map, or an alias of a
node with an anchor. Anchors are numbered by how many names are known when they are
met, so one that uses a name again shares its number with the next new name.
-/
namespace LevelGuard.Format.Yaml

inductive Node where
  | scalar (s : Scalar)
  | list (items : List Node)
  | map (entries : List (Node × Node))
  | alias (number : Nat)
  | anchored (number : Nat) (node : Node)
  deriving Repr

namespace Node

def empty : Node := .scalar { text := "" }

def standardHandles : List (String × String) := [("!", "!"), ("!!", Scalar.standardTag "")]

structure Progress where
  tokens : List Token
  anchors : List (String × Nat) := []
  handles : List (String × String) := standardHandles

abbrev Build (α : Type) := StateT Progress Option α

namespace Build

def tokens : Build (List Token) := do return (← get).tokens

def drop (n : Nat) : Build Unit := modify fun s => { s with tokens := s.tokens.drop n }

def tryToken (t : Token) : Build Bool := do
  if (← tokens).head? = some t then
    drop 1
    return true
  else return false

def isAhead (ts : List Token) : Build Bool := do return (← tokens).head?.any ts.contains

def numberOf (name : String) : Build Nat := do
  match (← get).anchors.find? fun a => a.1 = name with
  | some (_, n) => return n
  | none => failure

def declare (name : String) : Build Nat := do
  let anchors := (← get).anchors
  let number := anchors.length
  let others := anchors.filter fun a => a.1 ≠ name
  modify fun s => { s with anchors := (name, number) :: others }
  return number

def resolve (t : TagText) : Build String := do
  if t.handle = "" then return t.suffix
  match (← get).handles.find? fun h => h.1 = t.handle with
  | some (_, meaning) => return meaning ++ t.suffix
  | none => failure

def anchor? : Build (Option String) := do
  match ← tokens with
  | .anchor name :: _ =>
    drop 1
    return some name
  | _ => return none

def tag? : Build (Option String) := do
  match ← tokens with
  | .tag t :: _ =>
    drop 1
    return some (← resolve t)
  | _ => return none

/-- The anchor and the tag of a node, in either order. -/
def properties : Build (Option String × Option String) := do
  match ← anchor? with
  | some name => return (some name, ← tag?)
  | none =>
    let tag ← tag?
    let name ← if tag.isSome then anchor? else pure none
    return (name, tag)

end Build

open Build

def blockStops : List Token := [.key, .value, .blockEnd]

mutual

/-- A node. Outside brackets indentation can open a block, and as part of a map a list
of items need not be indented. -/
def read : (bound : Nat) → (inBlock inMap : Bool) → Build Node
  | 0, _, _ => failure
  | bound + 1, inBlock, inMap => do
    match ← tokens with
    | .alias name :: _ =>
      drop 1
      return .alias (← numberOf name)
    | _ =>
      let (name, tag) ← properties
      let number ← name.mapM declare
      let node ←
        match ← tokens with
        | .scalar s :: _ => do
          drop 1
          pure (.scalar { s with tag := if tag = some "!" then none else tag })
        | .bracket '[' :: _ => do
          drop 1
          pure (.list (← flowItems bound true))
        | .bracket '\x7b' :: _ => do
          drop 1
          pure (.map (← flowEntries bound true))
        | t :: _ =>
          if inMap && t = .item then pure (.list (← looseItems bound))
          else if inBlock && t = .listStart then do
            drop 1
            pure (.list (← blockItems bound))
          else if inBlock && t = .mapStart then do
            drop 1
            pure (.map (← blockEntries bound))
          else if name.isSome || tag.isSome then pure (.scalar { text := "", tag })
          else failure
        | [] => if name.isSome || tag.isSome then pure (.scalar { text := "", tag }) else failure
      return number.elim node fun n => .anchored n node

/-- A node, or an empty one before the given tokens. -/
def readUnless : (bound : Nat) → (stops : List Token) → (inBlock inMap : Bool) → Build Node
  | 0, _, _, _ => failure
  | bound + 1, stops, inBlock, inMap => do
    if ← Build.isAhead stops then return empty else read bound inBlock inMap

def readValue : (bound : Nat) → (stops : List Token) → (inBlock : Bool) → Build Node
  | 0, _, _ => failure
  | bound + 1, stops, inBlock => do
    if ← tryToken .value then readUnless bound stops inBlock inBlock else return empty

def blockItems : (bound : Nat) → Build (List Node)
  | 0 => failure
  | bound + 1 => do
    if ← tryToken .blockEnd then return []
    unless ← tryToken .item do failure
    let item ← readUnless bound [.item, .blockEnd] true false
    return item :: (← blockItems bound)

/-- The items of a list that is indented like the map around it. -/
def looseItems : (bound : Nat) → Build (List Node)
  | 0 => failure
  | bound + 1 => do
    unless ← tryToken .item do return []
    let item ← readUnless bound (.item :: blockStops) true false
    return item :: (← looseItems bound)

def blockEntries : (bound : Nat) → Build (List (Node × Node))
  | 0 => failure
  | bound + 1 => do
    if ← tryToken .blockEnd then return []
    unless ← tryToken .key do failure
    let key ← readUnless bound blockStops true true
    let value ← readValue bound blockStops true
    return (key, value) :: (← blockEntries bound)

def flowItems : (bound : Nat) → (first : Bool) → Build (List Node)
  | 0, _ => failure
  | bound + 1, first => do
    if ← tryToken (.bracket ']') then return []
    unless first || (← tryToken .comma) do failure
    if ← tryToken (.bracket ']') then return []
    let item ← if ← tryToken .key then flowPair bound else read bound false false
    return item :: (← flowItems bound false)

/-- An item that is a map of one entry, after the mark of its key. An empty key takes
the token after the mark with it. -/
def flowPair : (bound : Nat) → Build Node
  | 0 => failure
  | bound + 1 => do
    let bare ← Build.isAhead [.value, .comma, .bracket ']']
    let key ← if bare then do
        drop 1
        pure empty
      else read bound false false
    return .map [(key, ← readValue bound [.comma, .bracket ']'] false)]

def flowEntries : (bound : Nat) → (first : Bool) → Build (List (Node × Node))
  | 0, _ => failure
  | bound + 1, first => do
    if ← tryToken (.bracket '\x7d') then return []
    unless first || (← tryToken .comma) do failure
    if ← tryToken (.bracket '\x7d') then return []
    let stops : List Token := [.comma, .bracket '\x7d']
    let entry ←
      if ← tryToken .key then do
        let key ← readUnless bound (.value :: stops) false false
        pure (key, ← readValue bound stops false)
      else pure (← read bound false false, empty)
    return entry :: (← flowEntries bound false)

end

/-- The directives before a document: at most one version, which is 1.1 or 1.2, and each
handle once. -/
def directives : (versioned : Bool) → (handles : List (String × String)) → List Token →
    Option (List (String × String) × List Token)
  | versioned, handles, .directive (.version major minor) :: rest =>
    if !versioned && major = 1 && (minor = 1 || minor = 2) then directives true handles rest
    else none
  | versioned, handles, .directive (.handle handle meaning) :: rest =>
    if handles.any fun h => h.1 = handle then none
    else directives versioned (handles ++ [(handle, meaning)]) rest
  | _, handles, rest => some (handles ++ standardHandles, rest)

def isFrame : Token → Bool
  | .directive _ | .documentStart | .documentEnd => true
  | _ => false

/-- The one document of a text; without tokens it is empty. -/
def document : Build Node := do
  let ts ← tokens
  let bound := 3 * ts.length + 3
  let node ←
    match ts with
    | [] => pure empty
    | .directive _ :: _ | .documentStart :: _ => do
      let (handles, rest) ← (directives false [] ts : Option _)
      set { tokens := rest, handles : Progress }
      unless ← tryToken .documentStart do failure
      if (← tokens).head?.all isFrame then pure empty else read bound true false
    | _ => read bound true false
  if (← tokens).all (· = .documentEnd) then return node else failure

def ofTokens? (tokens : List Token) : Option Node := (document.run { tokens }).map Prod.fst

end Node
end LevelGuard.Format.Yaml
