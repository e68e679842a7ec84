import LevelGuard.Text.Basic

/-!
# Values of data files

Settings and permission tables are read from three notations into one kind of
value and then decoded into records. In one of the notations a scalar that is written without
quotes has no kind of its own: it is a text, a flag, a number or nothing, according to what is
asked of it. A tag can say what is meant.

A record is decoded from a map. Keys that are not its fields are ignored, a field
that is missing takes its default, and a field that is there twice is an error.
-/
namespace LevelGuard.Format

inductive ScalarStyle where
  | plain
  /-- The lines of a block as they are. -/
  | literal
  /-- In quotes, or the folded lines of a block. -/
  | quoted
  deriving DecidableEq, Repr

structure Scalar where
  text : String
  style : ScalarStyle := .plain
  tag : Option String := none
  deriving DecidableEq, Repr

namespace Scalar

def standardTag (kind : String) : String := "tag:yaml.org,2002:" ++ kind

def isEmpty (s : Scalar) : Bool := s.style = .plain && s.text = ""

/-- The text, if it may be read as the kind: without quotes, or as literal lines with
the tag of the kind. -/
def as? (kind : String) (s : Scalar) : Option String :=
  if s.style = .plain || (s.style = .literal && s.tag = some (standardTag kind)) then some s.text
  else none

def isNullWord (s : Scalar) : Bool := ["~", "null", "Null", "NULL"].contains s.text

/-- Whether the scalar stands for nothing; one that is tagged so has to use one of the
words for it. -/
def isNothing? (s : Scalar) : Option Bool :=
  if s.style ≠ .plain then some false
  else if s.tag = none then some (s.text = "" || s.isNullWord)
  else if s.tag = some (standardTag "null") then if s.isNullWord then some true else none
  else some false

def tagName? (s : Scalar) : Option String :=
  match s.tag.map String.toList with
  | some ['!'] => some "!"
  | some ('!' :: name) => some (String.ofList name)
  | _ => none

/-- The one of a set of names that a scalar gives, by a tag on nothing or by its text. -/
def name? (s : Scalar) : Option String :=
  match s.tagName? with
  | some name => if s.isEmpty || (s.style = .plain && s.isNullWord) then some name else none
  | none => some s.text

end Scalar

inductive Value where
  | null
  | bool (value : Bool)
  | int (value : Int)
  | text (value : String)
  /-- A scalar whose kind is decided by what it is decoded as. -/
  | scalar (s : Scalar)
  | list (items : List Value)
  | map (entries : List (String × Value))
  /-- A value of a kind that no setting has, such as a fraction or a date. -/
  | other
  deriving Inhabited, Repr

namespace Value

def text? : Value → Option String
  | .text s => some s
  | .scalar s => some s.text
  | _ => none

def flagOf? (s : String) : Option Bool :=
  if ["true", "True", "TRUE"].contains s then some true
  else if ["false", "False", "FALSE"].contains s then some false
  else none

def flag? : Value → Option Bool
  | .bool b => some b
  | .scalar s => (s.as? "bool").bind flagOf?
  | _ => none

def plainDigits (cs : List Char) : Nat × List Char :=
  match cs with
  | '0' :: 'x' :: ds => (16, ds)
  | '0' :: 'o' :: ds => (8, ds)
  | '0' :: 'b' :: ds => (2, ds)
  | ds => (10, ds)

/-- A plain scalar as a whole number; more digits after a zero make it a text. -/
def plainNat? (s : String) : Option Nat :=
  let cs :=
    match s.toList with
    | '+' :: cs => cs
    | cs => cs
  match plainDigits cs with
  | (10, '0' :: _ :: _) => none
  | (base, digits) => Text.numeral? base digits

def level? : Value → Option Level
  | .int (.ofNat n) => if n ≤ Level.greatest then some n else none
  | .scalar s =>
    ((s.as? "int").bind plainNat?).bind fun n => if n ≤ Level.greatest then some n else none
  | _ => none

/-- Whether the value stands for nothing, if it is well formed. -/
def isNothing? : Value → Option Bool
  | .null => some true
  | .scalar s => s.isNothing?
  | _ => some false

def optional? {α : Type} (decode : Value → Option α) (v : Value) : Option (Option α) := do
  if ← v.isNothing? then return none else return some (← decode v)

/-- A list of values; an empty scalar is an empty list. -/
def list? {α : Type} (decode : Value → Option α) : Value → Option (List α)
  | .list items => items.mapM decode
  | .scalar s => if s.isEmpty then some [] else none
  | _ => none

/-- One of a set of names, given as a text or as the only key of a map to a value that
says nothing more. -/
def choice? {α : Type} (saysNothing : Value → Bool) (ofName? : String → Option α) :
    Value → Option α
  | .text s => ofName? s
  | .scalar s => s.name?.bind ofName?
  | .map [(s, v)] => if saysNothing v then ofName? s else none
  | _ => none

end Value

abbrev Fields := List (String × Value)

namespace Fields

def repeats : Fields → Bool
  | [] => false
  | (k, _) :: rest => rest.any (fun e => e.1 = k) || repeats rest

/-- The given fields of a record with these names. A list gives the fields by position,
if the notation allows that for so many values and fields. -/
def of? (byPosition : Nat → Nat → Bool) (names : List String) : Value → Option Fields
  | .map entries =>
    let known := entries.filter fun e => names.contains e.1
    if repeats known then none else some known
  | .scalar s => if s.isEmpty then some [] else none
  | .list items =>
    if byPosition items.length names.length then some (names.zip items) else none
  | _ => none

def get? {α : Type} (fields : Fields) (name : String) (decode : Value → Option α) (default : α) :
    Option α :=
  match fields.find? fun e => e.1 = name with
  | some (_, v) => decode v
  | none => some default

end Fields
end LevelGuard.Format
