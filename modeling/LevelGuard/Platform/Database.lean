import LevelGuard.Markup.Event
import LevelGuard.Platform.Catalog

/-!
# The database of platform versions

The database is a markup file with a `class` element for each class. Inside it
stand its supertypes and members, with signatures in the notation of class files
and the level that introduced them where it is not that of the class. Members that
were removed are left out.

A class is complete at its end tag, or at once if it closes itself; one that is
followed by the start of another class instead is lost.
-/
namespace LevelGuard.Platform

/-- A name of class files with dots in place of its separators. -/
def dottedName (s : String) : String := Text.replaceAll (fun c => c = '/' || c = '$') '.' s

/-- The number of parameter types in a descriptor, possibly inside the name of a
class. -/
def paramCount : (inClass : Bool) → List Char → Nat
  | _, [] => 0
  | true, c :: cs => paramCount (c ≠ ';') cs
  | false, c :: cs =>
    if c = '[' then paramCount false cs
    else if c = 'L' then paramCount true cs + 1
    else paramCount false cs + 1

def resultClass? (s : List Char) : Option String := do
  let name ← Text.stripEnd? [';'] (← Text.stripStart? ['L'] s)
  return dottedName (String.ofList name)

/-- The number of parameters and the result class of a descriptor after its opening
parenthesis. -/
def descriptor (s : List Char) : Nat × Option String :=
  match Text.cutFirst? (· = ')') s with
  | some (params, result) => (paramCount false params, resultClass? result)
  | none => (paramCount false s, none)

namespace ApiClass

def addElement (c : ApiClass) (tag : Markup.Tag) (name : String) (since : Option Level) : ApiClass :=
  match tag.name with
  | "extends" => { c with superClass := some (dottedName name) }
  | "implements" =>
    if c.interfaces.contains (dottedName name) then c else c.addInterface (dottedName name)
  | "method" =>
    match Text.cutFirst? (· = '(') name.toList with
    | some (method, rest) =>
      let (arity, returns) := descriptor rest
      c.addMethod (String.ofList method) ⟨arity, since.getD c.since, returns⟩
    | none => c
  | "field" => c.addField name { since := since.getD c.since }
  | _ => c

end ApiClass

namespace Database

/-- The complete classes, last first, and the one that is being read. -/
structure Draft where
  classes : List ApiClass := []
  current : Option ApiClass := none

def Draft.complete (d : Draft) : Draft := ⟨d.current.toList ++ d.classes, none⟩

def Draft.element (d : Draft) (tag : Markup.Tag) : Draft :=
  let since := (tag.value? "since").bind Level.ofText?
  let name := tag.value? "name"
  if tag.name = "class" then
    { d with current := name.map fun n => { name := dottedName n, since := since.getD 1 } }
  else
    match d.current, name, tag.value? "removed" with
    | some c, some n, none => { d with current := some (c.addElement tag n since) }
    | _, _, _ => d

def Draft.apply (d : Draft) (e : Markup.Event) : Draft :=
  match e with
  | .start tag => d.element tag
  | .empty tag => if tag.name = "class" then (d.element tag).complete else d.element tag
  | .close name => if name = "class" then d.complete else d
  | .text _ | .other => d

def ofEvents (events : List Markup.Event) : List ApiClass :=
  (events.foldl Draft.apply {}).classes.reverse

def read (text : String) : Except LoadError (List ApiClass) :=
  let r := Markup.read text.toList
  if r.faulty then .error (.malformed "api-versions.xml") else .ok (ofEvents (r.events.map (·.event)))

end Database
end LevelGuard.Platform
