import LevelGuard.Files.Path
import LevelGuard.Markup.Event
import LevelGuard.Text.Basic

/-!
# Resource files

The folder of a resource file tells its type and may limit it to devices from a level on:
`layout-land-v17` holds layouts for level 17 and above.

A document lists its elements in the order of their start tags, each with the
place of its tag, the places of its attributes, the text directly inside it and the
element around it, which always comes earlier in the list.

The place of an attribute is looked for in the text of its tag: the first
occurrence of its name after a blank and before an equals sign. Texts are cut at
byte offsets, so a cut that falls inside a character is a fault of its own.
-/
namespace LevelGuard.Resource

structure Folder where
  type : String
  version : Option Level
  deriving DecidableEq, Repr

namespace Folder

def qualifierLevel? (s : String) : Option Level := (Text.afterStart? "v" s).bind Level.ofText?

def ofName (name : String) : Folder :=
  match Text.splitAll '-' name with
  | [] => ⟨"", none⟩
  | type :: qualifiers => ⟨type, qualifiers.findSome? qualifierLevel?⟩

def ofPath? (p : Path) : Option Folder := (p.parent?.bind Path.fileName?).map ofName

def isResourcePath (p : Path) : Bool :=
  (p.parent?.bind Path.parent?).bind Path.fileName? = some "res"

end Folder

structure Attribute where
  name : String
  value : String
  /-- From the name to the closing quote. -/
  span : Span
  deriving DecidableEq, Repr

def Attribute.platformName? (a : Attribute) : Option String := Text.afterStart? "android:" a.name

structure Element where
  tag : String
  attributes : List Attribute
  /-- The position of the element around it. -/
  parent : Option Nat
  text : Option (String × Span) := none
  /-- The opening bracket and the name. -/
  span : Span
  deriving DecidableEq, Repr

namespace Element

def attribute? (e : Element) (name : String) : Option Attribute :=
  e.attributes.find? fun a => a.name = name

def isRoot (e : Element) : Bool := e.parent.isNone

end Element

structure Document where
  elements : List Element := []
  deriving DecidableEq, Repr

def Document.root? (d : Document) : Option Element := d.elements.head?

inductive Fault where
  /-- The file is not well formed, or a text has an unknown entity. -/
  | malformed
  /-- A cut falls inside a character. -/
  | splitCharacter
  deriving DecidableEq, Repr

inductive Found where
  | range (start stop : Nat)
  | absent
  | split
  deriving DecidableEq, Repr

def findText? (part : List Char) : (offset : Nat) → List Char → Option Nat
  | offset, [] => if part.isEmpty then some offset else none
  | offset, c :: cs =>
    if (Text.stripStart? part (c :: cs)).isSome then some offset
    else findText? part (offset + c.utf8Size) cs

/-- The range of an attribute whose name starts at `start` and is followed, at byte
`offset`, by `rest`; nothing if no equals sign follows. -/
def rangeAt? (start offset : Nat) (rest : List Char) : Option Found :=
  let trimmed := Text.trimStart rest
  match trimmed with
  | '=' :: after =>
    match Text.trimStart after with
    | [] => some .absent
    | quote :: value =>
      let valueStart := offset + (Text.byteLength rest - Text.byteLength (quote :: value))
      if 1 < quote.utf8Size then some .split
      else
        match findText? [quote] 0 value with
        | some close => some (.range start (valueStart + close + 2))
        | none => some .absent
  | _ => none

/-- The range of the first attribute with this name; `skip` characters belong to an
occurrence that was none. -/
def rangeFrom (name : List Char) :
    (skip : Nat) → (previous : Option Char) → (offset : Nat) → List Char → Found
  | _, _, _, [] => .absent
  | skip + 1, _, offset, c :: cs => rangeFrom name skip (some c) (offset + c.utf8Size) cs
  | 0, previous, offset, c :: cs =>
    match Text.stripStart? name (c :: cs) with
    | none => rangeFrom name 0 (some c) (offset + c.utf8Size) cs
    | some rest =>
      match (if previous.any Text.isBlank then
          rangeAt? offset (offset + Text.byteLength name) rest else none) with
      | some found => found
      | none => rangeFrom name (name.length - 1) (some c) (offset + c.utf8Size) cs

def attributeRange (raw : List Char) (name : String) : Found := rangeFrom name.toList 0 none 0 raw

def locate (lines : Text.LineIndex) (raw : List Char) (start : Nat) (a : Markup.Attribute) :
    Except Fault Attribute :=
  match attributeRange raw a.name with
  | .range first last => .ok ⟨a.name, a.value, lines.span (start + first) (start + last)⟩
  | .absent => .ok ⟨a.name, a.value, lines.span start (start + Text.byteLength raw)⟩
  | .split => .error .splitCharacter

def cut (text : List Char) (start stop : Nat) : Except Fault (List Char) :=
  match Text.slice? start stop text with
  | some cs => .ok cs
  | none => .error .splitCharacter

/-- The elements so far, and the open ones, innermost first. -/
structure Draft where
  elements : List Element := []
  stack : List Nat := []

namespace Draft

/-- Add the element of a tag that was read between two places. -/
def open_ (d : Draft) (text : List Char) (lines : Text.LineIndex) (tag : Markup.Tag)
    (before after : Nat) : Except Fault Draft := do
  let piece ← cut text before after
  let start := (findText? ['<'] before piece).getD before
  let raw ← cut text start after
  let attributes ← tag.attributes.mapM (locate lines raw start)
  let element : Element :=
    { tag := tag.name
      attributes
      parent := d.stack.head?
      span := lines.span start (start + 1 + tag.name.utf8ByteSize) }
  return ⟨d.elements ++ [element], d.elements.length :: d.stack⟩

def setText (d : Draft) (text : List Char) (lines : Text.LineIndex) (raw : List Char)
    (before after : Nat) : Except Fault Draft := do
  match Markup.unescape? raw with
  | none => throw .malformed
  | some content =>
    let content := Text.trim content
    match d.stack, content with
    | [], _ | _, [] => return d
    | owner :: _, _ =>
      let piece ← cut text before after
      let start := (findText? content before piece).getD before
      let span := lines.span start (start + Text.byteLength content)
      return { d with
        elements := d.elements.modify owner fun e =>
          { e with text := some (String.ofList content, span) } }

def apply (text : List Char) (lines : Text.LineIndex) (d : Draft) (e : Markup.Located) :
    Except Fault Draft :=
  match e.event with
  | .start tag => d.open_ text lines tag e.before e.after
  | .empty tag => do
    return { (← d.open_ text lines tag e.before e.after) with stack := d.stack }
  | .close _ => .ok { d with stack := d.stack.tail }
  | .text raw => d.setText text lines raw e.before e.after
  | .other => .ok d

end Draft

namespace Document

def ofEvents (text : List Char) (events : List Markup.Located) : Except Fault Document := do
  let d ← events.foldlM (Draft.apply text (.ofText text)) {}
  return ⟨d.elements⟩

def read (text : String) : Except Fault Document := do
  let cs := text.toList
  let r := Markup.read cs
  let d ← ofEvents cs r.events
  if r.faulty then throw .malformed else return d

end Document
end LevelGuard.Resource
