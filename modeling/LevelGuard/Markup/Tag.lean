import LevelGuard.Text.Basic

/-!
# Entities and tags

An ampersand starts an entity that ends at the next semicolon: one of five names,
or a code point in decimal or hexadecimal digits. A text with any other ampersand
cannot be unescaped.

A tag has a name and, after it, attributes in quotes. One without a value, with a
value that is not in quotes, or with a name that was there before is left out, and
reading goes on: after the name, if no value follows, and else at the next blank,
which may be one inside the quotes of a repeated attribute. A quote that is never
closed ends the list.
-/
namespace LevelGuard.Markup

/-- The character of a code point in digits of the base, at most `width` of them;
there is none for zero. -/
def codePointOf? (base width : Nat) (digits : List Char) : Option Char :=
  if width < digits.length then none
  else
    match Text.numeral? base digits with
    | none => none
    | some n => if n = 0 then none else if h : n.isValidChar then some (.ofNatAux n h) else none

def entityChar? (entity : List Char) : Option Char :=
  match entity with
  | '#' :: 'x' :: digits => codePointOf? 16 6 digits
  | '#' :: digits => codePointOf? 10 7 digits
  | _ =>
    match String.ofList entity with
    | "lt" => some '<'
    | "gt" => some '>'
    | "amp" => some '&'
    | "apos" => some '\''
    | "quot" => some '"'
    | _ => none

/-- The text with `pending` characters of an entity read so far, if it is inside one. -/
def unescapeFrom : (pending : Option (List Char)) → List Char → Option (List Char)
  | none, [] => some []
  | some _, [] => none
  | none, c :: cs =>
    if c = '&' then unescapeFrom (some []) cs else (unescapeFrom none cs).map (c :: ·)
  | some entity, c :: cs =>
    if c = ';' then
      (entityChar? entity.reverse).bind fun d => (unescapeFrom none cs).map (d :: ·)
    else if c = '&' then none
    else unescapeFrom (some (c :: entity)) cs

def unescape? (cs : List Char) : Option (List Char) := unescapeFrom none cs

def isBlank (c : Char) : Bool := c = ' ' || c = '\t' || c = '\n' || c = '\r'

structure Attribute where
  name : String
  /-- The value as written. -/
  raw : String
  deriving DecidableEq, Repr

/-- The value without entities; one that cannot be unescaped is taken as written. -/
def Attribute.value (a : Attribute) : String :=
  ((unescape? a.raw.toList).map String.ofList).getD a.raw

def attributesFrom : (bound : Nat) → (seen : List (List Char)) → List Char → List Attribute
  | 0, _, _ => []
  | bound + 1, seen, cs =>
    match cs.dropWhile isBlank with
    | [] => []
    | c :: cs =>
      let endsKey (d : Char) : Bool := d = '=' || isBlank d
      let key := c :: cs.takeWhile fun d => !endsKey d
      match (cs.dropWhile fun d => !endsKey d).dropWhile isBlank with
      | '=' :: cs =>
        if seen.contains key then attributesFrom bound seen (cs.dropWhile fun d => !isBlank d)
        else
          match cs.dropWhile isBlank with
          | [] => []
          | q :: cs =>
            if q = '"' || q = '\'' then
              match Text.cutFirst? (· = q) cs with
              | none => []
              | some (value, rest) =>
                ⟨String.ofList key, String.ofList value⟩
                  :: attributesFrom bound (key :: seen) rest
            else attributesFrom bound (key :: seen) (cs.dropWhile fun d => !isBlank d)
      | rest => attributesFrom bound seen rest

structure Tag where
  name : String
  rest : List Char
  deriving DecidableEq, Repr

namespace Tag

def ofContent (cs : List Char) : Tag :=
  ⟨String.ofList (cs.takeWhile fun c => !isBlank c), cs.dropWhile fun c => !isBlank c⟩

def attributes (t : Tag) : List Attribute := attributesFrom t.rest.length [] t.rest

def value? (t : Tag) (name : String) : Option String :=
  (t.attributes.find? fun a => a.name = name).map Attribute.value

/-- The value as written of the first attribute with this name, whatever its prefix. -/
def localRaw? (t : Tag) (name : String) : Option String :=
  (t.attributes.find? fun a => a.name = name || Text.lastSegment ':' a.name = name).map (·.raw)

end Tag
end LevelGuard.Markup
