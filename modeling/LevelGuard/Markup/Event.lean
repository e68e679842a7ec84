import LevelGuard.Markup.Tag
import LevelGuard.Text.Position

/-!
# Markup events

A text is read into a list of events: tags, texts, and everything else of which
only the place is kept. Reading is lenient where the end of the text cuts a tag
off, and strict where names of end tags do not match and where a comment or another
declaration is not closed: such a fault ends the list.

Each event has the two places between which it was read. Places count bytes; a byte
order mark at the start does not count, behind a text that ends the input the place
is one byte short, and a tag that is cut off counts for its opening bracket alone.
-/
namespace LevelGuard.Markup

inductive Event where
  | start (tag : Tag)
  | empty (tag : Tag)
  | close (name : String)
  /-- A text with entities as written, without blanks around it. -/
  | text (raw : List Char)
  /-- A comment, a declaration or an instruction. -/
  | other
  deriving DecidableEq, Repr

structure Located where
  event : Event
  before : Nat
  after : Nat
  deriving DecidableEq, Repr

/-- The events of a text, and whether a fault ended them. -/
structure Reading where
  events : List Located
  faulty : Bool
  deriving DecidableEq, Repr

structure State where
  rest : List Char
  offset : Nat := 0
  /-- A text was read up to an opening bracket, which counts as read. -/
  opened : Bool := false
  /-- The names of the elements that are open, innermost first. -/
  names : List (List Char) := []

def State.place (s : State) : Nat := if s.opened then s.offset - 1 else s.offset

inductive Step where
  | done
  | fault
  | event (e : Event) (next : State)

/-- A piece of text, the bytes of it and of the bracket that closes it, if it is
closed, and what follows. -/
structure Piece where
  content : List Char
  bytes : Nat
  rest : List Char

def Piece.ofLength (n : Nat) (cs : List Char) : Piece :=
  let content := cs.take n
  match cs.drop n with
  | [] => ⟨content, Text.byteLength content, []⟩
  | _ :: rest => ⟨content, Text.byteLength content + 1, rest⟩

def Piece.upToBracket (cs : List Char) : Piece := .ofLength (cs.takeWhile (· ≠ '>')).length cs

/-- The number of characters before the first `>` outside quotes. -/
def tagLength : (quote : Option Char) → List Char → Nat
  | _, [] => 0
  | none, c :: cs =>
    if c = '>' then 0
    else tagLength (if c = '"' || c = '\'' then some c else none) cs + 1
  | some q, c :: cs => tagLength (if c = q then none else some q) cs + 1

/-- The length of a comment, from its first hyphen on, up to the bracket that closes
it; it is at least four characters long. The characters so far come last first. -/
def commentLength? : (before : List Char) → (length : Nat) → List Char → Option Nat
  | _, _, [] => none
  | before, n, c :: cs =>
    if c = '>' && 3 < n && before.take 2 = ['-', '-'] then some n
    else commentLength? (c :: before) (n + 1) cs

/-- The length of a section up to a bracket after two square ones. -/
def sectionLength? : (before : List Char) → (length : Nat) → List Char → Option Nat
  | _, _, [] => none
  | before, n, c :: cs =>
    if c = '>' && before.take 2 = [']', ']'] then some n
    else sectionLength? (c :: before) (n + 1) cs

/-- The length of a document type up to the bracket that closes it; brackets inside
come in pairs. -/
def documentTypeLength? : (depth : Nat) → (length : Nat) → List Char → Option Nat
  | _, _, [] => none
  | depth, n, c :: cs =>
    if c = '>' && depth = 0 then some n
    else
      documentTypeLength? (if c = '<' then depth + 1 else if c = '>' then depth - 1 else depth)
        (n + 1) cs

/-- Whether a text starts with another in letters of either case. -/
def startsLike (lead : String) (cs : List Char) : Bool :=
  (cs.take lead.length).map Char.toLower = lead.toList.map Char.toLower

/-- A declaration, from the character after its exclamation mark on. -/
def declaration? (cs : List Char) : Option Piece := do
  let (length?, lead) ←
    match cs with
    | '-' :: _ => some (commentLength? [] 0 cs, "--")
    | '[' :: _ => some (sectionLength? [] 0 cs, "[CDATA[")
    | 'D' :: _ | 'd' :: _ => some (documentTypeLength? 0 0 cs, "DOCTYPE")
    | _ => none
  let piece := Piece.ofLength (← length?) cs
  let named := lead ≠ "DOCTYPE" || (piece.content.drop lead.length).any fun c => !isBlank c
  if startsLike lead piece.content && named then some piece else none

/-- The name of an end tag, without the blanks after it; one of blanks alone is kept. -/
def endName (cs : List Char) : List Char :=
  match cs.reverse.dropWhile isBlank with
  | [] => cs
  | name => name.reverse

/-- Whether an instruction, from its question mark on, is closed. -/
def isInstruction (cs : List Char) : Bool := 2 < cs.length && cs.getLast? = some '?'

namespace State

def advance (s : State) (bytes : Nat) (rest : List Char) : State :=
  { s with rest, opened := false, offset := s.offset + bytes }

def afterBracket (s : State) : Step :=
  match s.rest with
  | [] => .done
  | '!' :: cs =>
    match declaration? cs with
    | some p => .event .other (s.advance (p.bytes + 1) p.rest)
    | none => .fault
  | '/' :: cs =>
    let p := Piece.upToBracket cs
    match s.names with
    | [] => .fault
    | name :: names =>
      if endName p.content = name then
        .event (.close (String.ofList name)) { s.advance (p.bytes + 1) p.rest with names }
      else .fault
  | '?' :: cs =>
    let p := Piece.upToBracket ('?' :: cs)
    if isInstruction p.content then .event .other (s.advance p.bytes p.rest) else .fault
  | cs =>
    let length := tagLength none cs
    let p := Piece.ofLength length cs
    let next := s.advance (if length < cs.length then p.bytes else 0) p.rest
    if p.content.getLast? = some '/' then .event (.empty (.ofContent p.content.dropLast)) next
    else
      let tag := Tag.ofContent p.content
      .event (.start tag) { next with names := tag.name.toList :: s.names }

def step (s : State) : Step :=
  if s.opened then s.afterBracket
  else
    let blanks := (s.rest.takeWhile isBlank).length
    match s.rest.dropWhile isBlank with
    | [] => .done
    | '<' :: cs => (s.advance (blanks + 1) cs).afterBracket
    | cs =>
      let p := Piece.ofLength (cs.takeWhile (· ≠ '<')).length cs
      .event (.text (p.content.reverse.dropWhile isBlank).reverse)
        { s.advance (blanks + p.bytes) p.rest with opened := true }

end State

def eventsFrom : (bound : Nat) → (read : List Located) → State → Reading
  | 0, read, _ => ⟨read.reverse, false⟩
  | bound + 1, read, s =>
    match s.step with
    | .done => ⟨read.reverse, false⟩
    | .fault => ⟨read.reverse, true⟩
    | .event e next => eventsFrom bound (⟨e, s.place, next.place⟩ :: read) next

def read (text : List Char) : Reading :=
  let rest :=
    match text with
    | '\uFEFF' :: cs => cs
    | cs => cs
  eventsFrom (rest.length + 1) [] { rest }

end LevelGuard.Markup
