import LevelGuard.Text.Basic

/-!
# Paths

A path is kept as it was written, since answers show it that way, and is read as
a list of components: empty segments and inner single dots are dropped, a leading
dot is kept. Paths are compared by components, not by characters, so `a/b` comes
before `a.b` and `a//b` equals `a/b`.
-/
namespace LevelGuard

/-- A slash-separated path as written. -/
structure Path where
  text : String
  deriving DecidableEq, Repr, Inhabited

namespace Path

inductive Component where
  | root
  | current
  | parent
  | normal (name : String)
  deriving DecidableEq, Repr

namespace Component

def rank : Component → Nat
  | root => 0
  | current => 1
  | parent => 2
  | normal _ => 3

def name : Component → String
  | normal name => name
  | _ => ""

/-- Order of components: kinds in the order listed, names by their characters. -/
def compare (a b : Component) : Ordering :=
  (Ord.compare a.rank b.rank).then (Ord.compare a.name b.name)

end Component

def innerComponents (segments : List String) : List Component :=
  segments.filterMap fun
    | "" => none
    | "." => none
    | ".." => some .parent
    | name => some (.normal name)

def components (p : Path) : List Component :=
  match Text.splitAll '/' p.text with
  | [] => []
  | "" :: rest => if p.text.isEmpty then [] else .root :: innerComponents rest
  | "." :: rest => .current :: innerComponents rest
  | segments => innerComponents segments

/-- Lexicographic order of lists by the order of their members. -/
def compareLists : List Component → List Component → Ordering
  | [], [] => .eq
  | [], _ :: _ => .lt
  | _ :: _, [] => .gt
  | a :: as, b :: bs => (a.compare b).then (compareLists as bs)

def compare (p q : Path) : Ordering := compareLists p.components q.components

def same (p q : Path) : Bool := p.components = q.components

def isAbsolute (p : Path) : Bool := p.text.toList.head? = some '/'

def join (p q : Path) : Path :=
  if q.isAbsolute || p.text.isEmpty then q
  else if p.text.toList.getLast? = some '/' then ⟨p.text ++ q.text⟩
  else ⟨p.text ++ "/" ++ q.text⟩

def fileName? (p : Path) : Option String :=
  match p.components.getLast? with
  | some (.normal name) => some name
  | _ => none

/-- What follows the last dot of the file name, unless that dot comes first. -/
def extension? (p : Path) : Option String :=
  p.fileName?.bind fun name =>
    match Text.cutLast? (· == '.') name.toList with
    | some (_ :: _, ext) => some (String.ofList ext)
    | _ => none

/-- Drop closing slashes and single dots from a reversed path. -/
def dropClosing : List Char → List Char
  | [] => []
  | ['/'] => ['/']
  | '/' :: cs => dropClosing cs
  | '.' :: '/' :: cs => dropClosing ('/' :: cs)
  | cs => cs

def parent? (p : Path) : Option Path :=
  match p.components.getLast? with
  | none => none
  | some .root => none
  | some _ =>
    let reversed := dropClosing p.text.toList.reverse
    let rest := reversed.dropWhile (· ≠ '/')
    some ⟨String.ofList (dropClosing rest).reverse⟩

def endsWith (p : Path) (tail : String) : Bool :=
  (Path.mk tail).components.isSuffixOf p.components

def ancestorsUpTo : (bound : Nat) → Path → List Path
  | 0, p => [p]
  | bound + 1, p =>
    match p.parent? with
    | none => [p]
    | some q => p :: ancestorsUpTo bound q

/-- The path itself, then its parents from the nearest outwards. -/
def ancestors (p : Path) : List Path := ancestorsUpTo (p.components.length + 1) p

end Path
end LevelGuard
