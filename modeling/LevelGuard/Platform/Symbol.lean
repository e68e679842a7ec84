import LevelGuard.Data.Table
import LevelGuard.Permission.Requirement
import LevelGuard.Text.Basic

/-!
# Releases and symbols

Each release of the platform has a symbolic name, a constant of `Build.VERSION_CODES`. The
releases are numbered from one without a gap, and a development build has a level of its own
above all of them.

A symbol is an owner type, a member name and a kind: the key under which the catalog keeps
what a use demands of its caller. Constructors have the member name `<init>` and a class as
such has the empty one.
-/
namespace LevelGuard.Platform

/-- The symbolic names of levels 1, 2 and so on. -/
def releases : List String :=
  ["BASE", "BASE_1_1", "CUPCAKE", "DONUT", "ECLAIR", "ECLAIR_0_1", "ECLAIR_MR1", "FROYO",
    "GINGERBREAD", "GINGERBREAD_MR1", "HONEYCOMB", "HONEYCOMB_MR1", "HONEYCOMB_MR2",
    "ICE_CREAM_SANDWICH", "ICE_CREAM_SANDWICH_MR1", "JELLY_BEAN", "JELLY_BEAN_MR1",
    "JELLY_BEAN_MR2", "KITKAT", "KITKAT_WATCH", "LOLLIPOP", "LOLLIPOP_MR1", "M", "N", "N_MR1",
    "O", "O_MR1", "P", "Q", "R", "S", "S_V2", "TIRAMISU", "UPSIDE_DOWN_CAKE",
    "VANILLA_ICE_CREAM", "BAKLAVA"]

def developmentLevel : Level := 10000

def codenameLevel? (name : String) : Option Level :=
  if name = "CUR_DEVELOPMENT" then some developmentLevel
  else (releases.findIdx? (· = name)).map (· + 1)

end LevelGuard.Platform

namespace LevelGuard

inductive SymbolKind where
  | method
  | field
  | type
  | enumCase
  | constructor
  deriving DecidableEq, Repr, Inhabited

/-- The word at the start of a message about the level of a symbol. -/
def SymbolKind.noun : SymbolKind → String
  | method | constructor => "Call"
  | field => "Field"
  | type => "Class"
  | enumCase => "Enum value"

def SymbolKind.name : SymbolKind → String
  | method => "method"
  | field => "field"
  | type => "class"
  | enumCase => "enum_case"
  | constructor => "constructor"

def SymbolKind.ofName? (s : String) : Option SymbolKind :=
  [method, field, type, enumCase, constructor].find? fun k => k.name = s

def constructorName : String := "<init>"

structure Symbol where
  owner : String
  member : String
  kind : SymbolKind
  deriving DecidableEq, Repr, Inhabited

namespace Symbol

def method (owner name : String) : Symbol := ⟨owner, name, .method⟩

def field (owner name : String) : Symbol := ⟨owner, name, .field⟩

def type (owner : String) : Symbol := ⟨owner, "", .type⟩

def constructor (owner : String) : Symbol := ⟨owner, constructorName, .constructor⟩

def shortName (s : Symbol) : String :=
  let owner := Text.lastSegment '.' s.owner
  match s.kind with
  | .type | .constructor => owner
  | _ => owner ++ "." ++ s.member

def text (s : Symbol) : String :=
  match s.kind with
  | .type => s.owner
  | .constructor => "new " ++ s.owner
  | _ => s.owner ++ "#" ++ s.member

end Symbol

inductive Demand where
  /-- The symbol exists from this level on. -/
  | version (level : Level)
  | permission (requirement : Permission.Requirement)
  deriving DecidableEq, Repr

end LevelGuard
