import LevelGuard.Data.Table
import LevelGuard.Platform.Symbol

/-!
# Platform classes

A platform class records the level that introduced it, its supertypes and the
members it declares itself. Methods of one name are overloads told apart by their
number of parameters only.
-/
namespace LevelGuard.Platform

structure ApiMethod where
  arity : Nat
  since : Level
  /-- Dotted name of the result type, if that is a class. -/
  returns : Option String := none
  deriving DecidableEq, Repr, Inhabited

structure ApiField where
  since : Level
  /-- Whether compilers copy the value into callers, if known. -/
  constant : Option Bool := none
  type : Option String := none
  deriving DecidableEq, Repr, Inhabited

structure ApiClass where
  name : String
  since : Level
  superClass : Option String := none
  interfaces : List String := []
  methods : Table String (List ApiMethod) := .empty
  fields : Table String ApiField := .empty
  deriving Repr, Inhabited

namespace ApiClass

def addMethod (c : ApiClass) (name : String) (m : ApiMethod) : ApiClass :=
  { c with methods := c.methods.insert name ((c.methods.get? name).getD [] ++ [m]) }

def addField (c : ApiClass) (name : String) (f : ApiField) : ApiClass :=
  { c with fields := c.fields.insert name f }

def addInterface (c : ApiClass) (name : String) : ApiClass :=
  { c with interfaces := c.interfaces ++ [name] }

/-- The first of the methods with the least level. -/
def earliest : List ApiMethod → Option ApiMethod
  | [] => none
  | m :: ms =>
    match earliest ms with
    | some n => if n.since < m.since then some n else some m
    | none => some m

/-- The overloads a call with this number of arguments may mean: those with that
many parameters, or all of them if there is none. -/
def candidates (overloads : List ApiMethod) (arity : Option Nat) : List ApiMethod :=
  match arity with
  | none => overloads
  | some n =>
    let fitting := overloads.filter (·.arity = n)
    if fitting.isEmpty then overloads else fitting

/-- The overload a call means: of the candidates the one that came first. -/
def findMethod? (c : ApiClass) (name : String) (arity : Option Nat) : Option ApiMethod :=
  (c.methods.get? name).bind fun overloads => earliest (candidates overloads arity)

def isEnum (c : ApiClass) : Bool := c.superClass = some "java.lang.Enum"

end ApiClass
end LevelGuard.Platform
