import LevelGuard.Data.Table

/-!
# The type hierarchy

Types of the platform and of the project share one graph whose links lead from a
type to its supertypes. A link joins two known, different types and is recorded
once, in the order of declaration.

The ancestors of a type are listed nearest first: the superclass chain, then the
interfaces of the type and of each superclass, breadth first. Both walks recurse
on the list of types not seen so far, so they end on every graph, cyclic ones
included, and list no type twice.
-/
namespace LevelGuard

inductive Origin where
  | platform
  | source
  deriving DecidableEq, Repr, Inhabited

def Origin.name : Origin → String
  | platform => "Platform"
  | source => "Source"

inductive LinkKind where
  | extend
  | implement
  deriving DecidableEq, Repr, Inhabited

structure Link where
  sub : String
  super : String
  kind : LinkKind
  deriving DecidableEq, Repr

structure Hierarchy where
  types : Table String Origin := .empty
  links : List Link := []
  deriving Inhabited

namespace Hierarchy

def empty : Hierarchy := {}

def contains (H : Hierarchy) (name : String) : Bool := H.types.contains name

def origin? (H : Hierarchy) (name : String) : Option Origin := H.types.get? name

def count (H : Hierarchy) : Nat := H.types.size

def index? (H : Hierarchy) (name : String) : Option Nat := H.types.keys.findIdx? (· = name)

def add (H : Hierarchy) (name : String) (origin : Origin) : Hierarchy :=
  if H.contains name then H else { H with types := H.types.insert name origin }

/-- Record a supertype; unknown types, loops and repetitions are ignored. -/
def link (H : Hierarchy) (sub super : String) (kind : LinkKind) : Hierarchy :=
  if H.contains sub && H.contains super && sub != super
      && !H.links.any (fun l => l.sub = sub && l.super = super) then
    { H with links := H.links ++ [⟨sub, super, kind⟩] }
  else H

def supertypes (H : Hierarchy) (name : String) (kind : LinkKind) : List String :=
  (H.links.filter fun l => l.sub = name && l.kind = kind).map Link.super

def superClass? (H : Hierarchy) (name : String) : Option String :=
  (H.supertypes name .extend).head?

/-- The superclasses from `name` upwards, until one is no longer among `unseen`. -/
def chain (H : Hierarchy) (unseen : List String) (name : String) : List String :=
  match H.superClass? name with
  | none => []
  | some s => if s ∈ unseen then s :: H.chain (unseen.erase s) s else []
termination_by unseen.length
decreasing_by
  rename_i h
  have := List.length_pos_of_mem h
  rw [List.length_erase_of_mem h]
  omega

theorem length_supertypes_le (H : Hierarchy) (name : String) :
    (H.supertypes name .implement).length + (H.supertypes name .extend).length ≤ H.links.length := by
  unfold supertypes
  induction H.links with
  | nil => simp
  | cons l links ih =>
    simp only [List.length_map] at ih ⊢
    by_cases hname : l.sub = name <;> cases hkind : l.kind <;> simp [hname, hkind] <;> omega

/-- The unseen types of the queue and their supertypes, breadth first. -/
def walk (H : Hierarchy) (unseen : List String) : (queue : List String) → List String
  | [] => []
  | t :: queue =>
    if t ∈ unseen then
      t :: H.walk (unseen.erase t) (queue ++ H.supertypes t .implement ++ H.supertypes t .extend)
    else H.walk unseen queue
termination_by queue => unseen.length * (H.links.length + 1) + queue.length
decreasing_by
  · rename_i h
    -- The queue grows by no more than there are links, and one type fewer is unseen.
    have hlinks := H.length_supertypes_le t
    have hunseen : unseen.length = (unseen.erase t).length + 1 := by
      have := List.length_pos_of_mem h
      rw [List.length_erase_of_mem h]
      omega
    rw [hunseen, Nat.succ_mul]
    simp only [List.length_append, List.length_cons]
    omega
  · simp

/-- All proper supertypes of a known type: the superclass chain, then interfaces. -/
def ancestors (H : Hierarchy) (name : String) : List String :=
  if H.contains name then
    let unseen := H.types.keys.erase name
    let classes := H.chain unseen name
    let rest := unseen.filter (· ∉ classes)
    classes ++ H.walk rest ((name :: classes).flatMap (H.supertypes · .implement))
  else []

/-- Whether the types are the same or the second is an ancestor of the first. -/
def isSubtype (H : Hierarchy) (name ancestor : String) : Bool :=
  name = ancestor || (H.ancestors name).contains ancestor

end Hierarchy
end LevelGuard
