import LevelGuard.Data.SortedSet
import LevelGuard.Text.Basic

/-!
# The baseline of a module

A module declares the least level it installs on and the level it is written for,
which is never below the least one, and it may name the level it is compiled
against. It holds the permissions its manifest asks for; among the permissions it
declares itself some can be revoked by the user.
-/
namespace LevelGuard

structure Baseline where
  min : Level := 1
  target : Level := min
  compile : Option Level := none
  permissions : NameSet := .empty
  /-- Permissions of the module itself that the user can revoke. -/
  revocable : NameSet := .empty
  min_le_target : min ≤ target := by omega

namespace Baseline

/-- A baseline for a range of levels; a target below the minimum is the minimum. -/
def ofRange (min target : Level) : Baseline where
  min := min
  target := max target min
  min_le_target := Nat.le_max_right ..

instance : Inhabited Baseline := ⟨ofRange 1 1⟩

/-- The range of levels replaced where one is given. -/
def override (B : Baseline) (min target : Option Level) : Baseline :=
  let least := min.getD B.min
  { B with
    min := least
    target := max (target.getD B.target) least
    min_le_target := Nat.le_max_right .. }

def compiledAgainst (B : Baseline) (level : Option Level) : Baseline :=
  { B with compile := level.or B.compile }

def holds (B : Baseline) (permission : String) : Bool := B.permissions.contains permission

end Baseline
end LevelGuard
