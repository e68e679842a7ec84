import LevelGuard.Project.Scope

/-!
# Names and inheritance

All but the last of the ways in which a simple name gets its meaning look at the names
of types only: which are known, which are at the top level of a package and which are
members of which. The last one goes along the links between types. Here the two are
kept apart, so that a scope can be compared with one over an index that has the same
names and other links.
-/
namespace LevelGuard.Project

/-- By what names a type and its member types are found. -/
def SourceType.names (t : SourceType) : String × Table String String := (t.simple, t.memberTypes)

namespace Scope

/-- The meaning of a simple name without regard to inheritance. -/
def direct? (S : Scope) (name : String) : Option String :=
  S.enclosingType? name
    <|> S.unitType? name
    <|> S.importedType? name
    <|> S.index.packageType? S.unit.package name
    <|> S.onDemandType? name
    <|> S.known? ("java.lang." ++ name)

theorem resolveSimple?_eq (S : Scope) (name : String) :
    S.resolveSimple? name = (S.direct? name).or (S.inheritedType? name) := by
  simp only [resolveSimple?, direct?, Option.orElse_eq_orElse, Option.orElse_eq_or, Option.or_assoc]

/-- The meaning of a name when simple names have the given meaning. -/
def resolveBy (S : Scope) (simple? : String → Option String) (name : String) : Option String :=
  match Text.splitAll '.' name with
  | [] => none
  | [_] => simple? name
  | first :: rest =>
    S.known? name <|> (simple? first).bind fun owner => rest.foldlM S.memberType? owner

theorem resolve?_eq (S : Scope) (name : String) :
    S.resolve? name = S.resolveBy S.resolveSimple? name := rfl

/-- Whether only inheritance gives a simple name its meaning. -/
def inheritsSimple (S : Scope) (name : String) : Bool :=
  (S.direct? name).isNone && (S.inheritedType? name).isSome

/-- Whether only inheritance gives a name, or the first part of it, its meaning. -/
def inherits (S : Scope) (name : String) : Bool :=
  match Text.splitAll '.' name with
  | [] => false
  | [_] => S.inheritsSimple name
  | first :: _ => !S.index.isKnown name && S.inheritsSimple first

theorem direct?_eq (S : Scope) (name : String) :
    S.direct? name = if S.inheritsSimple name then none else S.resolveSimple? name := by
  rw [resolveSimple?_eq, inheritsSimple]
  cases S.direct? name <;> cases S.inheritedType? name <;> rfl

/-- Without inheritance a name means what it means with it, or nothing. -/
theorem resolveBy_direct? (S : Scope) (name : String) :
    S.resolveBy S.direct? name = if S.inherits name then none else S.resolve? name := by
  unfold resolve? resolveBy inherits
  rcases Text.splitAll '.' name with _ | ⟨first, _ | ⟨second, rest⟩⟩
  · rfl
  · exact S.direct?_eq name
  · dsimp only
    rw [direct?_eq, known?]
    by_cases hknown : S.index.isKnown name = true
    · simp [hknown]
    · by_cases hfirst : S.inheritsSimple first = true <;> simp [hknown, hfirst]

end Scope

/-- Two indexes know the same types by the same names. -/
structure Index.SameNames (I J : Index) : Prop where
  known : ∀ name, I.isKnown name = J.isKnown name
  packages : ∀ k, I.packages.get? k = J.packages.get? k
  names : ∀ name, (I.sourceType? name).map (·.names) = (J.sourceType? name).map (·.names)

namespace Index.SameNames

variable {I J : Index} (h : I.SameNames J)
include h

theorem bind_names {β : Type} (name : String) (f : String × Table String String → Option β) :
    ((I.sourceType? name).bind fun t => f t.names) =
      (J.sourceType? name).bind fun t => f t.names := by
  have hI := Option.bind_map (x := I.sourceType? name) (f := SourceType.names) (g := f)
  have hJ := Option.bind_map (x := J.sourceType? name) (f := SourceType.names) (g := f)
  exact hI.symm.trans ((congrArg (·.bind f) (h.names name)).trans hJ)

end Index.SameNames

/-- Two scopes in the same place, over indexes with the same names. -/
structure Scope.SameNames (S T : Scope) : Prop where
  index : S.index.SameNames T.index
  unit : S.unit = T.unit
  enclosing : S.enclosing = T.enclosing

theorem Index.SameNames.inside {I J : Index} (h : I.SameNames J) (u : Java.CompilationUnit)
    (name : String) : (Scope.inside I u name).SameNames (.inside J u name) := by
  have hsome : ∀ n, (I.sourceType? n).isSome = (J.sourceType? n).isSome := fun n => by
    simpa using congrArg Option.isSome (h.names n)
  exact ⟨h, rfl, by simp only [Scope.inside, hsome]⟩

namespace Scope.SameNames

variable {S T : Scope} (h : S.SameNames T)
include h

theorem known? (name : String) : S.known? name = T.known? name := by
  rw [Scope.known?, Scope.known?, h.index.known]

theorem memberType? (owner name : String) : S.memberType? owner name = T.memberType? owner name := by
  unfold Scope.memberType?
  rw [h.known?]
  exact congrArg (Option.or · _) (h.index.bind_names owner fun p => p.2.get? name)

theorem enclosingType? (name : String) : S.enclosingType? name = T.enclosingType? name := by
  unfold Scope.enclosingType?
  rw [h.enclosing]
  refine congrArg (T.enclosing.findSome? ·) (funext fun outer => ?_)
  exact h.index.bind_names outer fun p => if p.1 = name then some outer else p.2.get? name

theorem packageType? (name : String) :
    S.index.packageType? S.unit.package name = T.index.packageType? T.unit.package name := by
  rw [h.unit]
  exact h.index.packages _

theorem onDemandType? (name : String) : S.onDemandType? name = T.onDemandType? name := by
  simp only [Scope.onDemandType?, Scope.typeImports, h.unit, h.known?]

theorem direct? (name : String) : S.direct? name = T.direct? name := by
  rw [Scope.direct?, h.enclosingType?, h.packageType?, h.onDemandType?, h.known?]
  simp only [Scope.direct?, Scope.unitType?, Scope.importedType?, Scope.typeImports, h.unit]

/-- Dotted names have the same meaning where simple names have. -/
theorem resolveBy {simple? simple?' : String → Option String}
    (hsimple : ∀ name, simple? name = simple?' name) (name : String) :
    S.resolveBy simple? name = T.resolveBy simple?' name := by
  have hmember : S.memberType? = T.memberType? :=
    funext fun owner => funext fun name => h.memberType? owner name
  rw [funext hsimple, Scope.resolveBy, Scope.resolveBy, hmember, h.known?]

end Scope.SameNames

end LevelGuard.Project
