import LevelGuard.Check.Unit
import LevelGuard.Proofs.Links
import LevelGuard.Proofs.Naming

/-!
# Settings that agree

A check looks at the catalog and the index only through questions by name: which class
has a name, what a type declares, from which types it inherits. Two settings that answer
these questions alike give the same findings in every file, however their tables came
about.
-/
namespace LevelGuard

open Java

namespace Platform.Catalog

/-- Two catalogs know the same classes by their names and have the same tables. -/
structure Alike (K L : Catalog) : Prop where
  class? : ∀ name, K.class? name = L.class? name
  permissions : K.permissions = L.permissions
  revocable : K.revocable = L.revocable

namespace Alike

variable {K L : Catalog} (h : K.Alike L)
include h

theorem declares (s : Symbol) : K.declares s = L.declares s := by
  simp only [Catalog.declares, h.class?, h.permissions]

theorem demands (s : Symbol) (arity : Option Nat) : K.demands s arity = L.demands s arity := by
  simp only [Catalog.demands, h.class?, h.permissions]

theorem returnType? (owner method : String) (arity : Option Nat) :
    K.returnType? owner method arity = L.returnType? owner method arity := by
  simp only [Catalog.returnType?, h.class?]

theorem isConstantField (owner field : String) :
    K.isConstantField owner field = L.isConstantField owner field := by
  simp only [Catalog.isConstantField, h.class?]

theorem isEnum (owner : String) : K.isEnum owner = L.isEnum owner := by
  simp only [Catalog.isEnum, h.class?]

end Alike

end Platform.Catalog

namespace Project

/-- Two indexes have the same types, links and entries, found by name. -/
structure Index.Alike (I J : Index) : Prop where
  keys : I.hierarchy.types.keys.Perm J.hierarchy.types.keys
  linksFrom : ∀ name, I.hierarchy.linksFrom name = J.hierarchy.linksFrom name
  packages : ∀ k, I.packages.get? k = J.packages.get? k
  sourceType? : ∀ name, I.sourceType? name = J.sourceType? name

namespace Index.Alike

variable {I J : Index} (h : I.Alike J)
include h

theorem isKnown (name : String) : I.isKnown name = J.isKnown name := by
  rw [Bool.eq_iff_iff, Index.isKnown, Index.isKnown, Hierarchy.contains, Hierarchy.contains,
    Table.contains_iff_mem_keys, Table.contains_iff_mem_keys, h.keys.mem_iff]

theorem sameNames : I.SameNames J where
  known := h.isKnown
  packages := h.packages
  names name := by rw [h.sourceType?]

theorem supertypes (name : String) (kind : LinkKind) :
    I.hierarchy.supertypes name kind = J.hierarchy.supertypes name kind := by
  rw [Hierarchy.supertypes_eq, Hierarchy.supertypes_eq, h.linksFrom]

theorem superClass? (name : String) : I.hierarchy.superClass? name = J.hierarchy.superClass? name :=
  Hierarchy.superClass?_congr h.supertypes name

theorem ancestors (name : String) : I.ancestors name = J.ancestors name :=
  Hierarchy.ancestors_congr h.supertypes h.keys name

theorem lineage (name : String) : I.lineage name = J.lineage name :=
  congrArg (name :: ·) (h.ancestors name)

end Index.Alike

/-- Two scopes in the same place, over indexes that are alike. -/
structure Scope.Alike (S T : Scope) : Prop where
  index : S.index.Alike T.index
  unit : S.unit = T.unit
  enclosing : S.enclosing = T.enclosing

theorem Index.Alike.inside {I J : Index} (h : I.Alike J) (u : CompilationUnit) (name : String) :
    (Scope.inside I u name).Alike (.inside J u name) :=
  ⟨h, rfl, (h.sameNames.inside u name).enclosing⟩

namespace Scope.Alike

variable {S T : Scope} (h : S.Alike T)
include h

theorem sameNames : S.SameNames T := ⟨h.index.sameNames, h.unit, h.enclosing⟩

theorem inheritedType? (name : String) : S.inheritedType? name = T.inheritedType? name := by
  simp only [Scope.inheritedType?, h.enclosing, h.index.ancestors, h.sameNames.memberType?]

theorem resolve? (name : String) : S.resolve? name = T.resolve? name := by
  rw [Scope.resolve?_eq, Scope.resolve?_eq]
  refine h.sameNames.resolveBy (fun simple => ?_) name
  rw [Scope.resolveSimple?_eq, Scope.resolveSimple?_eq, h.sameNames.direct?, h.inheritedType?]

end Scope.Alike

/-- Two resolvers in the same place, over catalogs and indexes that are alike. -/
structure Resolver.Alike (R T : Resolver) : Prop where
  catalog : R.catalog.Alike T.catalog
  scope : R.scope.Alike T.scope
  staticMembers : R.staticMembers = T.staticMembers
  staticOwners : R.staticOwners = T.staticOwners

theorem Scope.Alike.resolver {K L : Platform.Catalog} (hK : K.Alike L) {S T : Scope}
    (h : S.Alike T) : (Resolver.ofScope K S).Alike (.ofScope L T) where
  catalog := hK
  scope := h
  staticMembers := by simp only [Resolver.ofScope, Resolver.staticMember?, h.unit, h.resolve?]
  staticOwners := by simp only [Resolver.ofScope, h.unit, h.resolve?]

namespace Resolver.Alike

variable {R T : Resolver} (h : R.Alike T)
include h

theorem thisType? : R.thisType? = T.thisType? := by
  rw [Resolver.thisType?, Resolver.thisType?, h.scope.enclosing]

theorem superType? : R.superType? = T.superType? := by
  rw [Resolver.superType?, Resolver.superType?, h.thisType?, funext h.scope.index.superClass?]

theorem declaredIn? (start owner member : String) (kind : SymbolKind) (arity : Option Nat) :
    R.declaredIn? start owner member kind arity = T.declaredIn? start owner member kind arity := by
  simp only [Resolver.declaredIn?, h.scope.index.sourceType?, h.catalog.declares, h.catalog.class?,
    h.catalog.demands, h.catalog.isConstantField]

theorem findMember? (start member : String) (kind : SymbolKind) (arity : Option Nat) :
    R.findMember? start member kind arity = T.findMember? start member kind arity := by
  simp only [Resolver.findMember?, h.scope.index.lineage, h.declaredIn?]

theorem implicitMember? (member : String) (kind : SymbolKind) (arity : Option Nat) :
    R.implicitMember? member kind arity = T.implicitMember? member kind arity := by
  simp only [Resolver.implicitMember?, h.scope.enclosing, h.staticMembers, h.staticOwners,
    h.findMember?]

theorem constructor? (owner : String) (arity : Option Nat) :
    R.constructor? owner arity = T.constructor? owner arity := by
  simp only [Resolver.constructor?, h.scope.index.sourceType?, h.catalog.class?, h.catalog.demands]

theorem fieldIn? (name owner : String) : R.fieldIn? name owner = T.fieldIn? name owner := by
  simp only [Resolver.fieldIn?, h.scope.index.sourceType?, h.catalog.declares]

theorem importsField (name : String) : R.importsField name = T.importsField name := by
  simp only [Resolver.importsField, h.staticMembers, h.staticOwners, h.catalog.declares]

theorem fieldType? (name : String) : R.fieldType? name = T.fieldType? name := by
  simp only [Resolver.fieldType?, h.scope.enclosing, h.scope.index.lineage, h.importsField,
    funext (h.fieldIn? name)]

theorem valueOf (type : Option String) : R.valueOf type = T.valueOf type := by
  rw [Resolver.valueOf, Resolver.valueOf, funext h.scope.resolve?]

theorem memberFieldType? (owner name : String) :
    R.memberFieldType? owner name = T.memberFieldType? owner name := by
  simp only [Resolver.memberFieldType?, h.scope.index.lineage, h.scope.index.sourceType?,
    h.catalog.isEnum, h.catalog.declares]

theorem returnType? (owner name : String) (arity : Nat) :
    R.returnType? owner name arity = T.returnType? owner name arity := by
  have hreturn : ∀ owner, R.returnIn? name arity owner = T.returnIn? name arity owner :=
    fun owner => by
      simp only [returnIn?, h.scope.index.sourceType?, h.catalog.declares, h.catalog.returnType?]
  rw [Resolver.returnType?, Resolver.returnType?, h.scope.index.lineage, funext hreturn]

theorem implicitReturnType? (name : String) (arity : Nat) :
    R.implicitReturnType? name arity = T.implicitReturnType? name arity := by
  simp only [Resolver.implicitReturnType?, h.scope.enclosing, h.returnType?]

theorem nameReceiver (L : Locals) (name : String) : R.nameReceiver L name = T.nameReceiver L name := by
  simp only [Resolver.nameReceiver, h.fieldType?, h.valueOf, h.scope.resolve?]

theorem qualifiedType? (L : Locals) (e : Expr) : R.qualifiedType? L e = T.qualifiedType? L e := by
  simp only [Resolver.qualifiedType?, h.fieldType?, h.scope.resolve?]

theorem memberReceiver (r : Receiver) (name : String) :
    R.memberReceiver r name = T.memberReceiver r name := by
  simp only [Resolver.memberReceiver, h.valueOf, h.memberFieldType?]

theorem ofType (type : Option String) : R.ofType type = T.ofType type := by
  rw [Resolver.ofType, Resolver.ofType, h.valueOf]

theorem denote (L : Locals) (e : Expr) : R.denote L e = T.denote L e := by
  fun_induction Resolver.denote R L e with
  | case2 s target n t ht ih =>
    rw [Resolver.denote, ← h.qualifiedType?, ht]
  | case3 s target n inner ht ih =>
    rw [Resolver.denote, ← h.qualifiedType?, ht, ← ih, h.memberReceiver]
  | _ =>
    simp only [Resolver.denote, *, h.nameReceiver, h.ofType, h.implicitReturnType?, h.superType?,
      h.returnType?, h.scope.resolve?, h.thisType?]

theorem ownerOf? (L : Locals) (e : Expr) : R.ownerOf? L e = T.ownerOf? L e := by
  rw [Resolver.ownerOf?, Resolver.ownerOf?, h.denote]

theorem reference? (L : Locals) (e : Expr) : R.reference? L e = T.reference? L e := by
  unfold Resolver.reference?
  simp only [h.implicitMember?, h.ownerOf?, h.findMember?, h.superType?, h.constructor?,
    h.scope.resolve?]

theorem typeUse? (t : TypeRef) : R.typeUse? t = T.typeUse? t := by
  simp only [Resolver.typeUse?, h.scope.resolve?, h.scope.index.sourceType?, h.catalog.demands]

theorem caseLabel? (L : Locals) (label selector : Expr) :
    R.caseLabel? L label selector = T.caseLabel? L label selector := by
  simp only [Resolver.caseLabel?, typeOf?, h.denote, h.findMember?]

end Resolver.Alike

end Project

namespace Check

open Project LevelGuard.Flow

/-- Two places with the same variables and guards, and with resolvers that are alike. -/
structure Place.Alike (P Q : Place) : Prop where
  resolver : P.resolver.Alike Q.resolver
  locals : P.locals = Q.locals
  recognizer : P.recognizer = Q.recognizer

theorem Place.Alike.inside {P Q : Place} (h : P.Alike Q) (c : Code) :
    (P.inside c).Alike (Q.inside c) where
  resolver := h.resolver
  locals := congrArg (·.insertAll c.locals.entries) h.locals
  recognizer := congrArg c.recognizer h.recognizer

/-- The same inner code at places that are alike. -/
inductive Inner.Alike : Inner → Inner → Prop
  | lambda {P Q : Place} (h : P.Alike Q) (c : Code) : Alike (.lambda P c) (.lambda Q c)
  | type (locals : Locals) (d : TypeDecl) : Alike (.type locals d) (.type locals d)

/-- Two checks of inner code find the same at places that are alike. -/
def InnerCheck.Alike (f g : InnerCheck) : Prop := ∀ F {i j : Inner}, i.Alike j → f F i = g F j

/-- Two settings of one file and one baseline, with catalogs and indexes that are alike. -/
structure Setting.Alike (C D : Setting) : Prop where
  path : C.path = D.path
  catalog : C.catalog.Alike D.catalog
  index : C.index.Alike D.index
  baseline : C.baseline = D.baseline

namespace Setting.Alike

variable {C D : Setting} (h : C.Alike D)
include h

theorem finding (span : Span) (category : Category) (message : String) :
    C.finding span category message = D.finding span category message := by
  rw [Setting.finding, Setting.finding, h.path]

theorem lacksLevel (F : Facts) (category : Category) (level : Level) :
    C.lacksLevel F category level = D.lacksLevel F category level := by
  rw [Setting.lacksLevel, Setting.lacksLevel, h.baseline]

theorem levelClause (F : Facts) (level : Level) : C.levelClause F level = D.levelClause F level := by
  obtain ⟨_, _, _, B⟩ := C
  obtain ⟨_, _, _, rfl⟩ := h
  rfl

theorem checkLevel (F : Facts) (s : Resolved) (level : Level) (span : Span) :
    C.checkLevel F s level span = D.checkLevel F s level span := by
  simp only [Setting.checkLevel, h.lacksLevel, h.levelClause, h.finding]

theorem checkResources (F : Facts) (span : Span) :
    C.checkResources F span = D.checkResources F span := by
  rw [Setting.checkResources, Setting.checkResources, h.lacksLevel, h.levelClause, h.finding]

theorem checkDatePattern (F : Facts) (e : Expr) :
    C.checkDatePattern F e = D.checkDatePattern F e := by
  unfold Setting.checkDatePattern
  simp only [h.lacksLevel, h.levelClause, h.finding]

theorem missingMessage (F : Facts) (s : Resolved) (r : Permission.Requirement) :
    C.missingMessage F s r = D.missingMessage F s r := by
  obtain ⟨_, _, _, B⟩ := C
  obtain ⟨_, _, _, rfl⟩ := h
  rfl

theorem meets (F : Facts) (r : Permission.Requirement) (e : Permission.Expr) :
    C.meets F r e = D.meets F r e := by
  rw [Setting.meets, Setting.meets, h.baseline]

theorem checkRevocable (F : Facts) (r : Permission.Requirement) (span : Span) :
    C.checkRevocable F r span = D.checkRevocable F r span := by
  have hnames : C.revocableNames r = D.revocableNames r := by
    rw [Setting.revocableNames, Setting.revocableNames, h.baseline, h.catalog.revocable]
  simp only [Setting.checkRevocable, hnames, h.baseline, h.finding]

theorem checkPermission (F : Facts) (s : Resolved) (r : Permission.Requirement) (span : Span) :
    C.checkPermission F s r span = D.checkPermission F s r span := by
  simp only [Setting.checkPermission, h.baseline, h.finding, h.missingMessage, h.meets,
    h.checkRevocable]

theorem checkSymbol (F : Facts) (s : Resolved) (span : Span) :
    C.checkSymbol F s span = D.checkSymbol F s span := by
  unfold Setting.checkSymbol
  simp only [h.checkLevel, h.checkPermission]

theorem checkReference (F : Facts) (s : Resolved) (e : Expr) :
    C.checkReference F s e = D.checkReference F s e := by
  rw [Setting.checkReference, Setting.checkReference, h.checkSymbol, h.checkDatePattern]

theorem checkOverride (F : Facts) (owner : String) (m : MethodDecl) :
    C.checkOverride F owner m = D.checkOverride F owner m := by
  have hlevel : C.overriddenLevel? owner m = D.overriddenLevel? owner m := by
    simp only [Setting.overriddenLevel?, h.index.ancestors, h.catalog.class?]
  simp only [Setting.checkOverride, hlevel, h.baseline, h.finding]

section Places

variable {f g : InnerCheck} (hinner : f.Alike g) {P Q : Place} (hplace : P.Alike Q)
include hinner hplace

theorem checkEvent (F : Facts) (e : Event) : C.checkEvent f P F e = D.checkEvent g Q F e := by
  cases e with
  | reference e =>
    simp only [Setting.checkEvent, hplace.resolver.reference?, hplace.locals, h.checkReference]
  | typeUse t => simp only [Setting.checkEvent, hplace.resolver.typeUse?, h.checkSymbol]
  | caseLabel label selector =>
    simp only [Setting.checkEvent, hplace.resolver.caseLabel?, hplace.locals, h.checkSymbol]
  | tryWithResources span => exact h.checkResources F span
  | lambda params body => exact hinner _ (.lambda hplace _)
  | classBody d =>
    simp only [Setting.checkEvent, hplace.locals]
    exact hinner _ (.type _ d)

theorem checkCode (seed : Facts) (c : Code) : C.checkCode f P seed c = D.checkCode g Q seed c := by
  have hsite : ∀ F, C.checkSite f (P.inside c) F = D.checkSite g (Q.inside c) F := fun F =>
    funext fun s => h.checkEvent hinner (hplace.inside c) (s.inside F) s.event
  simp only [Setting.checkCode, Setting.checkGraph, (hplace.inside c).recognizer, hsite]

theorem checkMember (F : Facts) (owner : String) (m : Member) :
    C.checkMember f P F owner m = D.checkMember g Q F owner m := by
  have hcode := h.checkCode hinner hplace
  have htype : ∀ F L d, f F (.type L d) = g F (.type L d) := fun F L d => hinner F (.type L d)
  cases m <;> simp only [Setting.checkMember, funext (hcode _), h.checkOverride, hplace.locals, htype]

end Places

theorem checkType (u : CompilationUnit) {f g : InnerCheck} (hinner : f.Alike g) (outer : Facts)
    (locals : Locals) (d : TypeDecl) :
    C.checkType u f outer locals d = D.checkType u g outer locals d := by
  have hresolver := (h.index.inside u d.qualified).resolver h.catalog
  have hplace : ∀ R, Place.Alike ⟨.ofScope C.catalog (.inside C.index u d.qualified), locals, R⟩
      ⟨.ofScope D.catalog (.inside D.index u d.qualified), locals, R⟩ :=
    fun R => ⟨hresolver, rfl, rfl⟩
  have hmember := fun R F => funext (h.checkMember hinner (hplace R) F d.qualified)
  simp only [Setting.checkType, Setting.checkSupertypes, hresolver.typeUse?, h.checkSymbol, hmember]

theorem checkInner (u : CompilationUnit) (depth : Nat) :
    (C.checkInner u depth).Alike (D.checkInner u depth) := by
  induction depth with
  | zero => exact fun _ _ _ _ => rfl
  | succ depth ih =>
    intro F i j hij
    cases hij with
    | lambda hplace c => exact h.checkCode ih hplace F c
    | type locals d => exact h.checkType u ih F locals d

/-- Settings that are alike give the same findings. -/
theorem checkUnit (u : CompilationUnit) : C.checkUnit u = D.checkUnit u :=
  congrArg (u.types.flatMap ·) (funext fun d => h.checkInner u u.depth .top (.type .empty d))

end Setting.Alike

end Check

end LevelGuard
