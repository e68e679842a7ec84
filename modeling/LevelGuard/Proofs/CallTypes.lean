import LevelGuard.Java.Read
import LevelGuard.Proofs.MethodReferences

/-!
# The types of calls

A call is bound to a declaration by one search and typed by another: through the same
types, in the same order, for a member with the same name. With a receiver both stop at
the same declaration, so the type of a call is the result type that is recorded for what
the call is bound to. Without one the two searches go through the enclosing types. The
first stops where the method is declared, the second where a result type is recorded. So a
call whose declaration records none is given the type of a method of the same name that a
type further out declares, if there is one, and this is the only way for the two to differ.
-/
namespace LevelGuard.Project

open Java Platform

/-- A declaration that a call can be bound to: a method declared in source, or what a
platform class has for the number of arguments. -/
inductive Overload where
  | source (method : SourceMethod)
  | platform (method : ApiMethod)

namespace Overload

def returns : Overload → Option String
  | .source m => m.returns
  | .platform m => m.returns

def level? : Overload → Option Level
  | .source m => m.level
  | .platform m => some m.since

end Overload

/-- Two searches that succeed at the same elements stop at the same one. -/
theorem exists_findSome?_eq {α β γ : Type} {f : α → Option β} {g : α → Option γ}
    (h : ∀ x, (g x).isSome = (f x).isSome) {l : List α} {b : β} (hl : l.findSome? f = some b) :
    ∃ x ∈ l, f x = some b ∧ l.findSome? g = g x := by
  obtain ⟨before, x, after, rfl, hx, hbefore⟩ := List.findSome?_eq_some_iff.mp hl
  have hnone : before.findSome? g = none :=
    List.findSome?_eq_none_iff.mpr fun y hy => by
      rw [← Option.not_isSome_iff_eq_none, h y, hbefore y hy]
      simp
  have hsome : (g x).isSome = true := by rw [h x, hx, Option.isSome_some]
  obtain ⟨c, hc⟩ := Option.isSome_iff_exists.mp hsome
  refine ⟨x, by simp, hx, ?_⟩
  rw [List.findSome?_append, hnone, Option.none_or, List.findSome?_cons, hc]

namespace Resolver

variable {R : Resolver} {L : Locals} {start owner name : String} {arity : Nat} {r : Resolved}
  {D : Overload}

/-- What a type itself declares for a call with this many arguments. -/
def overloadIn? (R : Resolver) (name : String) (arity : Nat) (owner : String) : Option Overload :=
  match R.scope.index.sourceType? owner with
  | some t => (t.findMethod? name (some arity)).map .source
  | none => ((R.catalog.class? owner).bind (·.findMethod? name (some arity))).map .platform

theorem overloadIn?_cases (h : R.overloadIn? name arity owner = some D) :
    (∃ t m, R.scope.index.sourceType? owner = some t ∧ t.findMethod? name (some arity) = some m ∧
        D = .source m) ∨
      ∃ c m, R.scope.index.sourceType? owner = none ∧ R.catalog.class? owner = some c ∧
        c.findMethod? name (some arity) = some m ∧ D = .platform m := by
  unfold overloadIn? at h
  split at h
  · next t ht =>
    obtain ⟨m, hm, rfl⟩ := Option.map_eq_some_iff.mp h
    exact .inl ⟨t, m, ht, hm, rfl⟩
  · next ht =>
    obtain ⟨m, hm, rfl⟩ := Option.map_eq_some_iff.mp h
    obtain ⟨c, hc, hm⟩ := Option.bind_eq_some_iff.mp hm
    exact .inr ⟨c, m, ht, hc, hm, rfl⟩

theorem isSome_returnIn? (R : Resolver) (start name : String) (arity : Nat) (owner : String) :
    (R.returnIn? name arity owner).isSome =
      (R.declaredIn? start owner name .method (some arity)).isSome := by
  unfold returnIn? declaredIn?
  cases R.scope.index.sourceType? owner with
  | some t => simp only [sourceMember?, Option.isSome_map]
  | none =>
    cases h : R.catalog.declares ⟨owner, name, .method⟩ <;> simp [Symbol.method, h]

theorem declares_of_findMethod? {K : Catalog} {c : ApiClass} {m : ApiMethod}
    (hc : K.class? owner = some c) (hm : c.findMethod? name (some arity) = some m) :
    K.declares (.method owner name) = true := by
  obtain ⟨overloads, hoverloads, -⟩ := Option.bind_eq_some_iff.mp hm
  have hcontains : c.methods.contains name = true := Option.isSome_of_eq_some hoverloads
  simp only [Catalog.declares, Symbol.method, hc, hcontains, Bool.or_true]

theorem returnIn?_of_overloadIn? (h : R.overloadIn? name arity owner = some D) :
    R.returnIn? name arity owner = some D.returns := by
  unfold returnIn?
  obtain ⟨t, m, ht, hm, rfl⟩ | ⟨c, m, ht, hc, hm, rfl⟩ := overloadIn?_cases h
  · simp only [ht, hm, Option.map_some, Overload.returns]
  · simp only [ht, declares_of_findMethod? hc hm, if_true, Catalog.returnType?, hc, hm,
      Option.bind_some, Overload.returns]

/-- The type through which a method is found gives the result type that is recorded. -/
theorem returnType?_of_findMember? (h : R.findMember? start name .method (some arity) = some r)
    (hD : R.overloadIn? name arity r.declaring.owner = some D) :
    R.returnType? start name arity = D.returns := by
  obtain ⟨owner, -, hr, hreturn⟩ := exists_findSome?_eq (R.isSome_returnIn? start name arity) h
  rw [declaring_of_declaredIn? hr] at hD
  rw [returnType?, hreturn, returnIn?_of_overloadIn? hD, Option.join_some]

theorem returnType?_of_findMember?_none
    (h : R.findMember? start name .method (some arity) = none) :
    R.returnType? start name arity = none := by
  have hnone : (R.scope.index.lineage start).findSome? (R.returnIn? name arity) = none := by
    refine List.findSome?_eq_none_iff.mpr fun owner howner => ?_
    rw [← Option.not_isSome_iff_eq_none, R.isSome_returnIn? start name arity owner,
      List.findSome?_eq_none_iff.mp h owner howner]
    simp
  rw [returnType?, hnone, Option.join_none]

theorem level?_of_declaredIn?
    (h : R.declaredIn? start owner name .method (some arity) = some r)
    (hD : R.overloadIn? name arity owner = some D) : r.level? = D.level? := by
  unfold declaredIn? at h
  obtain ⟨t, m, ht, hm, rfl⟩ | ⟨c, m, ht, hc, hm, rfl⟩ := overloadIn?_cases hD
  · simp only [ht, sourceMember?, hm, Option.map_some, Option.some.injEq] at h
    rw [← h, level?_sourceDemands, Overload.level?]
  · simp only [ht, Option.ite_none_right_eq_some, Option.some.injEq] at h
    have hsince : Catalog.since? c ⟨owner, name, .method⟩ (some arity) = some m.since := by
      rw [Catalog.since?, hm, Option.map_some]
    rw [← h.2, Resolved.level?, demands_of_since hc hsince]
    rfl

theorem level?_of_constructor? (h : R.constructor? owner (some arity) = some r)
    (hD : R.overloadIn? constructorName arity owner = some D) : r.level? = D.level? := by
  unfold constructor? at h
  obtain ⟨t, m, ht, hm, rfl⟩ | ⟨c, m, ht, hc, hm, rfl⟩ := overloadIn?_cases hD
  · simp only [ht, hm, Option.some.injEq] at h
    rw [← h, level?_sourceDemands, Overload.level?]
  · have hsince : Catalog.since? c (.constructor owner) (some arity) = some m.since := by
      rw [Catalog.since?, Symbol.constructor, hm, Option.map_some]
    have hdemands := demands_of_since (K := R.catalog) (s := .constructor owner) hc hsince
    simp only [ht, hc, Option.map_some, Option.some.injEq, hdemands] at h
    rw [← h]
    rfl

/-- A method that is found demands what its declaration does. -/
theorem level?_of_findMember? (h : R.findMember? start name .method (some arity) = some r)
    (hD : R.overloadIn? name arity r.declaring.owner = some D) : r.level? = D.level? := by
  obtain ⟨owner, -, hr⟩ := List.exists_of_findSome?_eq_some h
  rw [declaring_of_declaredIn? hr] at hD
  exact level?_of_declaredIn? hr hD

def calledType? (R : Resolver) (L : Locals) : Expr → Option String
  | .super _ => R.superType?
  | e => R.ownerOf? L e

theorem typeOf?_call_some (R : Resolver) (L : Locals) (span : Span) (e : Expr) (name : String)
    (args : List Expr) : R.typeOf? L (.call span (some e) name args) =
      (R.calledType? L e).bind fun owner => R.returnType? owner name args.length := by
  cases e <;> rfl

/-- A call through an expression is bound to a method of the type that it looks in, or to a
constructor of the superclass. -/
theorem reference?_call_some {span : Span} {e : Expr} {args : List Expr}
    (h : R.reference? L (.call span (some e) name args) = some r) :
    ∃ owner, R.calledType? L e = some owner ∧
      (R.findMember? owner name .method (some args.length) = some r ∨
        name = constructorName ∧ R.constructor? owner (some args.length) = some r) := by
  cases e with
  | super s =>
    obtain ⟨owner, howner, h⟩ := Option.bind_eq_some_iff.mp h
    refine ⟨owner, howner, ?_⟩
    split at h
    · next hname => exact .inr ⟨hname, h⟩
    · exact .inl h
  | _ =>
    obtain ⟨-, h⟩ := Option.ite_none_left_eq_some.mp h
    obtain ⟨owner, howner, h⟩ := Option.bind_eq_some_iff.mp h
    exact ⟨owner, howner, .inl h⟩

theorem typeOf?_of_receiver {span : Span} {e : Expr} {args : List Expr}
    (h : R.reference? L (.call span (some e) name args) = some r)
    (hD : R.overloadIn? name args.length r.declaring.owner = some D) :
    r.level? = D.level? ∧ R.typeOf? L (.call span (some e) name args) = D.returns := by
  obtain ⟨owner, howner, hmethod | ⟨rfl, hconstructor⟩⟩ := reference?_call_some h
  · refine ⟨level?_of_findMember? hmethod hD, ?_⟩
    rw [typeOf?_call_some, howner, Option.bind_some, returnType?_of_findMember? hmethod hD]
  · rw [declaring_of_constructor? hconstructor] at hD
    change R.overloadIn? constructorName args.length owner = some D at hD
    refine ⟨level?_of_constructor? hconstructor hD, ?_⟩
    rw [typeOf?_call_some, howner, Option.bind_some, returnType?, Index.lineage,
      List.findSome?_cons, returnIn?_of_overloadIn? hD, Option.join_some]

/-- The enclosing types around the innermost one through which the method is found. -/
def furtherOut (R : Resolver) (name : String) (arity : Nat) : List String :=
  (R.scope.enclosing.dropWhile fun outer =>
    (R.findMember? outer name .method (some arity)).isNone).tail

/-- The result type that a call gets from further out than where it is bound. -/
def outerReturnType? (R : Resolver) (target : Option Expr) (name : String) (arity : Nat) :
    Option String :=
  match target with
  | some _ => none
  | none => (R.furtherOut name arity).findSome? fun outer => R.returnType? outer name arity

theorem furtherOut_append {inner outer : List String} {found : String}
    (henclosing : R.scope.enclosing = inner ++ found :: outer)
    (hinner : ∀ t ∈ inner, R.findMember? t name .method (some arity) = none)
    (hfound : R.findMember? found name .method (some arity) = some r) :
    R.furtherOut name arity = outer := by
  have hskip : ∀ t ∈ inner, (R.findMember? t name .method (some arity)).isNone = true :=
    fun t ht => by rw [hinner t ht, Option.isNone_none]
  rw [furtherOut, henclosing, List.dropWhile_append_of_pos hskip,
    List.dropWhile_cons_of_neg (by simp [hfound]), List.tail_cons]

/-- Where no enclosing type has the method, none gives the call a type. -/
theorem implicitReturnType?_of_none
    (h : ∀ t ∈ R.scope.enclosing, R.findMember? t name .method (some arity) = none) :
    R.implicitReturnType? name arity = none ∧ R.outerReturnType? none name arity = none := by
  have hdrop : R.furtherOut name arity = [] := by
    have hall : ∀ t ∈ R.scope.enclosing,
        (R.findMember? t name .method (some arity)).isNone = true :=
      fun t ht => by rw [h t ht, Option.isNone_none]
    rw [furtherOut, ← List.append_nil R.scope.enclosing, List.dropWhile_append_of_pos hall,
      List.dropWhile_nil, List.tail_nil]
  refine ⟨List.findSome?_eq_none_iff.mpr fun t ht => ?_, ?_⟩
  · exact returnType?_of_findMember?_none (h t ht)
  · rw [outerReturnType?, hdrop, List.findSome?_nil]

/-- Without a receiver the type is the recorded one, or else one from further out; a method
that is imported gives none. -/
theorem implicitReturnType?_of_bound (h : R.implicitMember? name .method (some arity) = some r)
    (hD : R.overloadIn? name arity r.declaring.owner = some D) :
    R.implicitReturnType? name arity = D.returns.or (R.outerReturnType? none name arity) ∨
      R.implicitReturnType? name arity = none ∧ R.outerReturnType? none name arity = none := by
  unfold implicitMember? at h
  cases hfound : R.scope.enclosing.findSome? fun t => R.findMember? t name .method (some arity) with
  | none => exact .inr (implicitReturnType?_of_none (List.findSome?_eq_none_iff.mp hfound))
  | some found =>
    rw [hfound] at h
    obtain rfl : found = r := Option.some.inj h
    obtain ⟨inner, t, outer, henclosing, ht, hinner⟩ := List.findSome?_eq_some_iff.mp hfound
    have hnone : (inner.findSome? fun t => R.returnType? t name arity) = none :=
      List.findSome?_eq_none_iff.mpr fun t ht => returnType?_of_findMember?_none (hinner t ht)
    refine .inl ?_
    rw [outerReturnType?, furtherOut_append henclosing hinner ht, implicitReturnType?, henclosing,
      List.findSome?_append, hnone, Option.none_or, List.findSome?_cons,
      returnType?_of_findMember? ht hD]
    cases D.returns <;> rfl

theorem level?_of_implicitMember? (h : R.implicitMember? name .method (some arity) = some r)
    (hD : R.overloadIn? name arity r.declaring.owner = some D) : r.level? = D.level? := by
  have hfind : ∃ start, R.findMember? start name .method (some arity) = some r := by
    rw [implicitMember?, Option.orElse_eq_orElse, Option.orElse_eq_or, Option.or_eq_some_iff] at h
    rcases h with h | ⟨-, h⟩
    · obtain ⟨t, -, ht⟩ := List.exists_of_findSome?_eq_some h
      exact ⟨t, ht⟩
    · split at h
      · next t _ => exact ⟨t, h⟩
      · obtain ⟨t, -, ht⟩ := List.exists_of_findSome?_eq_some h
        exact ⟨t, ht⟩
  obtain ⟨start, hstart⟩ := hfind
  exact level?_of_findMember? hstart hD

/-- The type of a bound call comes from its declaration or from further out. -/
theorem typeOf?_of_bound {span : Span} {target : Option Expr} {args : List Expr}
    (h : R.reference? L (.call span target name args) = some r)
    (hD : R.overloadIn? name args.length r.declaring.owner = some D) :
    r.level? = D.level? ∧
      (R.typeOf? L (.call span target name args) =
          D.returns.or (R.outerReturnType? target name args.length) ∨
        R.typeOf? L (.call span target name args) = none ∧
          R.outerReturnType? target name args.length = none) := by
  cases target with
  | some e =>
    obtain ⟨hlevel, htype⟩ := typeOf?_of_receiver h hD
    exact ⟨hlevel, .inl (by rw [htype, outerReturnType?, Option.or_none])⟩
  | none =>
    obtain ⟨-, h⟩ := Option.ite_none_left_eq_some.mp h
    exact ⟨level?_of_implicitMember? h hD, implicitReturnType?_of_bound h hD⟩

/-- A call that is bound to a declaration demands what the declaration does. With a receiver
its type is the result type recorded for the declaration. Without one this holds as well
where a type is given at all, unless the declaration records no result type and a type
further out has a method of the name with one: that is then the type of the call. -/
theorem call_typed_by_declaration (R : Resolver) (L : Locals) (span : Span) (target : Option Expr)
    (name : String) (args : List Expr) {r : Resolved} {D : Overload}
    (hbound : R.reference? L (.call span target name args) = some r)
    (hD : R.overloadIn? name args.length r.declaring.owner = some D) :
    r.level? = D.level? ∧
      (target.isSome = true → R.typeOf? L (.call span target name args) = D.returns) ∧
      ((∀ t, R.typeOf? L (.call span target name args) = some t → D.returns = some t) ↔
        (D.returns = none → R.outerReturnType? target name args.length = none)) ∧
      (D.returns = none → R.typeOf? L (.call span target name args) =
        R.outerReturnType? target name args.length) := by
  obtain ⟨hlevel, htype⟩ := typeOf?_of_bound hbound hD
  have houter : D.returns = none → R.typeOf? L (.call span target name args) =
      R.outerReturnType? target name args.length := by
    intro hnone
    rw [hnone, Option.none_or] at htype
    exact htype.elim id fun h => h.1.trans h.2.symm
  refine ⟨hlevel, ?_, ⟨?_, ?_⟩, houter⟩
  · intro hreceiver
    obtain ⟨e, rfl⟩ := Option.isSome_iff_exists.mp hreceiver
    exact (typeOf?_of_receiver hbound hD).2
  · intro hagree hnone
    rw [← houter hnone, Option.eq_none_iff_forall_ne_some]
    intro t ht
    rw [hagree t ht] at hnone
    nomatch hnone
  · intro hclear t ht
    cases hreturns : D.returns with
    | none =>
      rw [houter hreturns, hclear hreturns] at ht
      nomatch ht
    | some s =>
      rw [ht, hreturns, Option.some_or] at htype
      exact htype.elim Eq.symm fun h => nomatch h.1

/-- A class with a method whose result is its own. -/
def chainCatalog : Catalog :=
  .ofClasses [ApiClass.addMethod { name := "p.Api", since := 1 } "d" ⟨0, 19, some "p.Api"⟩]

/-- The text of a file with a class and one inside of it. Both have a method `c`; the result
type of the inner one is not known. -/
def chainText : String :=
  "class Outer \x7b p.Api c() \x7b return null; \x7d " ++
    "class Inner \x7b Foo c() \x7b return null; \x7d \x7d \x7d"

/-- How references are resolved in a class of the file. -/
def chainResolver (u : CompilationUnit) (name : String) : Resolver :=
  .ofScope chainCatalog (.inside (.ofUnits chainCatalog [u]) u name)

def plainCall : Expr := .call {} none "c" []

/-- In the outer class `c().d()` has the type that is recorded for `d`. -/
theorem call_typed_by_declaration_chained : ∃ u, readUnit? "T.java" chainText = some u ∧
    (chainResolver u "Outer").typeOf? .empty (.call {} (some plainCall) "d" []) = some "p.Api" := by
  have hsome : ∃ u, readUnit? "T.java" chainText = some u ∧
      ((chainResolver u "Outer").reference? .empty (.call {} (some plainCall) "d" [])).any fun r =>
        ((chainResolver u "Outer").overloadIn? "d" 0 r.declaring.owner).any fun D =>
          D.returns = some "p.Api" :=
    exists_readUnit? (Text.toList_append_eq String.toList_ofList String.toList_ofList)
      (by decide +kernel)
  obtain ⟨u, hread, hu⟩ := hsome
  obtain ⟨r, hr, hD⟩ := (Option.any_eq_true _ _).mp hu
  obtain ⟨D, hD, hreturns⟩ := (Option.any_eq_true _ _).mp hD
  obtain ⟨-, htype, -⟩ := call_typed_by_declaration _ _ _ _ _ _ hr hD
  exact ⟨u, hread, (htype rfl).trans (of_decide_eq_true hreturns)⟩

/-- In the inner class `c()` is bound to the inner method, for which no result type is
recorded, and yet has the type of the outer one. -/
theorem inner_call_typed_from_outside : ∃ u r D, readUnit? "T.java" chainText = some u ∧
    (chainResolver u "Outer.Inner").reference? .empty plainCall = some r ∧
    r.declaring = .method "Outer.Inner" "c" ∧
    (chainResolver u "Outer.Inner").overloadIn? "c" 0 r.declaring.owner = some D ∧
    D.returns = none ∧
    (chainResolver u "Outer.Inner").typeOf? .empty plainCall = some "p.Api" := by
  have hsome : ∃ u, readUnit? "T.java" chainText = some u ∧
      ((chainResolver u "Outer.Inner").reference? .empty plainCall).any fun r =>
        ((chainResolver u "Outer.Inner").overloadIn? "c" 0 r.declaring.owner).any fun D =>
          r.declaring = .method "Outer.Inner" "c" ∧ D.returns = none ∧
            (chainResolver u "Outer.Inner").typeOf? .empty plainCall = some "p.Api" :=
    exists_readUnit? (Text.toList_append_eq String.toList_ofList String.toList_ofList)
      (by decide +kernel)
  obtain ⟨u, hread, hu⟩ := hsome
  obtain ⟨r, hr, hD⟩ := (Option.any_eq_true _ _).mp hu
  obtain ⟨D, hD, h⟩ := (Option.any_eq_true _ _).mp hD
  obtain ⟨hdeclaring, hreturns, htype⟩ := of_decide_eq_true h
  exact ⟨u, r, D, hread, hr, hdeclaring, hD, hreturns, htype⟩

end Resolver

end LevelGuard.Project
