import LevelGuard.Java.Read
import LevelGuard.Project.Resolve

/-!
# What method references mean

A reference to a method abbreviates a lookup of the method in the type before the colons,
with any number of arguments, and a reference to `new` one of the constructor. Where a
reference is read, every word that ends in `new` is replaced by the name of constructors;
where it is resolved, the word `new` itself is asked for. So a reference means what it
abbreviates exactly if its word does not end in `new`. With such a word the name of
constructors is looked up like a method, in the type and above it: what is found is never
the constructor's symbol, and nothing is found where a class records no constructor,
although the class then demands its own level. Only if the type records a constructor
itself is its level the one that is demanded.
-/
namespace LevelGuard.Project.Resolver

open Java Platform

section Lookup

variable {R : Resolver} {start owner member : String} {kind : SymbolKind} {arity : Option Nat}
  {r : Resolved}

theorem declaring_of_declaredIn? (h : R.declaredIn? start owner member kind arity = some r) :
    r.declaring = ⟨owner, member, kind⟩ := by
  unfold declaredIn? at h
  split at h
  · obtain ⟨demands, -, rfl⟩ := Option.map_eq_some_iff.mp h
    rfl
  · simp only [Option.ite_none_right_eq_some] at h
    rw [← Option.some.inj h.2]

/-- A member is found in a type that declares it, under its own name and kind. -/
theorem declaring_of_findMember? (h : R.findMember? start member kind arity = some r) :
    ∃ owner ∈ R.scope.index.lineage start, r.declaring = ⟨owner, member, kind⟩ := by
  obtain ⟨owner, howner, hr⟩ := List.exists_of_findSome?_eq_some h
  exact ⟨owner, howner, declaring_of_declaredIn? hr⟩

/-- What a type declares itself hides what is above it. -/
theorem findMember?_of_declaredIn? (h : R.declaredIn? start start member kind arity = some r) :
    R.findMember? start member kind arity = some r := by
  rw [findMember?, Index.lineage, List.findSome?_cons, h]

theorem declaring_of_constructor? (h : R.constructor? owner arity = some r) :
    r.declaring = .constructor owner := by
  unfold constructor? at h
  split at h
  · split at h <;> cases h <;> rfl
  · obtain ⟨c, -, rfl⟩ := Option.map_eq_some_iff.mp h
    rfl

end Lookup

def recordsConstructor (R : Resolver) (owner : String) : Bool :=
  match R.scope.index.sourceType? owner with
  | some t => (t.findMethod? constructorName none).isSome
  | none => (R.catalog.class? owner).any fun c => (c.findMethod? constructorName none).isSome

theorem level?_sourceDemands (s : Symbol) (level : Option Level)
    (permission : Option Permission.Requirement) :
    (Resolved.plain s (sourceDemands level permission)).level? = level := by
  cases level <;> cases permission <;> rfl

/-- The level of a symbol of a class comes before a permission that a table adds. -/
theorem demands_of_since {K : Catalog} {s : Symbol} {c : ApiClass} {arity : Option Nat} {v : Level}
    (hclass : K.class? s.owner = some c) (hv : Catalog.since? c s arity = some v) :
    K.demands s arity =
      .version v :: ((K.permissions.get? (Catalog.permissionKey s)).map .permission).toList := by
  simp only [Catalog.demands, hclass, Option.bind_some, hv]
  rfl

/-- A type that records a constructor declares the name of constructors as a method, with
the level of the constructor. -/
theorem level?_of_recordsConstructor {R : Resolver} {owner : String}
    (h : R.recordsConstructor owner = true) :
    ∃ r c, R.declaredIn? owner owner constructorName .method none = some r ∧
      R.constructor? owner none = some c ∧ r.level? = c.level? := by
  unfold recordsConstructor at h
  unfold declaredIn? constructor?
  cases hsource : R.scope.index.sourceType? owner with
  | some t =>
    rw [hsource] at h
    obtain ⟨m, hm⟩ := Option.isSome_iff_exists.mp h
    simp only [sourceMember?, hm, Option.map_some]
    exact ⟨_, _, rfl, rfl, by rw [level?_sourceDemands, level?_sourceDemands]⟩
  | none =>
    rw [hsource] at h
    obtain ⟨c, hc, hmethod⟩ := (Option.any_eq_true _ _).mp h
    obtain ⟨m, hm⟩ := Option.isSome_iff_exists.mp hmethod
    have hdeclares : R.catalog.declares ⟨owner, constructorName, .method⟩ = true := by
      obtain ⟨overloads, hoverloads, -⟩ := Option.bind_eq_some_iff.mp hm
      have hcontains : c.methods.contains constructorName = true :=
        Option.isSome_of_eq_some hoverloads
      simp only [Catalog.declares, hc, hcontains, Bool.or_true]
    have hlevel : ∀ kind, Catalog.since? c ⟨owner, constructorName, kind⟩ none =
        (c.findMethod? constructorName none).map (·.since) →
        R.catalog.demands ⟨owner, constructorName, kind⟩ none = .version m.since ::
          ((R.catalog.permissions.get? (Catalog.permissionKey ⟨owner, constructorName, kind⟩)).map
            .permission).toList := by
      intro kind hkind
      rw [hm] at hkind
      exact demands_of_since hc hkind
    simp only [hdeclares, if_true, hc, Option.map_some, Symbol.constructor, hlevel .method rfl,
      hlevel .constructor rfl]
    exact ⟨_, _, rfl, rfl, rfl⟩

/-- What a reference to a name in a type abbreviates: the constructor, or the method of
that name, with any number of arguments. -/
def abbreviated? (R : Resolver) (owner name : String) : Option Resolved :=
  if name = "new" then R.constructor? owner none else R.findMember? owner name .method none

end LevelGuard.Project.Resolver

namespace LevelGuard.Java

open Rule

section Reading

variable {α β : Type} {p : Rule α} {f : α → Rule β} {s s' : Cursor} {a : α}

theorem Rule.bind_of_some (h : p s = some (a, s')) : (p >>= f) s = f a s' := by
  change (p s).bind _ = _
  rw [h]
  rfl

theorem Rule.bind_of_none (h : p s = none) : (p >>= f) s = none := by
  change (p s).bind _ = _
  rw [h]
  rfl

variable {t : Token} {ts : List Token} {left : Nat} {last : Mark} {accepts : Token → Bool}

theorem Rule.satisfy_of_true (h : accepts t = true) :
    satisfy accepts ⟨t :: ts, left, last⟩ = some (t, ⟨ts, left - 1, t.stop⟩) := by
  have htake : take ⟨t :: ts, left, last⟩ = some (t, ⟨ts, left - 1, t.stop⟩) := rfl
  rw [satisfy, Rule.bind_of_some htake, if_pos h]
  rfl

theorem Rule.satisfy_of_false (h : accepts t = false) :
    satisfy accepts ⟨t :: ts, left, last⟩ = none := by
  have htake : take ⟨t :: ts, left, last⟩ = some (t, ⟨ts, left - 1, t.stop⟩) := rfl
  rw [satisfy, Rule.bind_of_some htake, if_neg (by simp [h])]
  rfl

theorem Rule.opt_of_none (h : p s = none) : opt p s = some (none, s) := by
  rw [opt, h]

end Reading

theorem Token.is_eq_false {t : Token} {text other : String} (h : t.is text = true)
    (hne : text ≠ other) : t.is other = false := by
  simp only [Token.is, Bool.and_eq_true, decide_eq_true_eq] at h
  simp [Token.is, h.2, hne]

section Word

variable (g : Grammar) (start : Mark) (target : Expr) {colons word : Token}
  (hcolons : colons.is "::" = true) (hword : word.kind = .word) (rest : List Token) (left : Nat)
  (last : Mark)
include hcolons

/-- An expression goes on with a method reference where two colons are ahead. -/
theorem extension_colons :
    extension g start target ⟨colons :: rest, left, last⟩ =
      methodReference g start target ⟨colons :: rest, left, last⟩ := by
  have hdotted : dotted g start target ⟨colons :: rest, left, last⟩ = none :=
    Rule.bind_of_none (Rule.satisfy_of_false (Token.is_eq_false hcolons (by decide)))
  have hindexed : indexed g start target ⟨colons :: rest, left, last⟩ = none :=
    Rule.bind_of_none (Rule.bind_of_none
      (Rule.satisfy_of_false (Token.is_eq_false hcolons (by decide))))
  change (dotted g start target _ <|> (indexed g start target _ <|> _)) = _
  rw [hdotted, hindexed]
  rfl

include hword

/-- A reference without type arguments, as it is read. -/
theorem methodReference_word :
    methodReference g start target ⟨colons :: word :: rest, left, last⟩ =
      some (⟨.methodRef (start.spanTo word.stop) target (referencedName word.text), false⟩,
        ⟨rest, left - 1 - 1, word.stop⟩) := by
  have hless : word.is "<" = false := by simp [Token.is, hword]
  have harguments : typeArguments g ⟨word :: rest, left - 1, colons.stop⟩ = none :=
    Rule.bind_of_none (Rule.bind_of_none (Rule.satisfy_of_false hless))
  have hname : anyWord ⟨word :: rest, left - 1, colons.stop⟩ =
      some (word, ⟨rest, left - 1 - 1, word.stop⟩) :=
    Rule.satisfy_of_true (decide_eq_true hword)
  have hmark : mark "::" ⟨colons :: word :: rest, left, last⟩ =
      some (colons, ⟨word :: rest, left - 1, colons.stop⟩) :=
    Rule.satisfy_of_true hcolons
  unfold methodReference
  rw [Rule.bind_of_some hmark, Rule.bind_of_some (Rule.opt_of_none harguments),
    Rule.bind_of_some hname]
  rfl

end Word

end LevelGuard.Java

namespace LevelGuard.Project.Resolver

open Java Platform

theorem constructorName_ne {name : String} (h : Text.endsWith name "new" = true) :
    name ≠ constructorName := by
  rintro rfl
  exact absurd h (by decide +kernel)

theorem referencedName_of_endsWith {text : String} (h : Text.endsWith text "new" = true) :
    referencedName text = constructorName := if_pos h

/-- A reference is looked up as a method, under the name that it was given when read. -/
theorem reference?_methodRef {R : Resolver} {L : Locals} {target : Expr} {owner : String}
    (howner : R.ownerOf? L target = some owner) (span : Span) {name : String} (hname : name ≠ "new") :
    R.reference? L (.methodRef span target name) = R.findMember? owner name .method none := by
  simp only [reference?, howner, Option.bind_some, if_neg hname]

/-- No constructor, and no method with another name, is the symbol of the name of
constructors looked up as a method. -/
theorem abbreviated?_ne_findMember? {R : Resolver} {owner name : String} {r : Resolved}
    (hname : Text.endsWith name "new" = true) (h : R.abbreviated? owner name = some r) :
    R.findMember? owner constructorName .method none ≠ some r := by
  intro hfound
  obtain ⟨found, -, hdeclaring⟩ := declaring_of_findMember? hfound
  unfold abbreviated? at h
  split at h
  · rw [declaring_of_constructor? h] at hdeclaring
    cases hdeclaring
  · obtain ⟨other, -, hother⟩ := declaring_of_findMember? h
    rw [hdeclaring] at hother
    exact constructorName_ne hname (congrArg Symbol.member hother).symm

/-- A reference is read wherever two colons and a word follow a target, and is then looked
up in the type that the target denotes. It means what it abbreviates if its word does not
end in `new`. Otherwise it is the method with the name of constructors that is looked up,
whatever the word: this is what the reference abbreviates only if neither is found, and
demands the level of the constructor if the type records one itself. -/
theorem methodReference_resolves (R : Resolver) (L : Locals) (g : Grammar) (start : Mark)
    {target : Expr} {owner : String} (howner : R.ownerOf? L target = some owner)
    {colons word : Token} (hcolons : colons.is "::" = true) (hword : word.kind = .word)
    (rest : List Token) (left : Nat) (last : Mark) :
    ∃ e s, extension g start target ⟨colons :: word :: rest, left, last⟩ = some (⟨e, false⟩, s) ∧
      methodReference g start target ⟨colons :: word :: rest, left, last⟩ = some (⟨e, false⟩, s) ∧
      s.rest = rest ∧
      (Text.endsWith word.text "new" = false → R.reference? L e = R.abbreviated? owner word.text) ∧
      (Text.endsWith word.text "new" = true →
        R.reference? L e = R.findMember? owner constructorName .method none ∧
        (R.reference? L e = R.abbreviated? owner word.text ↔
          R.reference? L e = none ∧ R.abbreviated? owner word.text = none)) ∧
      (word.text = "new" → R.recordsConstructor owner = true →
        ∃ r c, R.reference? L e = some r ∧ R.constructor? owner none = some c ∧
          r.level? = c.level? ∧ r.declaring = .method owner constructorName) := by
  have hread := methodReference_word g start target hcolons hword rest left last
  have hconstructor : Text.endsWith word.text "new" = true →
      R.reference? L (.methodRef (start.spanTo word.stop) target (referencedName word.text)) =
        R.findMember? owner constructorName .method none := by
    intro hnew
    rw [referencedName_of_endsWith hnew]
    exact reference?_methodRef howner _ (by decide)
  refine ⟨_, _, (extension_colons g start target hcolons _ _ _).trans hread, hread, rfl, ?_, ?_, ?_⟩
  · intro hnew
    have hne : word.text ≠ "new" := by
      intro h
      rw [h] at hnew
      exact absurd hnew (by decide +kernel)
    have hname : referencedName word.text = word.text := if_neg (by simp [hnew])
    rw [hname, abbreviated?, if_neg hne]
    exact reference?_methodRef howner _ hne
  · intro hnew
    refine ⟨hconstructor hnew, ?_, fun h => h.1.trans h.2.symm⟩
    intro h
    rw [h, and_self]
    cases hmeant : R.abbreviated? owner word.text with
    | none => rfl
    | some r =>
      rw [hconstructor hnew, hmeant] at h
      exact absurd h (abbreviated?_ne_findMember? hnew hmeant)
  · intro hword hrecords
    obtain ⟨r, c, hr, hc, hlevel⟩ := level?_of_recordsConstructor hrecords
    refine ⟨r, c, ?_, hc, hlevel, declaring_of_declaredIn? hr⟩
    rw [hconstructor (by rw [hword]; decide +kernel)]
    exact findMember?_of_declaredIn? hr

/-- A class that records a method only, and one that records a constructor. -/
def makersCatalog : Catalog :=
  .ofClasses
    [ApiClass.addMethod { name := "p.Api", since := 19 } "renew" ⟨0, 21, none⟩,
      ApiClass.addMethod { name := "p.Made", since := 1 } constructorName ⟨0, 23, none⟩]

/-- How references are resolved in an outermost class of a file. -/
def makersResolver (u : CompilationUnit) (name : String) : Resolver :=
  .ofScope makersCatalog (.inside (.ofUnits makersCatalog [u]) u name)

/-- `p.Made::new` demands the level of the constructor. -/
theorem methodReference_resolves_made :
    ∃ r s, extension .bare default (.fieldAccess {} (.name {} "p") "Made")
        ⟨[⟨.punctuation, "::", default, default⟩, ⟨.word, "new", default, default⟩], 2, default⟩ =
        some (r, s) ∧
      ((makersResolver ⟨"T.java", none, [], []⟩ "T").reference? .empty r.expr).map (·.level?) =
        some (some 23) := by
  have howner : (makersResolver ⟨"T.java", none, [], []⟩ "T").ownerOf? .empty
      (.fieldAccess {} (.name {} "p") "Made") = some "p.Made" := by
    decide +kernel
  have hrecords : (makersResolver ⟨"T.java", none, [], []⟩ "T").recordsConstructor "p.Made" = true := by
    decide +kernel
  have hconstructor : ((makersResolver ⟨"T.java", none, [], []⟩ "T").constructor? "p.Made" none).map
      (·.level?) = some (some 23) := by
    decide +kernel
  have hcolons : (⟨.punctuation, "::", default, default⟩ : Token).is "::" = true := rfl
  have hword : (⟨.word, "new", default, default⟩ : Token).kind = .word := rfl
  obtain ⟨e, s, hread, -, -, -, -, hnew⟩ :=
    methodReference_resolves _ .empty .bare default howner
      hcolons hword [] 2 default
  obtain ⟨r, c, hr, hc, hlevel, -⟩ := hnew rfl hrecords
  refine ⟨_, s, hread, ?_⟩
  rw [hc, Option.map_some, ← hlevel] at hconstructor
  rw [hr, Option.map_some, hconstructor]

/-- The text of a file with a reference to the constructor and one to the method of the
class that records no constructor. -/
def makersText : String := "class T \x7b Object a = p.Api::new; Object b = p.Api::renew; \x7d"

/-- Neither reference is resolved, although making an object demands the level of the class
and the method is there. -/
theorem references_ending_in_new_unresolved : ∃ u, readUnit? "T.java" makersText = some u ∧
    ((u.types.flatMap (·.fields)).filterMap (·.init)).map ((makersResolver u "T").reference? .empty) =
      [none, none] ∧
    ((makersResolver u "T").abbreviated? "p.Api" "new").map (·.level?) = some (some 19) ∧
    ((makersResolver u "T").abbreviated? "p.Api" "renew").map (·.level?) = some (some 21) :=
  exists_readUnit? String.toList_ofList (by decide +kernel)

end LevelGuard.Project.Resolver
