import LevelGuard.Data.Basic
import LevelGuard.Proofs.Coverage
import LevelGuard.Proofs.PlainGraphs

/-!
# Declarations that are the same up to annotations

Two pieces of syntax with the same plain form have the same declarations, one after
another, and differ in the annotations of these alone. Here we follow a mark: the one
declaration that has other annotations, if there is one.
-/
namespace LevelGuard

namespace Java

def declared (nodes : List Node) : List Declaration :=
  nodes.filterMap fun
    | .declaration d => some d
    | _ => none

/-- The types and members of a file, each before those inside it. -/
def CompilationUnit.declarations (u : CompilationUnit) : List Declaration := declared u.nodes

/-- The declarations have the same annotations, one after another, except that the first
list may have `D` where the second has `D'`. -/
inductive Marked (D D' : Declaration) : Bool → List Declaration → List Declaration → Prop
  | nil : Marked D D' false [] []
  | same {marked : Bool} {E E' : Declaration} {l l' : List Declaration} :
    E.annotations = E'.annotations → Marked D D' marked l l' →
      Marked D D' marked (E :: l) (E' :: l')
  | here {l l' : List Declaration} : Marked D D' false l l' → Marked D D' true (D :: l) (D' :: l')

namespace Marked

variable {D D' : Declaration} {marked : Bool}

theorem of_map_eq {l l' : List Declaration}
    (h : l.map Declaration.annotations = l'.map Declaration.annotations) :
    Marked D D' false l l' := by
  induction l generalizing l' with
  | nil =>
    obtain rfl := List.map_eq_nil_iff.mp h.symm
    exact .nil
  | cons E l ih =>
    cases l' with
    | nil => cases h
    | cons E' l' =>
      obtain ⟨hE, hl⟩ := List.cons.inj h
      exact .same hE (ih hl)

theorem of_split {before after before' after' : List Declaration}
    (hbefore : before.map Declaration.annotations = before'.map Declaration.annotations)
    (hafter : after.map Declaration.annotations = after'.map Declaration.annotations) :
    Marked D D' true (before ++ D :: after) (before' ++ D' :: after') := by
  induction before generalizing before' with
  | nil =>
    obtain rfl := List.map_eq_nil_iff.mp hbefore.symm
    exact .here (of_map_eq hafter)
  | cons E before ih =>
    cases before' with
    | nil => cases hbefore
    | cons E' before' =>
      obtain ⟨hE, hbefore⟩ := List.cons.inj hbefore
      exact .same hE (ih hbefore)

/-- The mark is in one of two parts at most. -/
theorem of_append {l₁ l₂ l₁' l₂' : List Declaration} (hlength : l₁.length = l₁'.length)
    (h : Marked D D' marked (l₁ ++ l₂) (l₁' ++ l₂')) :
    ∃ m₁ m₂, Marked D D' m₁ l₁ l₁' ∧ Marked D D' m₂ l₂ l₂' ∧ marked = (m₁ || m₂) ∧
      (m₁ && m₂) = false := by
  induction l₁ generalizing l₁' marked with
  | nil =>
    obtain rfl := List.length_eq_zero_iff.mp hlength.symm
    exact ⟨false, marked, .nil, h, rfl, rfl⟩
  | cons E l₁ ih =>
    cases l₁' with
    | nil => cases hlength
    | cons E' l₁' =>
      have htails := Nat.succ.inj hlength
      cases h with
      | same hE h =>
        obtain ⟨m₁, m₂, h₁, h₂, hm, hone⟩ := ih htails h
        exact ⟨m₁, m₂, .same hE h₁, h₂, hm, hone⟩
      | here h =>
        obtain ⟨m₁, m₂, h₁, h₂, hm, -⟩ := ih htails h
        obtain ⟨rfl, rfl⟩ := Bool.or_eq_false_iff.mp hm.symm
        exact ⟨true, false, .here h₁, h₂, rfl, rfl⟩

end Marked

end Java

namespace Check

open Java Project LevelGuard.Flow

def eventDeclared : Event → List Declaration
  | .lambda params body => declared (Code.ofLambda params body).nodes
  | .classBody d => declared (declNodes d)
  | _ => []

def insideDeclared (m : Member) : List Declaration :=
  ((Code.ofMember? m).toList.flatMap fun c => declared c.nodes) ++
    (memberTypes m).flatMap fun d => declared (declNodes d)

section Declared

theorem declared_append (nodes nodes' : List Node) :
    declared (nodes ++ nodes') = declared nodes ++ declared nodes' := List.filterMap_append

theorem declared_flatMap {α : Type} (l : List α) (f : α → List Node) :
    declared (l.flatMap f) = l.flatMap fun a => declared (f a) := List.filterMap_flatMap

def Subject.declaration? : Subject → Option Declaration
  | .declaration d => some d
  | .event _ => none

theorem declared_eq_filterMap (nodes : List Node) :
    declared nodes = (subjectsOf nodes).filterMap Subject.declaration? := by
  induction nodes with
  | nil => rfl
  | cons node nodes ih =>
    rw [subjectsOf_cons, List.filterMap_append, ← ih]
    cases node with
    | expr e => cases e <;> rfl
    | label name selector => rfl
    | stmt st =>
      cases st with
      | tryCatch s withResources => cases withResources <;> rfl
      | _ => rfl
    | switchCase c => rfl
    | clause c =>
      have hnone : (nodeSubjects (.clause c)).filterMap Subject.declaration? = [] := by
        simp [nodeSubjects, Subject.declaration?]
      rw [hnone]
      rfl
    | declaration d => rfl

theorem declared_code (c : Code) :
    declared c.nodes = c.sites.flatMap fun s => eventDeclared s.event := by
  rw [declared_eq_filterMap, (covers_code c).subjects, sitesSubjects, List.filterMap_flatMap]
  refine List.flatMap_congr fun s _ => ?_
  cases s.event with
  | lambda params body => exact (declared_eq_filterMap _).symm
  | classBody d => exact (declared_eq_filterMap _).symm
  | _ => rfl

theorem declared_member (m : Member) :
    declared (membersNodes [m]) = .member m :: insideDeclared m := by
  rw [membersNodes_singleton]
  refine congrArg (_ :: ·) ?_
  change declared (_ ++ _) = _
  rw [declared_append, declared_flatMap, getD_map_eq_flatMap, declared_flatMap]
  rfl

theorem declared_type (d : TypeDecl) : declared (declNodes d) =
    .type d :: d.members.flatMap fun m => .member m :: insideDeclared m := by
  have hnodes : declNodes d = .declaration (.type d) :: membersNodes d.members := by
    cases d
    rfl
  simp only [hnodes, ← declared_member, ← declared_flatMap, ← membersNodes_eq_flatMap]
  rfl

end Declared

def Place.plain (P : Place) : Place := { P with resolver := P.resolver.plain }

def Inner.plain : Inner → Inner
  | .lambda P c => .lambda P.plain c.plain
  | .type locals d => .type locals (plainDecl d)

def Inner.declarations : Inner → List Declaration
  | .lambda _ c => declared c.nodes
  | .type _ d => declared (declNodes d)

section Lengths

/-- The plain form of what starts at a site, up to a depth, has as many declarations. -/
structure CountsTo (n : Nat) : Prop where
  code : ∀ c : Code, c.depth < n → (declared c.plain.nodes).length = (declared c.nodes).length
  type : ∀ d : TypeDecl, declDepth d ≤ n →
    (declared (declNodes (plainDecl d))).length = (declared (declNodes d)).length

variable {n : Nat}

theorem sites_plain (c : Code) : c.plain.sites = c.sites.map Site.plain := by
  rw [← c.plain.graph_sites {}, ← c.graph_sites {}, Code.graph_plain, List.map_map, Graph.plain,
    List.map_map]
  rfl

theorem members_plain (d : TypeDecl) : (plainDecl d).members = d.members.map plainMember := by
  cases d
  exact plainMembers_eq_map _

theorem memberTypes_plain (m : Member) :
    memberTypes (plainMember m) = (memberTypes m).map plainDecl := by
  rcases m with ⟨⟨⟩⟩ | ⟨⟨⟩⟩ | _ | _ | ⟨⟨_, _, _, _ | _, _⟩⟩ <;> rfl

theorem length_flatMap_congr {α : Type} {l : List α} {f g : α → List Declaration}
    (h : ∀ a ∈ l, (f a).length = (g a).length) : (l.flatMap f).length = (l.flatMap g).length := by
  rw [List.length_flatMap, List.length_flatMap, List.map_congr_left h]

namespace CountsTo

theorem event (h : CountsTo n) {event : Event} (hevent : eventDepth event ≤ n) :
    (eventDeclared event.plain).length = (eventDeclared event).length := by
  cases event with
  | lambda params body =>
    rw [Event.plain, eventDeclared, Code.ofLambda_plain]
    exact h.code _ hevent
  | classBody d => exact h.type d hevent
  | _ => rfl

theorem ofCode (h : CountsTo n) {c : Code} (hc : c.depth ≤ n) :
    (declared c.plain.nodes).length = (declared c.nodes).length := by
  rw [declared_code, declared_code, sites_plain, List.flatMap_map]
  refine length_flatMap_congr fun s hs => h.event ?_
  exact Nat.le_trans (eventDepth_le_depth hs) hc

theorem inside (h : CountsTo n) {m : Member} (hm : memberDepth m ≤ n) :
    (insideDeclared (plainMember m)).length = (insideDeclared m).length := by
  unfold insideDeclared
  rw [List.length_append, List.length_append, memberTypes_plain, List.flatMap_map,
    Code.ofMember?_plain]
  congr 1
  · rw [Option.toList_map, List.flatMap_map]
    refine length_flatMap_congr fun c hc => h.ofCode ?_
    exact Nat.le_trans (depth_ofMember?_le (Option.mem_toList.mp hc)) hm
  · refine length_flatMap_congr fun d hd => h.type d ?_
    exact Nat.le_trans (declDepth_le_memberDepth hd) hm

theorem ofType (h : CountsTo n) {d : TypeDecl} (hd : declDepth d ≤ n + 1) :
    (declared (declNodes (plainDecl d))).length = (declared (declNodes d)).length := by
  have hmembers : membersDepth d.members ≤ n := by
    rw [declDepth_eq] at hd
    exact Nat.le_of_succ_le_succ hd
  rw [declared_type, declared_type, members_plain, List.flatMap_map, List.length_cons,
    List.length_cons]
  refine congrArg (· + 1) (length_flatMap_congr fun m hm => ?_)
  rw [List.length_cons, List.length_cons, h.inside (Nat.le_trans (memberDepth_le hm) hmembers)]

end CountsTo

theorem countsTo (n : Nat) : CountsTo n := by
  induction n with
  | zero =>
    refine ⟨fun c hc => absurd hc (Nat.not_lt_zero _), fun d hd => ?_⟩
    rw [declDepth_eq] at hd
    cases hd
  | succ n ih => exact ⟨fun c hc => ih.ofCode (Nat.le_of_lt_succ hc), fun d hd => ih.ofType hd⟩

theorem length_eventDeclared {event event' : Event} (h : event.plain = event'.plain) :
    (eventDeclared event).length = (eventDeclared event').length := by
  rw [← (countsTo _).event (Nat.le_refl (eventDepth event)),
    ← (countsTo _).event (Nat.le_refl (eventDepth event')), h]

theorem length_declared_type {d d' : TypeDecl} (h : plainDecl d = plainDecl d') :
    (declared (declNodes d)).length = (declared (declNodes d')).length := by
  rw [← (countsTo _).type d (Nat.le_refl _), ← (countsTo _).type d' (Nat.le_refl _), h]

theorem length_declared_code {k k' : Code} (h : k.plain = k'.plain) :
    (declared k.nodes).length = (declared k'.nodes).length := by
  rw [← (countsTo _).ofCode (Nat.le_refl k.depth), ← (countsTo _).ofCode (Nat.le_refl k'.depth), h]

theorem length_flatMap_of_map_eq {α β : Type} {l l' : List α} {plain : α → β}
    {declarations : α → List Declaration} (hplain : l.map plain = l'.map plain)
    (hlength : ∀ a a', plain a = plain a' → (declarations a).length = (declarations a').length) :
    (l.flatMap declarations).length = (l'.flatMap declarations).length := by
  induction l generalizing l' with
  | nil => rw [List.map_eq_nil_iff.mp hplain.symm]
  | cons a l ih =>
    cases l' with
    | nil => cases hplain
    | cons a' l' =>
      obtain ⟨ha, hl⟩ := List.cons.inj hplain
      rw [List.flatMap_cons, List.flatMap_cons, List.length_append, List.length_append,
        hlength a a' ha, ih hl]

theorem length_insideDeclared {m m' : Member} (h : plainMember m = plainMember m') :
    (insideDeclared m).length = (insideDeclared m').length := by
  rw [← (countsTo _).inside (Nat.le_refl (memberDepth m)),
    ← (countsTo _).inside (Nat.le_refl (memberDepth m')), h]

end Lengths

end Check

end LevelGuard
