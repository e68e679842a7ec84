import Mathlib.Data.List.Perm.Basic
import LevelGuard.Proofs.Depths
import LevelGuard.Proofs.LevelSoundness

/-!
# A check leaves nothing out

The check of a file and the syntax tree are walked in different ways: the check goes by
the blocks of graphs and starts anew for each lambda and each class, as deep as the depth
of the file allows. Still every reference, every type that is named where a check looks
at it, every statement with resources, every type and every member comes up exactly once.
-/
namespace LevelGuard

namespace Check

open Java Project LevelGuard.Flow

/-- What a step checks. The body of a class is a type of its own. -/
def Visit.subject? : Visit → Option Subject
  | .type _ _ d => some (.declaration (.type d))
  | .member _ _ _ m => some (.declaration (.member m))
  | .site _ _ (.classBody _) => none
  | .site _ _ event => some (.event event)

section Blocks

/-- To go through the numbers below a bound and take the site at its own number takes it once. -/
theorem flatMap_range_ite {b n : Nat} (h : b < n) (s : Site) :
    (List.range n).flatMap (fun b' => if b = b' then [s] else []) = [s] := by
  induction n with
  | zero => cases h
  | succ n ih =>
    rw [List.range_succ, List.flatMap_append, List.flatMap_singleton]
    rcases Nat.lt_succ_iff_lt_or_eq.mp h with hlt | rfl
    · rw [ih hlt, if_neg (Nat.ne_of_lt hlt), List.append_nil]
    · have hbelow : (List.range b).flatMap (fun b' => if b = b' then [s] else []) = [] := by
        refine List.flatMap_eq_nil_iff.mpr fun b' hb' => if_neg ?_
        exact Nat.ne_of_gt (List.mem_range.mp hb')
      rw [hbelow, if_pos rfl, List.nil_append]

/-- The sites of a block among sites with their blocks. -/
def sitesAt (b : Nat) (sites : List (Nat × Site)) : List Site :=
  sites.filterMap fun (b', s) => if b' = b then some s else none

theorem sitesAt_cons (b b' : Nat) (s : Site) (sites : List (Nat × Site)) :
    sitesAt b ((b', s) :: sites) = (if b' = b then [s] else []) ++ sitesAt b sites := by
  by_cases hb : b' = b <;> simp [sitesAt, hb]

/-- The blocks of a graph have each of its sites once. -/
theorem sitesOf_perm {G : Graph} (h : ∀ p ∈ G.sites, p.1 < G.size) :
    ((List.range G.size).flatMap G.sitesOf).Perm (G.sites.map Prod.snd) := by
  change ((List.range G.size).flatMap fun b => sitesAt b G.sites).Perm _
  generalize G.sites = sites at h
  induction sites with
  | nil => simp [sitesAt]
  | cons p sites ih =>
    obtain ⟨b, s⟩ := p
    obtain ⟨hp, hrest⟩ := List.forall_mem_cons.mp h
    simp only [sitesAt_cons]
    refine (List.flatMap_append_perm _ _ _).symm.trans ?_
    rw [flatMap_range_ite hp, List.map_cons, List.singleton_append]
    exact (ih hrest).cons _

end Blocks

/-- What is checked in inner code. -/
def Inner.subjects : Inner → List Subject
  | .lambda _ c => subjectsOf c.nodes
  | .type _ d => subjectsOf (declNodes d)

def visitSubjects (visits : List Visit) : List Subject := visits.filterMap Visit.subject?

/-- The steps check inner code up to a depth, all of it and nothing twice. -/
def CoversTo (n : Nat) (inner : InnerVisits) : Prop :=
  ∀ F i, i.depth ≤ n → (visitSubjects (inner F i)).Perm i.subjects

section Cover

variable {inner : InnerVisits} {n : Nat}

theorem visitSubjects_flatMap {α : Type} (l : List α) (f : α → List Visit) :
    visitSubjects (l.flatMap f) = l.flatMap fun a => visitSubjects (f a) :=
  List.filterMap_flatMap

theorem eventVisits_perm (h : CoversTo n inner) (P : Place) (F : Facts) {event : Event}
    (hevent : eventDepth event ≤ n) :
    (visitSubjects (eventVisits inner P F event)).Perm (eventSubjects event) := by
  cases event with
  | lambda params body => exact (h _ (.lambda P (.ofLambda params body)) hevent).cons _
  | classBody d => exact h _ (.type P.locals d) hevent
  | _ => exact .refl _

theorem codeVisits_perm (h : CoversTo n inner) (P : Place) (seed : Facts) {c : Code}
    (hc : c.depth ≤ n) :
    (visitSubjects (codeVisits inner P seed c)).Perm (subjectsOf c.nodes) := by
  rw [(covers_code c).subjects, ← c.graph_sites (P.inside c).recognizer]
  unfold codeVisits graphVisits
  simp only [visitSubjects_flatMap]
  generalize hG : c.graph (P.inside c).recognizer = G
  have hblocks : ∀ p ∈ G.sites, p.1 < G.size := by
    subst hG
    exact fun p hp => (Code.sites_graph hp).1
  have hsite : ∀ b, ∀ s ∈ G.sitesOf b, (visitSubjects (eventVisits inner (P.inside c)
      (s.inside ((G.propagate seed).getD b seed)) s.event)).Perm (eventSubjects s.event) := by
    intro b s hs
    subst hG
    exact eventVisits_perm h _ _
      (Nat.le_trans (eventDepth_le_depth (mem_sites_of_sitesOf hs)) hc)
  calc (List.range G.size).flatMap _
    _ |>.Perm ((List.range G.size).flatMap fun b => sitesSubjects (G.sitesOf b)) :=
      .flatMap_left _ fun b _ => .flatMap_left _ (hsite b)
    _ |>.Perm (sitesSubjects ((List.range G.size).flatMap G.sitesOf)) := by
      unfold sitesSubjects
      rw [List.flatMap_assoc]
    _ |>.Perm (sitesSubjects (G.sites.map Prod.snd)) := (sitesOf_perm hblocks).flatMap_right _

theorem membersNodes_eq_flatMap (members : List Member) :
    membersNodes members = members.flatMap fun m => membersNodes [m] := by
  induction members with
  | nil => rfl
  | cons m members ih =>
    rw [List.flatMap_cons, ← ih]
    rcases m with ⟨⟨⟩⟩ | ⟨⟨⟩⟩ | _ | ⟨_, ⟨⟩⟩ | ⟨⟨⟩⟩ <;> simp [membersNodes]

/-- What is written in a member is its code and the types it declares by itself. -/
theorem membersNodes_singleton (m : Member) :
    membersNodes [m] = .declaration (.member m) ::
      (((Code.ofMember? m).map Code.nodes).getD [] ++ (memberTypes m).flatMap declNodes) := by
  rcases m with ⟨⟨_, _, _, _, _, _, _, _, _ | ⟨_, _⟩, _, _⟩⟩ | ⟨⟨_, _, _, _, _, _, _ | _, _⟩⟩ | d |
    ⟨_, ⟨_, _⟩⟩ | ⟨⟨_, _, _, _ | _, _⟩⟩ <;>
    simp [membersNodes, memberTypes, Code.ofMember?, Code.nodes, blockNodes?, exprNodes?,
      exprsNodes, declNodes?]

theorem memberVisits_perm (h : CoversTo n inner) (P : Place) (F : Facts) (owner : String)
    {m : Member} (hm : memberDepth m ≤ n) :
    (visitSubjects (memberVisits inner P F owner m)).Perm (subjectsOf (membersNodes [m])) := by
  have hcode : (visitSubjects (((Code.ofMember? m).map
      (codeVisits inner P (memberFacts F m))).getD [])).Perm
      (subjectsOf (((Code.ofMember? m).map Code.nodes).getD [])) := by
    cases hc : Code.ofMember? m with
    | none => exact .refl _
    | some c => exact codeVisits_perm h _ _ (Nat.le_trans (depth_ofMember?_le hc) hm)
  have htypes : (visitSubjects ((memberTypes m).flatMap fun d =>
      inner (memberFacts F m) (.type (innerLocals P m) d))).Perm
      (subjectsOf ((memberTypes m).flatMap declNodes)) := by
    rw [visitSubjects_flatMap, subjectsOf_flatMap]
    exact .flatMap_left _ fun d hd => h _ _ (Nat.le_trans (declDepth_le_memberDepth hd) hm)
  rw [membersNodes_singleton, subjectsOf_cons, subjectsOf_append]
  refine List.Perm.cons _ ?_
  rw [insideVisits, List.filterMap_append]
  exact hcode.append htypes

theorem typeVisits_perm (h : CoversTo n inner) (K : Platform.Catalog) (I : Index)
    (u : CompilationUnit) (outer : Facts) (locals : Locals) {d : TypeDecl}
    (hd : declDepth d ≤ n + 1) :
    (visitSubjects (typeVisits inner K I u outer locals d)).Perm (subjectsOf (declNodes d)) := by
  have hmembers : membersDepth d.members ≤ n := by
    rw [declDepth_eq] at hd
    exact Nat.le_of_succ_le_succ hd
  have hnodes : subjectsOf (declNodes d) =
      .declaration (.type d) :: subjectsOf (membersNodes d.members) := by
    cases d
    rfl
  rw [hnodes, membersNodes_eq_flatMap, subjectsOf_flatMap]
  unfold typeVisits
  refine List.Perm.cons _ ?_
  change (visitSubjects _).Perm _
  rw [visitSubjects_flatMap]
  refine .flatMap_left _ fun m hm => ?_
  exact memberVisits_perm h _ _ _ (Nat.le_trans (memberDepth_le hm) hmembers)

theorem coversTo_innerVisits (K : Platform.Catalog) (I : Index) (u : CompilationUnit) (n : Nat) :
    CoversTo n (innerVisits K I u n) := by
  induction n with
  | zero =>
    intro F i hi
    cases i with
    | lambda P c => cases hi
    | type locals d =>
      rw [Inner.depth, declDepth_eq] at hi
      cases hi
  | succ n ih =>
    intro F i hi
    cases i with
    | lambda P c => exact codeVisits_perm ih P F (Nat.le_of_succ_le_succ hi)
    | type locals d => exact typeVisits_perm ih K I u F locals hi

end Cover

end Check

end LevelGuard
