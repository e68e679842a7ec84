import Mathlib.Data.List.Basic
import LevelGuard.Proofs.LoweringSteps
import LevelGuard.Proofs.Subjects
import LevelGuard.Proofs.Visits

/-!
# The depth of a check

The code that begins at a site of some code is less deep than this code, so the depth of a
file is enough for all of its check: to allow more adds no step.
-/
namespace LevelGuard

namespace Flow

open Java Project

/-- Code that begins at a site of some code is not deeper than that code. -/
theorem eventDepth_le_depth {c : Code} {s : Site} (hs : s ∈ c.sites) :
    eventDepth s.event ≤ c.depth :=
  (Check.covers_code c).below s hs

theorem mem_sites_of_sitesOf {R : Recognizer} {c : Code} {s : Site} {b : Nat}
    (hs : s ∈ (c.graph R).sitesOf b) : s ∈ c.sites := by
  obtain ⟨⟨b', s'⟩, hmem, hselect⟩ := List.mem_filterMap.mp hs
  obtain ⟨-, hs'⟩ := Option.ite_none_right_eq_some.mp hselect
  rw [← Option.some.inj hs', ← c.graph_sites R]
  exact List.mem_map_of_mem hmem

end Flow

namespace Check

open Java Project LevelGuard.Flow

/-- How deep lambdas and classes are nested in a member. -/
def memberDepth (m : Member) : Nat := membersDepth [m]

theorem membersDepth_cons (m : Member) (rest : List Member) :
    membersDepth (m :: rest) = max (memberDepth m) (membersDepth rest) := by
  rcases m with ⟨⟨⟩⟩ | ⟨⟨⟩⟩ | _ | _ | ⟨⟨⟩⟩ <;> simp [memberDepth, membersDepth]

theorem memberDepth_le {m : Member} {members : List Member} (h : m ∈ members) :
    memberDepth m ≤ membersDepth members := by
  induction members with
  | nil => cases h
  | cons m' rest ih =>
    rw [membersDepth_cons]
    rcases List.mem_cons.mp h with rfl | h
    · exact Nat.le_max_left _ _
    · exact Nat.le_trans (ih h) (Nat.le_max_right _ _)

theorem depth_ofMember?_le {m : Member} {c : Code} (h : Code.ofMember? m = some c) :
    c.depth ≤ memberDepth m := by
  rcases m with ⟨⟨_, _, _, _, _, _, _, _, body, _, _⟩⟩ | ⟨⟨_, _, _, _, _, _, init, _⟩⟩ | d |
    ⟨_, ⟨stmts, _⟩⟩ | ⟨⟨_, _, args, body, _⟩⟩
  · obtain ⟨⟨stmts, _⟩, rfl, rfl⟩ := Option.map_eq_some_iff.mp h
    simp [memberDepth, membersDepth, blockDepth?, blockDepth, Code.depth]
  · obtain ⟨e, rfl, rfl⟩ := Option.map_eq_some_iff.mp h
    simp [memberDepth, membersDepth, exprDepth?, exprsDepth, Code.depth]
  · cases h
  · cases h
    simp [memberDepth, membersDepth, blockDepth, Code.depth]
  · cases h
    simp only [memberDepth, membersDepth, Code.depth]
    omega

theorem declDepth_le_memberDepth {m : Member} {d : TypeDecl} (h : d ∈ memberTypes m) :
    declDepth d ≤ memberDepth m := by
  rcases m with _ | _ | d' | _ | ⟨⟨_, _, args, body, _⟩⟩
  · cases h
  · cases h
  · obtain rfl := List.mem_singleton.mp h
    simp [memberDepth, membersDepth]
  · cases h
  · obtain rfl : body = some d := Option.mem_toList.mp h
    simp only [memberDepth, membersDepth, declDepth?]
    omega

/-- How often the check of inner code starts anew. -/
def Inner.depth : Inner → Nat
  | .lambda _ c => c.depth + 1
  | .type _ d => declDepth d

variable {inner inner' : InnerVisits} {n : Nat}

/-- The steps of the two agree on inner code up to a depth. -/
def AgreeTo (n : Nat) (inner inner' : InnerVisits) : Prop :=
  ∀ F i, i.depth ≤ n → inner F i = inner' F i

theorem eventVisits_congr (h : AgreeTo n inner inner') (P : Place) (F : Facts) {event : Event}
    (hevent : eventDepth event ≤ n) :
    eventVisits inner P F event = eventVisits inner' P F event := by
  unfold eventVisits
  cases event with
  | lambda params body => exact congrArg _ (h _ _ hevent)
  | classBody d => exact congrArg _ (h _ _ hevent)
  | _ => rfl

theorem codeVisits_congr (h : AgreeTo n inner inner') (P : Place) (seed : Facts) {c : Code}
    (hc : c.depth ≤ n) : codeVisits inner P seed c = codeVisits inner' P seed c := by
  unfold codeVisits graphVisits
  refine List.flatMap_congr fun b _ => List.flatMap_congr fun s hs => ?_
  exact eventVisits_congr h _ _
    (Nat.le_trans (eventDepth_le_depth (mem_sites_of_sitesOf hs)) hc)

theorem memberVisits_congr (h : AgreeTo n inner inner') (P : Place) (F : Facts) (owner : String)
    {m : Member} (hm : memberDepth m ≤ n) :
    memberVisits inner P F owner m = memberVisits inner' P F owner m := by
  have htypes : ∀ G, ((memberTypes m).flatMap fun d => inner G (.type (innerLocals P m) d)) =
      (memberTypes m).flatMap fun d => inner' G (.type (innerLocals P m) d) := fun G =>
    List.flatMap_congr fun d hd => h G _ (Nat.le_trans (declDepth_le_memberDepth hd) hm)
  unfold memberVisits insideVisits
  rw [htypes]
  cases hc : Code.ofMember? m with
  | none => rfl
  | some c =>
    simp only [Option.map_some, Option.getD_some,
      codeVisits_congr h P (memberFacts F m) (Nat.le_trans (depth_ofMember?_le hc) hm)]

theorem declDepth_eq (d : TypeDecl) : declDepth d = membersDepth d.members + 1 := by
  cases d
  rfl

theorem typeVisits_congr (h : AgreeTo n inner inner') (K : Platform.Catalog) (I : Index)
    (u : CompilationUnit) (outer : Facts) (locals : Locals) {d : TypeDecl}
    (hd : declDepth d ≤ n + 1) :
    typeVisits inner K I u outer locals d = typeVisits inner' K I u outer locals d := by
  have hmembers : membersDepth d.members ≤ n := by
    rw [declDepth_eq] at hd
    exact Nat.le_of_succ_le_succ hd
  unfold typeVisits
  refine congrArg _ (List.flatMap_congr fun m hm => ?_)
  exact memberVisits_congr h _ _ _ (Nat.le_trans (memberDepth_le hm) hmembers)

/-- More depth than that of the code adds no step. -/
theorem innerVisits_eq_of_depth_le (K : Platform.Catalog) (I : Index) (u : CompilationUnit)
    {m : Nat} (hnm : n ≤ m) : AgreeTo n (innerVisits K I u n) (innerVisits K I u m) := by
  induction n generalizing m with
  | zero =>
    intro F i hi
    cases i with
    | lambda P c => cases hi
    | type locals d =>
      rw [Inner.depth, declDepth_eq] at hi
      cases hi
  | succ n ih =>
    obtain ⟨m, rfl⟩ : ∃ k, m = k + 1 := ⟨m - 1, by omega⟩
    have h := ih (Nat.le_of_succ_le_succ hnm)
    intro F i hi
    cases i with
    | lambda P c => exact codeVisits_congr h P F (Nat.le_of_succ_le_succ hi)
    | type locals d => exact typeVisits_congr h K I u F locals hi

theorem declDepth_le_depth {u : CompilationUnit} {d : TypeDecl} (h : d ∈ u.types) :
    declDepth d ≤ u.depth := by
  unfold CompilationUnit.depth
  generalize u.types = types at h
  induction types with
  | nil => cases h
  | cons d' types ih =>
    rw [List.map_cons, List.foldr_cons]
    rcases List.mem_cons.mp h with rfl | h
    · exact Nat.le_max_left _ _
    · exact Nat.le_trans (ih h) (Nat.le_max_right _ _)

end Check

end LevelGuard
