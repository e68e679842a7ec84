import LevelGuard.Check.Unit
import LevelGuard.Proofs.Devices
import LevelGuard.Proofs.PassBound

/-!
# Demands for a level

A use of a symbol that demands a level is reported if a device without the level can
get to it, and it is not reported if a check of the level stands on every path to it.
The first holds because the facts at a block are true of every device that can take a
path to the block; the second because the facts at a block are the strongest solution,
so they keep what every path establishes.
-/
namespace LevelGuard

namespace Facts

def atLeast (v : Level) : Facts := { floor := some v }

theorem entails_atLeast {F : Facts} {v : Level} :
    F.Entails (atLeast v) ↔ F.bottom = true ∨ ∃ f, F.floor = some f ∧ v ≤ f := by
  cases hF : F.bottom with
  | true => exact ⟨fun _ => .inl rfl, fun _ => .of_bottom hF⟩
  | false =>
    refine ⟨fun h => .inr ((h.includes hF).floor v rfl), ?_⟩
    rintro (h | ⟨f, hf, hle⟩)
    · cases h
    · refine .inr ⟨rfl, { (entails_top F).includes hF with floor := fun x hx => ?_ }⟩
      cases hx
      exact ⟨f, hf, hle⟩

end Facts

namespace Flow

open Facts

/-- The edge alone establishes the level: its guard does, or it contradicts itself. -/
def Edge.Establishes (e : Edge) (v : Level) : Prop :=
  ∃ g, e.guard = some g ∧ ((top.assume g true).bottom = true ∨
    ∃ f, (top.assume g true).floor = some f ∧ v ≤ f)

theorem Edge.Establishes.along {e : Edge} {v : Level} (h : e.Establishes v) (F : Facts) :
    (Graph.along e F).Entails (atLeast v) := by
  obtain ⟨g, hg, hv⟩ := h
  have hassume := assume_mono (entails_top F) g true
  simp only [Graph.along, hg]
  exact hassume.trans (entails_atLeast.mpr hv)

namespace Graph

variable {G : Graph}

theorem along_allows {e : Edge} {F : Facts} {d : Device} (h : F.Allows d)
    (he : ∀ g, e.guard = some g → ∃ u, g.holds d u = true) : (along e F).Allows d := by
  unfold along
  cases hg : e.guard with
  | none => exact h
  | some g =>
    obtain ⟨u, hu⟩ := he g hg
    have hassume := h.assume u g
    rwa [hu] at hassume

/-- The facts at the end of a path are true of every device that can take the path. -/
theorem Solves.allows {seed : Facts} {X : Nat → Facts} (hX : G.Solves seed X) {d : Device}
    (hseed : seed.Allows d) {es : List Edge} {b : Nat} (hpath : G.Path G.entry es b)
    (hes : Passable d es) : (X b).Allows d := by
  induction hpath with
  | nil =>
    rw [hX.entry]
    exact hseed
  | @snoc es e hpath he ih =>
    have hsource := ih fun e' he' => hes e' (List.mem_append_left _ he')
    by_cases htarget : e.target = G.entry
    · rw [htarget, hX.entry]
      exact hseed
    · have halong := along_allows hsource (hes e (List.mem_append_right _ List.mem_cons_self))
      exact (hX.edge he ⟨es, hpath⟩ htarget).allows halong

/-- A level that is established on every path to a block is established at the block. -/
theorem firstPass_establishes (hG : G.Structured) (seed : Facts) {v : Level} {b : Nat}
    (hb : G.Reachable b)
    (hall : ∀ es, G.Path G.entry es b → ∃ e ∈ es, e.Establishes v) :
    (G.firstPass seed b).Entails (atLeast v) := by
  induction hn : G.order.idxOf b using Nat.strongRecOn generalizing b with
  | _ n ih =>
    subst hn
    have hne : b ≠ G.entry := by
      rintro rfl
      obtain ⟨e, he, _⟩ := hall [] .nil
      cases he
    refine ((firstPass_spec hG seed hb).2 hne).2 _ ?_
    rintro _ ⟨e, he, rfl, hreach, hlt, rfl⟩
    by_cases hestablishes : e.Establishes v
    · exact hestablishes.along _
    · refine (along_entails e _).trans (ih _ hlt hreach ?_ rfl)
      intro es hpath
      obtain ⟨e', he', hestablishes'⟩ := hall _ (hpath.snoc he)
      rcases List.mem_append.mp he' with he' | he'
      · exact ⟨e', he', hestablishes'⟩
      · rw [List.mem_singleton.mp he'] at hestablishes'
        exact absurd hestablishes' hestablishes

end Graph

/-- Handlers change nothing in the facts that a demand for a level looks at. -/
theorem Site.inside_of_excluded {s : Site} (F : Facts)
    (hs : ∀ g ∈ s.handlers, ∃ name, g = .excluded name) :
    (s.inside F).floor = F.floor ∧ (s.inside F).frame = F.frame := by
  unfold Site.inside
  generalize s.handlers = handlers at hs
  induction handlers generalizing F with
  | nil => exact ⟨rfl, rfl⟩
  | cons g gs ih =>
    obtain ⟨name, rfl⟩ := hs g List.mem_cons_self
    obtain ⟨hfloor, hframe⟩ := ih (F.assume (.excluded name) true)
      fun g hg => hs g (List.mem_cons_of_mem _ hg)
    rw [List.foldl_cons, hfloor, hframe]
    refine ⟨?_, assume_frame F _ true⟩
    cases hF : F.bottom <;> simp [Facts.assume, hF]

end Flow

namespace Check

open Java Project LevelGuard.Flow Facts

/-- The symbol at a place that stands for a symbol, and where it is reported. -/
def Place.symbol? (P : Place) : Event → Option (Resolved × Span)
  | .reference e => (P.resolver.reference? P.locals e).map (·, e.span)
  | .typeUse t => (P.resolver.typeUse? t).map (·, t.span)
  | .caseLabel label selector =>
    (P.resolver.caseLabel? P.locals label selector).map (·, label.span)
  | _ => none

def levelCategory (s : Resolved) : Category := if s.inlined then .inlinedApi else .newApi

namespace Setting

variable (C : Setting) (inner : InnerCheck) (P : Place)

theorem checkSymbol_subset_checkEvent {event : Event} {s : Resolved} {span : Span}
    (h : P.symbol? event = some (s, span)) (F : Facts) :
    C.checkSymbol F s span ⊆ C.checkEvent inner P F event := by
  cases event with
  | reference e =>
    obtain ⟨s', hs', heq⟩ := Option.map_eq_some_iff.mp h
    cases heq
    simp only [checkEvent, hs', Option.map_some, Option.getD_some, checkReference]
    exact List.subset_append_left _ _
  | typeUse t =>
    obtain ⟨s', hs', heq⟩ := Option.map_eq_some_iff.mp h
    cases heq
    simp only [checkEvent, hs', Option.map_some, Option.getD_some]
    exact List.Subset.refl _
  | caseLabel label selector =>
    obtain ⟨s', hs', heq⟩ := Option.map_eq_some_iff.mp h
    cases heq
    simp only [checkEvent, hs', Option.map_some, Option.getD_some]
    exact List.Subset.refl _
  | _ => cases h

theorem mem_checkGraph {seed : Facts} {G : Graph} {b : Nat} {site : Site}
    (hsite : (b, site) ∈ G.sites) (hb : b < G.size) {diagnostic : Diagnostic}
    (h : diagnostic ∈ C.checkSite inner P ((G.propagate seed).getD b seed) site) :
    diagnostic ∈ C.checkGraph inner P seed G := by
  refine List.mem_flatMap.mpr ⟨b, List.mem_range.mpr hb, ?_⟩
  refine List.mem_flatMap.mpr ⟨site, ?_, h⟩
  exact List.mem_filterMap.mpr ⟨(b, site), hsite, if_pos rfl⟩

/-- The finding for a symbol that demands a level, in a place with these facts. -/
def levelFinding (F : Facts) (s : Resolved) (v : Level) (span : Span) : Diagnostic :=
  C.finding span (levelCategory s)
    (s.display.kind.noun ++ C.levelClause F v ++ ": " ++ s.display.text)

theorem levelFinding_of_frame {F H : Facts} (h : F.frame = H.frame) (s : Resolved) (v : Level)
    (span : Span) : C.levelFinding F s v span = C.levelFinding H s v span := by
  have hdeclared : F.annotationFloor = H.annotationFloor := congrArg Prod.fst h
  unfold levelFinding levelClause reportedMin
  rw [hdeclared]

theorem levelFinding_mem_checkSymbol {F : Facts} {s : Resolved} {v : Level}
    (hv : Demand.version v ∈ s.demands) (span : Span)
    (hlacks : C.lacksLevel F (levelCategory s) v = true) :
    C.levelFinding F s v span ∈ C.checkSymbol F s span := by
  have hlevel : C.checkLevel F s v span = [C.levelFinding F s v span] := if_pos hlacks
  have hmem : C.levelFinding F s v span ∈ C.checkLevel F s v span := by simp [hlevel]
  exact List.mem_flatMap.mpr ⟨_, hv, hmem⟩

end Setting

end Check

namespace Project.Code

open LevelGuard.Flow LevelGuard.Flow.Graph

/-- The facts that the blocks of a body are checked with, at a block that a device allowed
by the seed can get to. -/
theorem getD_propagate_of_passable {R : Recognizer} {c : Code} {seed : Facts} {d : Device}
    (hseed : seed.Allows d) {es : List Edge} {b : Nat}
    (hpath : (c.graph R).Path (c.graph R).entry es b) (hes : Passable d es) :
    ((c.graph R).propagate seed).getD b seed = (c.graph R).firstPass seed b ∧
      ((c.graph R).firstPass seed b).Allows d ∧
      ((c.graph R).firstPass seed b).frame = seed.frame := by
  have hG := structured_graph R c
  have hb : (c.graph R).Reachable b := ⟨es, hpath⟩
  have hallows := (firstPass_solves hG seed).allows hseed hpath hes
  refine ⟨getD_propagate hG seed hb hallows.consistent, hallows, ?_⟩
  exact framed_firstPass seed b _ (firstPass_spec hG seed hb).1

theorem sites_graph {R : Recognizer} {c : Code} {s : Nat × Site} (hs : s ∈ (c.graph R).sites) :
    s.1 < (c.graph R).size ∧ ∀ g ∈ s.2.handlers, ∃ name, g = .excluded name := by
  unfold graph at hs ⊢
  cases hc : c.steps with
  | block b =>
    rw [hc] at hs
    exact sites_ofBuild (.lowerStmts R b.stmts) hs
  | exprs es =>
    rw [hc] at hs
    exact sites_ofBuild (.lowerExprs R es) hs

end Project.Code

namespace Check.Setting

open Java Project LevelGuard.Flow Facts

/-- A use of a symbol is reported if a device that the facts at the start allow, and that
the module runs on, can get to it without having the level the symbol demands. -/
theorem unguarded_use_reported (C : Setting) (inner : InnerCheck) (P : Place) (R : Recognizer)
    (c : Code) (seed : Facts) {b : Nat} {site : Site} (hsite : (b, site) ∈ (c.graph R).sites)
    {s : Resolved} {span : Span} (hsymbol : P.symbol? site.event = some (s, span))
    {v : Level} (hv : Demand.version v ∈ s.demands)
    {es : List Edge} (hpath : (c.graph R).Path (c.graph R).entry es b) {d : Device}
    (hmin : C.baseline.min ≤ d.level) (hlt : d.level < v) (hseed : seed.Allows d)
    (hes : Passable d es) (hopen : seed.isSuppressed (levelCategory s) = false) :
    C.levelFinding seed s v span ∈ C.checkGraph inner P seed (c.graph R) := by
  obtain ⟨hfacts, hallows, hframe⟩ := Code.getD_propagate_of_passable hseed hpath hes
  obtain ⟨hb, hhandlers⟩ := Code.sites_graph hsite
  obtain ⟨hfloor, hframe'⟩ := Site.inside_of_excluded ((c.graph R).firstPass seed b) hhandlers
  refine C.mem_checkGraph inner P hsite hb ?_
  rw [hfacts]
  refine C.checkSymbol_subset_checkEvent inner P hsymbol _ ?_
  have hsuppressed : (site.inside ((c.graph R).firstPass seed b)).suppressed = seed.suppressed :=
    congrArg (fun frame => frame.2.1) (hframe'.trans hframe)
  rw [← C.levelFinding_of_frame (hframe'.trans hframe)]
  refine C.levelFinding_mem_checkSymbol hv span ?_
  -- The device has what the facts say and what the baseline says, and still not the level.
  have heffective : (site.inside ((c.graph R).firstPass seed b)).effectiveFloor C.baseline.min < v := by
    refine Nat.lt_of_le_of_lt ?_ hlt
    unfold effectiveFloor raised
    rw [hfloor]
    cases hF : ((c.graph R).firstPass seed b).floor with
    | none => exact hmin
    | some f => exact Nat.max_le.mpr ⟨hallows.floor f hF, hmin⟩
  unfold lacksLevel
  rw [isSuppressed, hsuppressed, ← isSuppressed, hopen]
  simpa using heffective

/-- One class, which the platform has from level 21 on. -/
def sampleCatalog : Platform.Catalog := .ofClasses [{ name := "p.Api", since := 21 }]

def sampleSetting : Setting :=
  ⟨⟨"T.java"⟩, sampleCatalog, .ofCatalog sampleCatalog, .ofRange 1 21⟩

def samplePlace : Place where
  resolver :=
    { catalog := sampleCatalog
      scope := ⟨.ofCatalog sampleCatalog, ⟨"T.java", none, [], []⟩, []⟩ }
  locals := .empty
  recognizer := {}

/-- The expression `flag ? p.Api.class : this`. -/
def sampleCode : Code where
  steps := .exprs [.conditional {} (.name {} "flag") (.classLit {} ⟨"p.Api", {}⟩) (.this {})]

/-- Where `flag` holds a guard. -/
def sampleRecognizer (g : Guard) : Recognizer := { flags := Table.empty.insert "flag" g }

def sampleGraph (g : Guard) : Graph := sampleCode.graph (sampleRecognizer g)

theorem sampleGraph_edges (g : Guard) : (sampleGraph g).edges =
    [⟨0, 2, .onTrue, some g⟩, ⟨0, 3, .onFalse, some g.negate⟩, ⟨2, 4, .flow, none⟩,
      ⟨3, 4, .flow, none⟩, ⟨4, 1, .flow, none⟩] := rfl

theorem sampleGraph_path (g : Guard) :
    (sampleGraph g).Path (sampleGraph g).entry [⟨0, 2, .onTrue, some g⟩] 2 := by
  have he : ⟨0, 2, .onTrue, some g⟩ ∈ (sampleGraph g).edges := List.mem_cons_self
  exact .snoc .nil he

theorem sampleGraph_passable {g : Guard} {d : Device} {u : Leaves} (h : g.holds d u = true) :
    Passable d [⟨0, 2, .onTrue, some g⟩] := by
  intro e he g' hg'
  rw [List.mem_singleton.mp he] at hg'
  cases hg'
  exact ⟨u, h⟩

theorem unguarded_use_reported_sample :
    sampleSetting.levelFinding .top (.plain (.type "p.Api") [.version 21]) 21 {} ∈
      sampleSetting.checkGraph (fun _ _ => []) samplePlace .top (sampleGraph (.atMost 20)) :=
  unguarded_use_reported sampleSetting (fun _ _ => []) samplePlace (sampleRecognizer (.atMost 20))
    sampleCode .top (List.Mem.tail _ (List.Mem.head _)) (by decide +kernel) (by decide)
    (sampleGraph_path _) (d := ⟨20, fun _ => false⟩) (by decide) (by decide)
    ⟨rfl, nofun, nofun, nofun⟩ (sampleGraph_passable (u := fun _ => false) (by decide)) (by decide)

/-- A demand for a level is met at a site if a check of the level stands on every path to
it, and some device that the facts at the start allow can get to it. -/
theorem dominated_use_accepted (C : Setting) (R : Recognizer) (c : Code) (seed : Facts)
    {b : Nat} {site : Site} (hsite : (b, site) ∈ (c.graph R).sites) {v : Level}
    (hall : ∀ es, (c.graph R).Path (c.graph R).entry es b → ∃ e ∈ es, e.Establishes v)
    {es : List Edge} (hpath : (c.graph R).Path (c.graph R).entry es b) {d : Device}
    (hseed : seed.Allows d) (hes : Passable d es) (s : Resolved) (span : Span) :
    C.checkLevel (site.inside (((c.graph R).propagate seed).getD b seed)) s v span = [] := by
  obtain ⟨hfacts, hallows, -⟩ := Code.getD_propagate_of_passable hseed hpath hes
  obtain ⟨-, hhandlers⟩ := Code.sites_graph hsite
  obtain ⟨hfloor, -⟩ := Site.inside_of_excluded ((c.graph R).firstPass seed b) hhandlers
  rw [hfacts]
  have hestablished := Graph.firstPass_establishes (Code.structured_graph R c) seed ⟨es, hpath⟩ hall
  rcases entails_atLeast.mp hestablished with hbottom | ⟨f, hf, hle⟩
  · rw [hallows.consistent] at hbottom
    cases hbottom
  · have hlacks : C.lacksLevel (site.inside ((c.graph R).firstPass seed b)) (levelCategory s) v
        = false := by
      have heffective : v ≤ (site.inside ((c.graph R).firstPass seed b)).effectiveFloor
          C.baseline.min := by
        unfold effectiveFloor raised
        rw [hfloor, hf]
        exact Nat.le_trans hle (Nat.le_max_left _ _)
      unfold lacksLevel
      simp [Nat.not_lt.mpr heffective]
    exact if_neg (by rw [← levelCategory, hlacks]; simp)

theorem sampleGraph_establishes {b : Nat} {es : List Edge}
    (hpath : (sampleGraph (.atLeast 21)).Path (sampleGraph (.atLeast 21)).entry es b)
    (hb : b = 2) : ∃ e ∈ es, e.Establishes 21 := by
  cases hpath with
  | nil => cases hb
  | @snoc es e hpath he =>
    refine ⟨e, List.mem_append_right _ List.mem_cons_self, ?_⟩
    rw [sampleGraph_edges] at he
    simp only [List.mem_cons, List.not_mem_nil, or_false] at he
    rcases he with rfl | rfl | rfl | rfl | rfl
    · exact ⟨_, rfl, .inr ⟨21, by decide, by decide⟩⟩
    all_goals cases hb

theorem dominated_use_accepted_sample :
    sampleSetting.checkLevel (Site.inside ⟨.typeUse ⟨"p.Api", {}⟩, []⟩
      (((sampleGraph (.atLeast 21)).propagate .top).getD 2 .top))
      (.plain (.type "p.Api") [.version 21]) 21 {} = [] :=
  dominated_use_accepted sampleSetting (sampleRecognizer (.atLeast 21)) sampleCode .top
    (List.Mem.tail _ (List.Mem.head _)) (fun _ hpath => sampleGraph_establishes hpath rfl)
    (sampleGraph_path _) (d := ⟨21, fun _ => false⟩) ⟨rfl, nofun, nofun, nofun⟩
    (sampleGraph_passable (u := fun _ => false) (by decide)) _ _

end Check.Setting

end LevelGuard
