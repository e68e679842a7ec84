import LevelGuard.Proofs.Assignments
import LevelGuard.Proofs.Scoping
import LevelGuard.Proofs.Visits

/-!
# Variables that hold guards

A boolean variable stands for a guard by its name, wherever the name is used in a piece of
code. The variables of a piece of code are taken together, whatever block they are in, so
this is right only where the name cannot be mistaken: a use must see the variable of its
name that holds a guard, if the code declares one, and so must the names in the initial values
of the variables that the use rests on. Then the variable that is seen is never assigned to,
and its initial value is the guard.
-/
namespace LevelGuard

namespace Flow

open Java

/-- The variable holds the guard: it is not assigned to where that is possible, and its
initial value is the guard, given what the variables that can be seen there hold. -/
inductive Holds (R : Recognizer) : Variable → Guard → Prop
  | intro {V : Variable} {e : Expr} {g : Guard} (flags : Table String Guard)
      (unassigned : V.name ∉ assignedIn V.reach) (init : V.init = some e)
      (visible : ∀ y h, flags.get? y = some h → ∃ W, Variables.visible? V.scope y = some W)
      (holds : ∀ y h W, flags.get? y = some h → Variables.visible? V.scope y = some W → Holds R W h)
      (recognized : { R with flags }.recognize? e = some g) : Holds R V g

/-- The names that matter when a condition is recognised. -/
def conditionNames : Expr → List String
  | .unary _ .not operand => conditionNames operand
  | .binary _ .and lhs rhs | .binary _ .or lhs rhs => conditionNames lhs ++ conditionNames rhs
  | .name _ x => [x]
  | _ => []

theorem use_of_mem_conditionNames (B : Stretch) (E : Variables) {e : Expr} {x : String}
    (h : x ∈ conditionNames e) : .use x E ∈ B.inExpr E e := by
  fun_induction conditionNames e with
  | case1 s operand ih => exact ih h
  | case2 s lhs rhs ihl ihr =>
    exact List.mem_append.mpr ((List.mem_append.mp h).imp ihl ihr)
  | case3 s lhs rhs ihl ihr =>
    exact List.mem_append.mpr ((List.mem_append.mp h).imp ihl ihr)
  | case4 s y => simp_all [Stretch.inExpr]
  | case5 => nomatch h

def onlyNames (flags : Table String Guard) (names : List String) : Table String Guard :=
  ⟨flags.entries.filter fun e => names.contains e.1⟩

theorem get?_onlyNames (flags : Table String Guard) (names : List String) (x : String) :
    (onlyNames flags names).get? x = if x ∈ names then flags.get? x else none := by
  refine (Table.lookup_filter names.contains x flags.entries).trans ?_
  simp [Table.get?]

namespace Recognizer

theorem recognize?_congr {R R' : Recognizer} (himported : R.levelImported = R'.levelImported)
    (e : Expr) (h : ∀ x ∈ conditionNames e, R.flags.get? x = R'.flags.get? x) :
    R.recognize? e = R'.recognize? e := by
  have hreads : R.readsLevel = R'.readsLevel := by
    funext e
    simp only [readsLevel, himported]
  fun_induction conditionNames e with
  | case1 s operand ih => simp only [recognize?, ih h]
  | case2 s lhs rhs ihl ihr =>
    simp only [recognize?, ihl fun x hx => h x (List.mem_append_left _ hx),
      ihr fun x hx => h x (List.mem_append_right _ hx)]
  | case3 s lhs rhs ihl ihr =>
    simp only [recognize?, ihl fun x hx => h x (List.mem_append_left _ hx),
      ihr fun x hx => h x (List.mem_append_right _ hx)]
  | case4 s x => exact h x (List.mem_singleton_self x)
  | case5 e hnot hand hor hname =>
    cases e with
    | name s x => exact absurd rfl (hname s x)
    | unary s op operand =>
      cases op with
      | not => exact absurd rfl (hnot s operand)
      | _ => rfl
    | binary s op lhs rhs =>
      cases op with
      | and => exact absurd rfl (hand s lhs rhs)
      | or => exact absurd rfl (hor s lhs rhs)
      | _ => simp only [recognize?, levelGuard?, hreads]
    | _ => rfl

theorem contains_withVariables (R : Recognizer) (flags : Table String Guard) (x : String) :
    (R.withVariables flags).flags.contains x ↔ flags.contains x ∨ R.flags.contains x :=
  Table.contains_insertAll.trans (or_congr_left Table.contains_iff_mem_keys.symm)

theorem get?_without {R : Recognizer} {names : List String} {x : String} {g : Guard}
    (h : (R.without names).flags.get? x = some g) : x ∉ names ∧ R.flags.get? x = some g := by
  unfold without at h
  dsimp only at h
  generalize R.flags = flags at h ⊢
  induction names generalizing flags with
  | nil => exact ⟨List.not_mem_nil, h⟩
  | cons n rest ih =>
    obtain ⟨hrest, hflags⟩ := ih _ h
    rw [Table.get?_erase, Option.ite_none_left_eq_some] at hflags
    exact ⟨by simp [hflags.1, hrest], hflags.2⟩

/-- One candidate is bound if it holds a guard and is not assigned to. -/
def bindStep (R : Recognizer) (assigned : List String) (bound : Table String Guard)
    (c : String × Expr) : Table String Guard :=
  if assigned.contains c.1 then bound
  else
    match (R.withVariables bound).recognize? c.2 with
    | some g => bound.insert c.1 g
    | none => bound

theorem bindUnassigned_eq_foldl (R : Recognizer) (assigned : List String)
    (candidates : List (String × Expr)) :
    R.bindUnassigned assigned candidates = candidates.foldl (R.bindStep assigned) .empty := rfl

variable {R : Recognizer} {assigned : List String}

theorem bindStep_cases (bound : Table String Guard) (c : String × Expr) :
    R.bindStep assigned bound c = bound ∨
      ∃ g, c.1 ∉ assigned ∧ (R.withVariables bound).recognize? c.2 = some g ∧
        R.bindStep assigned bound c = bound.insert c.1 g := by
  unfold bindStep
  by_cases hc : c.1 ∈ assigned
  · simp [hc]
  · cases hg : (R.withVariables bound).recognize? c.2 <;> simp [hc]

/-- What is bound after a step was bound before it or is the candidate. -/
theorem mem_bindStep {bound : Table String Guard} {c : String × Expr} {x : String} {h : Guard}
    (hx : (x, h) ∈ (R.bindStep assigned bound c).entries) : (x, h) ∈ bound.entries ∨
      x = c.1 ∧ c.1 ∉ assigned ∧ (R.withVariables bound).recognize? c.2 = some h ∧
        (R.bindStep assigned bound c).contains c.1 := by
  rcases bindStep_cases bound c with heq | ⟨g, hassigned, hg, heq⟩
  · exact .inl (heq ▸ hx)
  · rcases Table.mem_write (heq ▸ hx) with hnew | hold
    · cases hnew
      exact .inr ⟨rfl, hassigned, hg, heq ▸ Table.contains_insert.mpr (.inl rfl)⟩
    · exact .inl hold

theorem contains_bindStep {bound : Table String Guard} {x : String} (h : bound.contains x)
    (c : String × Expr) : (R.bindStep assigned bound c).contains x := by
  rcases bindStep_cases bound c with hbound | ⟨g, -, -, hbound⟩
  · rwa [hbound]
  · rw [hbound]
    exact Table.contains_insert.mpr (.inr h)

theorem contains_foldl_bindStep {bound : Table String Guard} {x : String} (h : bound.contains x)
    (candidates : List (String × Expr)) :
    (candidates.foldl (R.bindStep assigned) bound).contains x := by
  induction candidates generalizing bound with
  | nil => exact h
  | cons c rest ih => exact ih (contains_bindStep h c)

/-- What is true of each candidate when it is bound is true of all that are. -/
theorem bindUnassigned_induction {P : String → Guard → Prop} {candidates : List (String × Expr)}
    (step : ∀ c ∈ candidates, ∀ bound g, (∀ x h, (x, h) ∈ bound.entries → P x h) →
      (∀ x, x = c.1 ∨ bound.contains x → (R.bindUnassigned assigned candidates).contains x) →
      c.1 ∉ assigned → (R.withVariables bound).recognize? c.2 = some g → P c.1 g)
    {x : String} {h : Guard} (hx : (x, h) ∈ (R.bindUnassigned assigned candidates).entries) :
    P x h := by
  suffices hall : ∀ rest bound, rest ⊆ candidates →
      rest.foldl (R.bindStep assigned) bound = R.bindUnassigned assigned candidates →
      (∀ x h, (x, h) ∈ bound.entries → P x h) →
      ∀ x h, (x, h) ∈ (rest.foldl (R.bindStep assigned) bound).entries → P x h from
    hall candidates .empty (List.Subset.refl _) (bindUnassigned_eq_foldl ..).symm nofun x h hx
  intro rest
  induction rest with
  | nil => exact fun bound _ _ hbound => hbound
  | cons c rest ih =>
    intro bound hrest hfinal hbound
    refine ih _ (List.subset_of_cons_subset hrest) hfinal fun x h hx => ?_
    rcases mem_bindStep hx with hx | ⟨rfl, hc, hg, hnew⟩
    · exact hbound x h hx
    · refine step c (hrest List.mem_cons_self) bound h hbound (fun x hx => ?_) hc hg
      rw [← hfinal]
      exact contains_foldl_bindStep (hx.elim (· ▸ hnew) (contains_bindStep · c)) rest

end Recognizer

theorem visible?_cons_of_ne {V : Variable} {x : String} (h : x ≠ V.name) (E : Variables) :
    Variables.visible? (V :: E) x = Variables.visible? E x :=
  List.find?_cons_of_neg (by simpa using h.symm)

theorem visible?_cons_self (V : Variable) (E : Variables) : Variables.visible? (V :: E) V.name = some V :=
  List.find?_cons_of_pos (by simp)

section Fields

variable (u : CompilationUnit)

/-- A field. The whole file can assign to it. -/
def fieldVariable (E : Variables) (f : FieldDecl) : Variable := ⟨f.name, f.init, u.nodes, false, E⟩

/-- What can be seen inside a type with the fields, given what can be seen around it. -/
def fieldScope (E : Variables) (fields : List FieldDecl) : Variables :=
  fields.foldl (fun E f => fieldVariable u E f :: E) E

/-- A field that may hold a guard, with its value. -/
def fieldCandidate? (d : TypeDecl) (f : FieldDecl) : Option (String × Expr) :=
  if isBoolean f.type && (f.isFinal || f.isPrivate || d.kind = .interfaceType) then
    f.init.map fun e => (f.name, e)
  else none

theorem fieldVariables_eq_foldl (R : Recognizer) (d : TypeDecl) : R.fieldVariables d =
    (d.fields.filterMap (fieldCandidate? d)).foldl (R.bindStep R.assigned) .empty := rfl

variable {u} {N : String → Prop}

/-- The names with those in the initial values of the fields among them. -/
inductive RestsOnFields (fields : List FieldDecl) (N : String → Prop) : String → Prop
  | self {x : String} : N x → RestsOnFields fields N x
  | init {f : FieldDecl} {e : Expr} {x : String} : RestsOnFields fields N f.name → f ∈ fields →
      f.init = some e → x ∈ conditionNames e → RestsOnFields fields N x

/-- A variable holds the guard that its initial value is, if those that are named there hold
theirs. -/
theorem holds_of_conditionNames {R₀ R : Recognizer} (himported : R.levelImported = R₀.levelImported)
    {V : Variable} (hunassigned : V.name ∉ assignedIn V.reach) {e : Expr} (hinit : V.init = some e)
    (hflags : ∀ y ∈ conditionNames e, ∀ h, R.flags.get? y = some h →
      ∃ W, Variables.visible? V.scope y = some W ∧ Holds R₀ W h)
    {g : Guard} (hg : R.recognize? e = some g) : Holds R₀ V g := by
  have hnamed : ∀ y h, (onlyNames R.flags (conditionNames e)).get? y = some h →
      ∃ W, Variables.visible? V.scope y = some W ∧ Holds R₀ W h := by
    intro y h hy
    rw [get?_onlyNames, Option.ite_none_right_eq_some] at hy
    exact hflags y hy.1 h hy.2
  refine .intro (onlyNames R.flags (conditionNames e)) hunassigned hinit (fun y h hy => ?_)
    (fun y h W hy hW => ?_) ?_
  · exact (hnamed y h hy).imp fun _ => And.left
  · obtain ⟨V, hV, hholds⟩ := hnamed y h hy
    exact Option.some.inj (hV.symm.trans hW) ▸ hholds
  · rw [← hg]
    apply Recognizer.recognize?_congr
    · exact himported.symm
    · intro y hy
      rw [get?_onlyNames, if_pos hy]

/-- A field holds the guard that its value is, if the fields before it hold theirs. -/
theorem holds_fieldVariable {f : FieldDecl} {e : Expr} (hinit : f.init = some e)
    (hN : ∀ z ∈ conditionNames e, N z) {bound : Table String Guard} {E : Variables}
    (hbound : ∀ x h, N x → (x, h) ∈ bound.entries →
      ∃ V, E.visible? x = some V ∧ Holds (.ofUnit u) V h)
    (hassigned : f.name ∉ (Recognizer.ofUnit u).assigned)
    (hlabels : f.name ∉ assignedInLabels u.nodes) {g : Guard}
    (hg : ((Recognizer.ofUnit u).withVariables bound).recognize? e = some g) :
    Holds (.ofUnit u) (fieldVariable u E f) g := by
  have hsome : (fieldVariable u E f).init = some e := hinit
  have himported : ((Recognizer.ofUnit u).withVariables bound).levelImported =
      (Recognizer.ofUnit u).levelImported := rfl
  refine holds_of_conditionNames himported (fun hx => ?_) hsome (fun y hy h hflag => ?_) hg
  · exact (finds_ofUnit u _ hx).elim hassigned hlabels
  · rcases Table.get?_insertAll hflag with hflag | hflag
    · exact hbound y h (hN y hy) hflag
    · nomatch hflag

theorem exists_init_of_fieldCandidate? {d : TypeDecl} {f : FieldDecl} {c : String × Expr}
    (hc : fieldCandidate? d f = some c) : ∃ e, f.init = some e ∧ c = (f.name, e) := by
  rw [fieldCandidate?, Option.ite_none_right_eq_some, Option.map_eq_some_iff] at hc
  obtain ⟨-, e, hinit, rfl⟩ := hc
  exact ⟨e, hinit, rfl⟩

theorem holds_foldl_bindStep {d : TypeDecl} {fields : List FieldDecl} {E : Variables}
    {bound : Table String Guard} (hnames : (fields.map FieldDecl.name).Nodup)
    (hN : ∀ f ∈ fields, N f.name → ∀ e, f.init = some e → ∀ z ∈ conditionNames e, N z)
    (hlabels : ∀ x, N x → ((fields.filterMap (fieldCandidate? d)).foldl
      ((Recognizer.ofUnit u).bindStep (Recognizer.ofUnit u).assigned) bound).contains x →
        x ∉ assignedInLabels u.nodes)
    (hbound : ∀ x h, N x → (x, h) ∈ bound.entries → x ∉ fields.map FieldDecl.name ∧
      ∃ V, E.visible? x = some V ∧ Holds (.ofUnit u) V h)
    {x : String} (hNx : N x) {g : Guard}
    (hx : (x, g) ∈ ((fields.filterMap (fieldCandidate? d)).foldl
      ((Recognizer.ofUnit u).bindStep (Recognizer.ofUnit u).assigned) bound).entries) :
    ∃ V, (fieldScope u E fields).visible? x = some V ∧ Holds (.ofUnit u) V g := by
  induction fields generalizing E bound with
  | nil => exact (hbound x g hNx hx).2
  | cons f rest ih =>
    obtain ⟨hf, hrest⟩ := List.nodup_cons.mp hnames
    obtain ⟨hNf, hNrest⟩ := List.forall_mem_cons.mp hN
    have hold : ∀ x h, N x → (x, h) ∈ bound.entries → x ∉ rest.map FieldDecl.name ∧
        ∃ V, Variables.visible? (fieldVariable u E f :: E) x = some V ∧ Holds (.ofUnit u) V h := by
      intro x h hNx hx
      obtain ⟨hx, hV⟩ := hbound x h hNx hx
      obtain ⟨hne, hx⟩ := List.ne_and_not_mem_of_not_mem_cons hx
      have hsame : Variables.visible? (fieldVariable u E f :: E) x = E.visible? x :=
        visible?_cons_of_ne hne E
      exact ⟨hx, hsame ▸ hV⟩
    cases hc : fieldCandidate? d f with
    | none =>
      rw [List.filterMap_cons_none hc] at hlabels hx
      exact ih hrest hNrest hlabels hold hx
    | some c =>
      obtain ⟨e, hinit, rfl⟩ := exists_init_of_fieldCandidate? hc
      rw [List.filterMap_cons_some hc, List.foldl_cons] at hlabels hx
      refine ih hrest hNrest hlabels (fun x h hNx hx => ?_) hx
      rcases Recognizer.mem_bindStep hx with hx | ⟨rfl, hassigned, hg, hnew⟩
      · exact hold x h hNx hx
      · have hlabel := hlabels f.name hNx (Recognizer.contains_foldl_bindStep hnew _)
        have hV := holds_fieldVariable hinit (hNf hNx e hinit)
          (fun x h hNx hx => (hbound x h hNx hx).2) hassigned hlabel hg
        exact ⟨hf, _, visible?_cons_self .., hV⟩

theorem holds_fieldVariables (outer : Variables) {d : TypeDecl}
    (hnames : (d.fields.map FieldDecl.name).Nodup)
    (hlabels : ∀ x, RestsOnFields d.fields N x → ((Recognizer.ofUnit u).fieldVariables d).contains x →
      x ∉ assignedInLabels u.nodes)
    {x : String} (hNx : N x) {g : Guard}
    (hx : (x, g) ∈ ((Recognizer.ofUnit u).fieldVariables d).entries) :
    ∃ V, (fieldScope u outer d.fields).visible? x = some V ∧ Holds (.ofUnit u) V g := by
  rw [fieldVariables_eq_foldl] at hlabels hx
  exact holds_foldl_bindStep hnames (fun f hf hNf e he z hz => .init hNf hf he hz) hlabels nofun
    (.self hNx) hx

end Fields

end Flow

namespace Project.Code

open Java

def paramVariables (c : Code) (E : Variables) : List Variable :=
  c.params.map fun p => Stretch.declare ⟨c.nodes, false⟩ E p.name none

/-- What the steps of a piece of code say about variables. -/
def stepMentions (c : Code) (E : Variables) : List Mention :=
  match c.steps with
  | .block b => Stretch.inStmts ⟨c.nodes, false⟩ E b.stmts
  | .exprs es => Stretch.inExprs ⟨c.nodes, false⟩ E es

/-- What a piece of code says about variables, where those of the scope can be seen. -/
def mentions (c : Code) (E : Variables) : List Mention :=
  (c.paramVariables E).map .declares ++ c.stepMentions (c.paramVariables E ++ E)

theorem mem_keys_locals {c : Code} {x : String} : x ∈ c.locals.keys ↔
    x ∈ (paramVars c.params ++ stmtsVars (c.block?.elim [] Block.stmts)).map Prod.fst := by
  rw [locals, Locals.ofBody, Table.ofList, ← Table.contains_iff_mem_keys, Table.contains_insertAll]
  simp [Table.contains]

theorem tidy_stepMentions (c : Code) (E : Variables) :
    Tidy ⟨c.nodes, false⟩ E (stmtsVars (c.block?.elim [] Block.stmts)) (c.stepMentions E) := by
  obtain ⟨params, b | es⟩ := c
  · exact Stretch.tidy_inStmts _ E b.stmts
  · exact Stretch.tidy_inExprs _ E es

theorem declaredIn_paramVariables (c : Code) (E : Variables) :
    declaredIn ((c.paramVariables E).map .declares) = c.paramVariables E := by
  simp [declaredIn, List.filterMap_map, Function.comp_def, Mention.declared?]

theorem tidy_paramVariables (c : Code) (E : Variables) :
    Tidy ⟨c.nodes, false⟩ E (paramVars c.params) ((c.paramVariables E).map .declares) := by
  refine ⟨fun m hm => ?_, fun V hV => ?_⟩
  · obtain ⟨V, hV, rfl⟩ := List.mem_map.mp hm
    obtain ⟨p, -, rfl⟩ := List.mem_map.mp hV
    exact .refl
  · rw [declaredIn_paramVariables] at hV
    obtain ⟨p, hp, rfl⟩ := List.mem_map.mp hV
    exact .inr ⟨rfl, List.mem_map_of_mem (List.mem_map_of_mem hp)⟩

theorem tidy_mentions (c : Code) (E : Variables) :
    Tidy ⟨c.nodes, false⟩ E (paramVars c.params ++ stmtsVars (c.block?.elim [] Block.stmts))
      (c.mentions E) := by
  have hscope : Extends (declaredIn ((c.paramVariables E).map .declares)) E
      (c.paramVariables E ++ E) :=
    ⟨_, rfl, (c.declaredIn_paramVariables E).symm ▸ List.Subset.refl _⟩
  exact (c.tidy_paramVariables E).after hscope (c.tidy_stepMentions _)

end Project.Code

namespace Check

open Java Project LevelGuard.Flow

/-- A piece of code where it stands. -/
structure Body where
  code : Code
  /-- The place around it. -/
  place : Place
  /-- The variables that can be seen around it. -/
  scope : Variables
  /-- The variables of the pieces of code around it. -/
  around : List Variable

namespace Body

def mentions (b : Body) : List Mention := b.code.mentions b.scope

/-- The variables of the code and of the code around it, whatever can be seen of them. -/
def vars (b : Body) : List Variable := b.around ++ declaredIn b.mentions

def recognizer (b : Body) : Recognizer := (b.place.inside b.code).recognizer

def lambda (b : Body) (params : List Param) (body : LambdaBody) (E : Variables) : Body :=
  ⟨.ofLambda params body, b.place.inside b.code, E, b.vars⟩

/-- The body and the lambdas inside of it. -/
inductive Within (start : Body) : Body → Prop
  | self : Within start start
  | lambda {b : Body} {params : List Param} {body : LambdaBody} {E : Variables}
      (h : Within start b) (hbody : .lambda params body E ∈ b.mentions) :
      Within start (b.lambda params body E)

end Body

/-- A name cannot be mistaken: a variable with the name that holds a guard is the one that
can be seen, and none that is buried in a switch can be seen. -/
structure Clear (R : Recognizer) (vars : List Variable) (E : Variables) (x : String) : Prop where
  seen : ∀ V ∈ vars, V.name = x → (∃ g, Holds R V g) → E.visible? x = some V
  unburied : ∀ V, E.visible? x = some V → V.buried = false

/-- In the initial values of the variables of that name no name that is taken for a guard can be
mistaken, and no label of a case assigns to the name if it is itself taken for one. -/
structure Body.Settled (R : Recognizer) (b : Body) (x : String) : Prop where
  inits : ∀ V ∈ declaredIn b.mentions, V.name = x → ∀ e, V.init = some e →
    ∀ y ∈ conditionNames e, b.recognizer.flags.contains y → Clear R b.vars V.scope y
  labels : (b.code.guards b.place.recognizer).contains x → x ∉ assignedInLabels b.code.nodes

/-- A name rests on names of its body and of the bodies around it: on itself, and on those in the
initial values of variables with a name that it rests on. -/
inductive Body.RestsOn (b : Body) (x : String) : Body → String → Prop
  | self : RestsOn b x b x
  | outer {b' : Body} {params : List Param} {body : LambdaBody} {E : Variables} {y : String} :
      RestsOn b x (b'.lambda params body E) y → .lambda params body E ∈ b'.mentions →
      RestsOn b x b' y
  | init {b' : Body} {V : Variable} {e : Expr} {y : String} : RestsOn b x b' V.name →
      V ∈ declaredIn b'.mentions → V.init = some e → y ∈ conditionNames e → RestsOn b x b' y

/-- One of the variables holds the guard under its name. -/
def Held (R : Recognizer) (vars : List Variable) (x : String) (g : Guard) : Prop :=
  ∃ V ∈ vars, V.name = x ∧ Holds R V g

/-- Which of the names is taken for a guard holds it: a variable of the code, or one of the scope
around all code, if no variable of the code has its name. -/
structure Known (R₀ : Recognizer) (E₀ : Variables) (N : String → Prop) (R : Recognizer)
    (vars : List Variable) : Prop where
  imported : R.levelImported = R₀.levelImported
  flags : ∀ x g, N x → R.flags.get? x = some g → Held R₀ vars x g ∨
    (∃ V, E₀.visible? x = some V ∧ Holds R₀ V g) ∧ ∀ W ∈ vars, W.name = x → W.buried = true

namespace Known

variable {R₀ R : Recognizer} {E₀ E : Variables} {N : String → Prop} {vars : List Variable}

/-- The variable that holds the guard is the one that can be seen. -/
theorem visible (h : Known R₀ E₀ N R vars) (hE : Extends vars E₀ E) {x : String} (hx : N x)
    (hclear : Clear R₀ vars E x) {g : Guard} (hg : R.flags.get? x = some g) :
    ∃ V, E.visible? x = some V ∧ Holds R₀ V g := by
  obtain ⟨V, hV, hname, hholds⟩ | ⟨⟨V, hvisible, hholds⟩, hothers⟩ := h.flags x g hx hg
  · exact ⟨V, hclear.seen V hV hname ⟨g, hholds⟩, hholds⟩
  · obtain ⟨L, rfl, hL⟩ := hE
    -- A variable in front would be buried.
    have hnone : L.find? (·.name = x) = none := by
      cases hW : L.find? (·.name = x) with
      | none => rfl
      | some W =>
        have hseen : Variables.visible? (L ++ E₀) x = some W := by
          rw [Variables.visible?, List.find?_append, hW, Option.some_or]
        have hname := List.find?_some hW
        have hburied := hothers W (hL (List.mem_of_find?_eq_some hW)) (by simpa using hname)
        exact absurd (hclear.unburied W hseen) (by simp [hburied])
    refine ⟨V, ?_, hholds⟩
    rw [Variables.visible?, List.find?_append, hnone]
    exact hvisible

/-- Variables of a piece of code hide those around it. -/
theorem inside (h : Known R₀ E₀ N R vars) {c : Code} {own : List Variable}
    (hown : ∀ W ∈ own, W.buried = false → W.name ∈ c.locals.keys) {bound : Table String Guard}
    (hbound : ∀ x g, (x, g) ∈ bound.entries → N x → Held R₀ own x g) :
    Known R₀ E₀ N ((c.outerRecognizer R).withVariables bound) (vars ++ own) := by
  refine ⟨h.imported, fun x g hN hg => ?_⟩
  rcases Table.get?_insertAll hg with hg | hg
  · obtain ⟨V, hV, hheld⟩ := hbound x g hg hN
    exact .inl ⟨V, List.mem_append_right _ hV, hheld⟩
  · obtain ⟨hx, hg⟩ := Recognizer.get?_without hg
    refine (h.flags x g hN hg).imp (fun ⟨V, hV, hheld⟩ => ⟨V, List.mem_append_left _ hV, hheld⟩)
      (.imp_right fun hothers W hW hname => ?_)
    rcases List.mem_append.mp hW with hW | hW
    · exact hothers W hW hname
    · cases hburied : W.buried with
      | true => rfl
      | false => exact absurd (hname ▸ hown W hW hburied) hx

end Known

namespace Body

variable {R₀ : Recognizer} {E₀ : Variables} {N : String → Prop} {b : Body}

theorem keys_of_declaredIn {W : Variable} (hW : W ∈ declaredIn b.mentions)
    (hburied : W.buried = false) : W.name ∈ b.code.locals.keys := by
  rcases (b.code.tidy_mentions b.scope).named W hW with h | ⟨-, h⟩
  · exact absurd h (by simp [hburied])
  · exact Code.mem_keys_locals.mpr h

theorem extends_mentions (hscope : Extends b.around E₀ b.scope) {m : Mention}
    (hm : m ∈ b.mentions) : Extends b.vars E₀ m.scope :=
  (hscope.mono (List.subset_append_left ..)).trans
    (((b.code.tidy_mentions b.scope).scope m hm).mono (List.subset_append_right ..))

theorem holds_declare (h : Known R₀ E₀ N b.place.recognizer b.around)
    (hscope : Extends b.around E₀ b.scope) {bound : Table String Guard}
    (hbound : ∀ x g, (x, g) ∈ bound.entries → N x → Held R₀ (declaredIn b.mentions) x g)
    (hkept : ∀ x, bound.contains x → (b.code.guards b.place.recognizer).contains x)
    {E : Variables} {e : Expr} (huses : Stretch.inExpr ⟨b.code.nodes, false⟩ E e ⊆ b.mentions)
    (hN : ∀ y ∈ conditionNames e, N y)
    (hclear : ∀ y ∈ conditionNames e, b.recognizer.flags.contains y → Clear R₀ b.vars E y)
    {x : String} (hx : x ∉ assignedIn b.code.nodes) {g : Guard}
    (hg : ((b.code.outerRecognizer b.place.recognizer).withVariables bound).recognize? e = some g) :
    Holds R₀ (Stretch.declare ⟨b.code.nodes, false⟩ E x (some e)) g := by
  have hknown := h.inside (c := b.code) (fun W hW => keys_of_declaredIn hW) hbound
  refine holds_of_conditionNames hknown.imported hx rfl (fun y hy h hflag => ?_) hg
  have huse := huses (use_of_mem_conditionNames ⟨b.code.nodes, false⟩ E hy)
  have hcontains : b.recognizer.flags.contains y := by
    have hy := Option.isSome_of_eq_some hflag
    exact (Recognizer.contains_withVariables ..).mpr
      (((Recognizer.contains_withVariables ..).mp hy).imp_left (hkept y))
  exact hknown.visible (extends_mentions hscope huse) (hN y hy) (hclear y hy hcontains) hflag

variable (hN : ∀ V ∈ declaredIn b.mentions, N V.name → ∀ e, V.init = some e →
  ∀ y ∈ conditionNames e, N y) (hsettled : ∀ x, N x → b.Settled R₀ x)
include hN hsettled

/-- The variables of the code that are taken for guards hold them. -/
theorem holds_guards (h : Known R₀ E₀ N b.place.recognizer b.around)
    (hscope : Extends b.around E₀ b.scope) {x : String} {g : Guard}
    (hx : (x, g) ∈ (b.code.guards b.place.recognizer).entries) (hNx : N x) :
    Held R₀ (declaredIn b.mentions) x g := by
  obtain ⟨⟨params, body | es⟩, place, E, around⟩ := b
  · refine Recognizer.bindUnassigned_induction (P := fun x g => N x → Held R₀ _ x g)
      (fun c hc bound g hbound hkept hassigned hg hNc => ?_) hx hNx
    obtain ⟨E', hdeclares, huses⟩ := Stretch.declares_inStmts ⟨stmtsNodes body.stmts, false⟩
      (Code.paramVariables ⟨params, .block body⟩ E ++ E) body.stmts c hc
    have hV := mem_declaredIn.mpr (List.mem_append_right
      ((Code.paramVariables ⟨params, .block body⟩ E).map .declares) hdeclares)
    have hunassigned : c.1 ∉ assignedIn (stmtsNodes body.stmts) := fun hc =>
      (finds_stmtsAssigned body.stmts c.1 hc).elim hassigned
        ((hsettled c.1 hNc).labels (hkept c.1 (.inl rfl)))
    refine ⟨_, hV, rfl, ?_⟩
    exact holds_declare h hscope hbound (fun x hx => hkept x (.inr hx))
      (fun m hm => List.mem_append_right _ (huses hm)) (hN _ hV hNc _ rfl)
      ((hsettled c.1 hNc).inits _ hV rfl _ rfl) hunassigned hg
  · nomatch hx

/-- A step into a piece of code keeps what is known. -/
theorem known_recognizer (h : Known R₀ E₀ N b.place.recognizer b.around)
    (hscope : Extends b.around E₀ b.scope) : Known R₀ E₀ N b.recognizer b.vars :=
  h.inside (c := b.code) (fun _ hW => keys_of_declaredIn hW)
    fun _ _ => holds_guards hN hsettled h hscope

end Body

namespace Body.Within

variable {R₀ : Recognizer} {E₀ : Variables} {start b : Body}

theorem extends_scope (hscope : Extends start.around E₀ start.scope) (hb : start.Within b) :
    Extends b.around E₀ b.scope := by
  induction hb with
  | self => exact hscope
  | lambda _ hbody ih => exact extends_mentions ih hbody

/-- What a name rests on is known in all bodies from the outermost one inwards. -/
theorem known {user : Body} {x : String}
    (hstart : Known R₀ E₀ (user.RestsOn x start) start.place.recognizer start.around)
    (hscope : Extends start.around E₀ start.scope)
    (hsettled : ∀ b, start.Within b → ∀ y, user.RestsOn x b y → b.Settled R₀ y)
    (hb : start.Within b) : Known R₀ E₀ (user.RestsOn x b) b.recognizer b.vars := by
  have hstep : ∀ {b}, start.Within b →
      Known R₀ E₀ (user.RestsOn x b) b.place.recognizer b.around →
      Known R₀ E₀ (user.RestsOn x b) b.recognizer b.vars := fun hb h =>
    known_recognizer (fun _ hV hN _ he _ hy => .init hN hV he hy) (hsettled _ hb) h
      (hb.extends_scope hscope)
  induction hb with
  | self => exact hstep .self hstart
  | lambda hb hbody ih =>
    exact hstep (.lambda hb hbody) ⟨ih.imported, fun y g hy => ih.flags y g (.outer hy hbody)⟩

end Body.Within

def Body.ofType (K : Platform.Catalog) (I : Index) (u : CompilationUnit) (locals : Locals)
    (outer : Variables) (d : TypeDecl) (c : Code) : Body :=
  ⟨c, typePlace K I u locals d, fieldScope u outer d.fields, []⟩

theorem known_ofType (K : Platform.Catalog) (I : Index) {u : CompilationUnit} (locals : Locals)
    (outer : Variables) {d : TypeDecl} (hnames : (d.fields.map FieldDecl.name).Nodup)
    {N : String → Prop} (hlabels : ∀ x, RestsOnFields d.fields N x →
      ((Recognizer.ofUnit u).fieldVariables d).contains x → x ∉ assignedInLabels u.nodes) :
    Known (.ofUnit u) (fieldScope u outer d.fields) N (typePlace K I u locals d).recognizer [] := by
  refine ⟨rfl, fun x g hx hg => ?_⟩
  rcases Table.get?_insertAll hg with hg | hg
  · exact .inr ⟨holds_fieldVariables outer hnames hlabels hx hg, nofun⟩
  · nomatch hg

/-- Where a name is taken for a guard, the variable that can be seen under the name holds
the guard, if the name cannot be mistaken there and what it rests on is settled. -/
theorem guard_variables_hold (K : Platform.Catalog) (I : Index) (u : CompilationUnit)
    (locals : Locals) (outer : Variables) (d : TypeDecl) (c : Code)
    (hnames : (d.fields.map FieldDecl.name).Nodup) {b : Body}
    (hb : (Body.ofType K I u locals outer d c).Within b) {x : String} {E : Variables}
    (huse : .use x E ∈ b.mentions) (hclear : Clear (.ofUnit u) b.vars E x)
    (hsettled : ∀ b', (Body.ofType K I u locals outer d c).Within b' → ∀ y, b.RestsOn x b' y →
      b'.Settled (.ofUnit u) y)
    (hlabels : ∀ y, RestsOnFields d.fields (b.RestsOn x (.ofType K I u locals outer d c)) y →
      ((Recognizer.ofUnit u).fieldVariables d).contains y → y ∉ assignedInLabels u.nodes)
    {s : Span} {g : Guard} (hg : b.recognizer.recognize? (.name s x) = some g) :
    ∃ V, E.visible? x = some V ∧ Holds (.ofUnit u) V g := by
  have hscope := hb.extends_scope .refl
  have hknown := hb.known (known_ofType K I locals outer hnames hlabels) .refl hsettled
  exact hknown.visible (Body.extends_mentions hscope huse) .self hclear hg

/-- The condition `VERSION.SDK_INT >= v`. -/
def levelCheck (v : Level) : Expr :=
  .binary {} .ge (.fieldAccess {} (.name {} "VERSION") "SDK_INT") (.literal {} (.int v))

def booleanLocal (name : String) (init : Expr) : Stmt :=
  .vars {} [⟨name, ⟨"boolean", {}⟩, false, some init, {}, []⟩]

/-- The field `private final boolean recent = VERSION.SDK_INT >= 21`. -/
def recentField : FieldDecl :=
  ⟨"recent", ⟨"boolean", {}⟩, false, true, true, [], some (levelCheck 21), {}⟩

/-- The block `boolean ok = recent; () -> ok;`. -/
def capturingBlock : Block :=
  ⟨[booleanLocal "ok" (.name {} "recent"), .expr {} (.lambda {} [] (.expr (.name {} "ok")))], {}⟩

def capturingCode : Code := ⟨[], .block capturingBlock⟩

def recentType : TypeDecl :=
  ⟨"T", "T", .classType, [], none, [], [.field recentField, .initializer false capturingBlock], {}⟩

def recentUnit : CompilationUnit := ⟨"T.java", none, [], [recentType]⟩

def capturingBody : Body :=
  .ofType (.ofClasses []) (.ofCatalog (.ofClasses [])) recentUnit .empty [] recentType capturingCode

def recentVariable : Variable := fieldVariable recentUnit [] recentField

def okVariable : Variable :=
  Stretch.declare ⟨capturingCode.nodes, false⟩ [recentVariable] "ok" (some (.name {} "recent"))

theorem capturingBody_mentions : capturingBody.mentions =
    [.use "recent" [recentVariable], .declares okVariable,
      .lambda [] (.expr (.name {} "ok")) [okVariable, recentVariable]] := rfl

def capturedBody : Body :=
  capturingBody.lambda [] (.expr (.name {} "ok")) [okVariable, recentVariable]

theorem capturedBody_mentions :
    capturedBody.mentions = [.use "ok" [okVariable, recentVariable]] := rfl

theorem within_capturingBody {b : Body} (h : capturingBody.Within b) :
    b = capturingBody ∨ b = capturedBody := by
  induction h with
  | self => exact .inl rfl
  | lambda _ hbody ih =>
    rcases ih with rfl | rfl
    · simp only [capturingBody_mentions, List.mem_cons, reduceCtorEq, Mention.lambda.injEq,
        List.not_mem_nil, or_false, false_or] at hbody
      obtain ⟨rfl, rfl, rfl⟩ := hbody
      exact .inr rfl
    · simp [capturedBody_mentions] at hbody

theorem clear_okVariable (R : Recognizer) :
    Clear R capturedBody.vars [okVariable, recentVariable] "ok" := by
  refine ⟨fun V hV _ _ => ?_, fun V hV => ?_⟩
  · rw [show capturedBody.vars = [okVariable] from rfl, List.mem_singleton] at hV
    subst hV
    rfl
  · cases hV
    rfl

theorem settled_capturingBody (R : Recognizer) (x : String) : capturingBody.Settled R x where
  inits V hV _ e he y hy _ := by
    have hvars : declaredIn capturingBody.mentions = [okVariable] := rfl
    rw [hvars, List.mem_singleton] at hV
    subst hV
    cases he
    obtain rfl := List.mem_singleton.mp hy
    refine ⟨fun V hV hname => ?_, fun V hV => ?_⟩
    · rw [show capturingBody.vars = [okVariable] from rfl, List.mem_singleton] at hV
      subst hV
      exact absurd hname (by decide)
    · cases hV
      rfl
  labels _ := List.not_mem_nil

/-- A variable that holds the guard of a field holds it in a lambda too. -/
theorem guard_variables_hold_captured :
    capturedBody.recognizer.recognize? (.name {} "ok") = some (.atLeast 21) ∧
      ∃ V, Variables.visible? [okVariable, recentVariable] "ok" = some V ∧
        Holds (.ofUnit recentUnit) V (.atLeast 21) := by
  have hrecognized : capturedBody.recognizer.recognize? (.name {} "ok") = some (.atLeast 21) := rfl
  have hsettled : ∀ b, capturingBody.Within b → ∀ y, capturedBody.RestsOn "ok" b y →
      b.Settled (.ofUnit recentUnit) y := by
    intro b hb y _
    rcases within_capturingBody hb with rfl | rfl
    · exact settled_capturingBody _ y
    · exact ⟨nofun, fun _ => List.not_mem_nil⟩
  have hwithin : capturingBody.Within capturedBody :=
    .lambda .self (by simp [capturingBody_mentions])
  exact ⟨hrecognized, guard_variables_hold _ _ recentUnit .empty [] recentType capturingCode
    (by decide) hwithin (by simp [capturedBody_mentions]) (clear_okVariable _) hsettled
    (fun _ _ _ => List.not_mem_nil) hrecognized⟩

/-- The body `{ boolean ok = VERSION.SDK_INT >= 19; } { boolean ok = flag(); if (ok); }`. -/
def disjointBlocks : Code where
  steps := .block
    ⟨[.block {} ⟨[booleanLocal "ok" (levelCheck 19)], {}⟩,
      .block {} ⟨[booleanLocal "ok" (.call {} none "flag" []),
        .ifElse {} (.name {} "ok") (.empty {}) none], {}⟩], {}⟩

def disjointBody : Body :=
  .ofType (.ofClasses []) (.ofCatalog (.ofClasses [])) recentUnit .empty [] recentType disjointBlocks

def flagVariable : Variable :=
  Stretch.declare ⟨disjointBlocks.nodes, false⟩ [recentVariable] "ok" (some (.call {} none "flag" []))

/-- Variables of one name in two blocks are mistaken for each other: the second, which holds
the outcome of a call, is taken for the guard of the first. -/
theorem disjointBlocks_mistaken :
    .use "ok" [flagVariable, recentVariable] ∈ disjointBody.mentions ∧
      disjointBody.recognizer.recognize? (.name {} "ok") = some (.atLeast 19) ∧
      Variables.visible? [flagVariable, recentVariable] "ok" = some flagVariable ∧
      ∀ g, ¬ Holds (.ofUnit recentUnit) flagVariable g := by
  have hmentions : disjointBody.mentions =
      [.use "VERSION" [recentVariable],
        .declares (Stretch.declare ⟨disjointBlocks.nodes, false⟩ [recentVariable] "ok"
          (some (levelCheck 19))),
        .declares flagVariable, .use "ok" [flagVariable, recentVariable]] := rfl
  refine ⟨by simp [hmentions], rfl, rfl, fun g hg => ?_⟩
  obtain ⟨flags, -, hinit, -, -, hrecognized⟩ := hg
  cases hinit
  nomatch hrecognized

end Check

end LevelGuard
