import LevelGuard.Project.Locals

/-!
# Variables in scope and the table of a body

The scope of a variable starts with its own initial value and ends with the block,
loop, handler or switch it is declared in. The table of a body knows no scopes: a name
has one entry, of its last declaration in the text, and the bodies of switch expressions
are left out. So the table and the scope say the same at a use exactly where the last
declaration of the name has the type of the one in scope.
-/
namespace LevelGuard.Project

open Java

/-- A variable in scope, with its type as the table has it. -/
structure Binding where
  name : String
  type : Option String
  /-- Declared in the body of a switch expression. -/
  inSwitchExpr : Bool

/-- The variables in scope at a place, the innermost first. -/
abbrev Bindings := List Binding

namespace Bindings

/-- The variable that a name stands for. -/
def visible? (Γ : Bindings) (x : String) : Option Binding := Γ.find? (·.name = x)

/-- The scope after further declarations. -/
def declare (Γ : Bindings) (inSwitchExpr : Bool) (vars : Declared) : Bindings :=
  (vars.map fun v => ⟨v.1, v.2, inSwitchExpr⟩).reverse ++ Γ

def ofParams (params : List Param) : Bindings := declare [] false (paramVars params)

theorem mem_declare {Γ : Bindings} {inSwitchExpr : Bool} {vars : Declared} {d : Binding} :
    d ∈ Γ.declare inSwitchExpr vars ↔
      (d.inSwitchExpr = inSwitchExpr ∧ (d.name, d.type) ∈ vars) ∨ d ∈ Γ := by
  obtain ⟨n, t, b⟩ := d
  simp only [declare, List.mem_append, List.mem_reverse, List.mem_map, Binding.mk.injEq]
  refine or_congr_left ⟨?_, fun ⟨hb, h⟩ => ⟨(n, t), h, rfl, rfl, hb.symm⟩⟩
  rintro ⟨v, hv, rfl, rfl, rfl⟩
  exact ⟨rfl, hv⟩

theorem mem_of_visible? {Γ : Bindings} {x : String} {d : Binding} (h : Γ.visible? x = some d) :
    d ∈ Γ ∧ d.name = x :=
  ⟨List.mem_of_find?_eq_some h, by simpa using List.find?_some h⟩

end Bindings

def declaredVar (v : LocalVar) : String × Option String := (v.name, classNameOf? v.type)

/-- The variables that a statement leaves in scope after it. -/
def leftInScope : Stmt → Declared
  | .vars _ decls => decls.map declaredVar
  | _ => []

/-- A part of a body in which names can be used. -/
inductive Fragment where
  | expr (e : Expr)
  | stmt (s : Stmt)
  | stmts (ss : List Stmt)
  | vars (decls : List LocalVar)
  | cases (cs : List SwitchCase)

/-- A direct part of a fragment, with the variables of the fragment that it can see. -/
structure Inset where
  fragment : Fragment
  sees : Declared
  /-- Whether it is the body of a switch expression. -/
  switchExpr : Bool

namespace Fragment

def seeing (vars : Declared) (p : Fragment) : Inset := ⟨p, vars, false⟩

def plain (p : Fragment) : Inset := p.seeing []

/-- The arguments of the annotations before a variable. -/
def annotationValues (v : LocalVar) : List Expr :=
  v.annotations.flatMap fun a => a.args.map (·.value)

/-- The direct parts of a statement. -/
def stmtInsets : Stmt → List Inset
  | .block _ body => [plain (.stmts body.stmts)]
  | .vars _ decls => [plain (.vars decls)]
  | .expr _ e | .throws _ e | .yields _ e => [plain (.expr e)]
  | .ifElse _ cond yes no =>
    [plain (.expr cond), plain (.stmt yes)] ++ no.toList.map (plain <| .stmt ·)
  | .whileLoop _ cond body | .doWhile _ body cond => [plain (.expr cond), plain (.stmt body)]
  | .forLoop _ init cond update body =>
    let vars := init.flatMap leftInScope
    [plain (.stmts init), seeing vars (.stmt body)] ++
      (cond.toList ++ update).map (seeing vars <| .expr ·)
  | .forEach _ item iterable body =>
    [plain (.expr iterable), seeing [declaredVar item] (.stmt body)] ++
      (annotationValues item).map (plain <| .expr ·)
  | .switch _ selector cs => [plain (.expr selector), plain (.cases cs)]
  | .tryCatch _ _ resources body catches always =>
    [plain (.stmts resources), seeing (resources.flatMap leftInScope) (.stmts body.stmts)] ++
      (catches.map fun c => seeing [(c.name, caughtType? c.types)] (.stmts c.body.stmts)) ++
      always.toList.map (plain <| .stmts ·.stmts)
  | .returns _ value => value.toList.map (plain <| .expr ·)
  | .labeled _ _ body => [plain (.stmt body)]
  | .synchronized _ lock body => [plain (.expr lock), plain (.stmts body.stmts)]
  | .asserts _ cond message => (cond :: message.toList).map (plain <| .expr ·)
  | .breaks .. | .continues .. | .localClass .. | .empty _ => []

def switchBody : Expr → List Inset
  | .switch _ _ cs => [⟨.cases cs, [], true⟩]
  | _ => []

/-- The direct parts of a fragment other than lambdas and types. -/
def insets : Fragment → List Inset
  | .expr e => e.children.map (plain <| .expr ·) ++ switchBody e
  | .stmt s => stmtInsets s
  | .stmts [] | .vars [] | .cases [] => []
  | .stmts (s :: rest) => [plain (.stmt s), seeing (leftInScope s) (.stmts rest)]
  -- a variable is in scope in its own initial value
  | .vars (v :: rest) =>
    (annotationValues v).map (plain <| .expr ·) ++
      v.init.toList.map (seeing [declaredVar v] <| .expr ·) ++
      [seeing [declaredVar v] (.vars rest)]
  -- the groups of a switch are one block, unless they are written with arrows
  | .cases (c :: rest) =>
    c.labels.map (plain <| .expr ·) ++ [plain (.stmts c.body),
      seeing (if c.isRule then [] else c.body.flatMap leftInScope) (.cases rest)]

/-- The variables of a fragment that the table of its body has. -/
def collected : Fragment → Declared
  | .expr _ => []
  | .stmt s => stmtVars s
  | .stmts ss => stmtsVars ss
  | .vars decls => decls.map declaredVar
  | .cases cs => casesVars cs

end Fragment

/-- The name `x` is used in a fragment, with `Δ` in scope at the use where `Γ` is in
scope at the fragment; `b` tells whether the fragment is in a switch expression. -/
inductive Uses : Bool → Bindings → Fragment → String → Bindings → Prop
  | here {b Γ span x} : Uses b Γ (.expr (.name span x)) x Γ
  | inside {b Γ p x Δ} {i : Inset} (hi : i ∈ p.insets)
      (h : Uses (b || i.switchExpr) (Γ.declare (b || i.switchExpr) i.sees) i.fragment x Δ) :
      Uses b Γ p x Δ

/-- Everything that a part of a body declares or sees is in a list, except for the body
of a switch expression. -/
def Inset.CollectedIn (all : Declared) (i : Inset) : Prop :=
  i.sees ⊆ all ∧ (i.switchExpr = false → i.fragment.collected ⊆ all)

theorem leftInScope_subset (s : Stmt) : leftInScope s ⊆ stmtVars s := by
  cases s with
  | vars _ decls => exact fun v hv => by rwa [stmtVars]
  | _ => exact List.nil_subset _

theorem flatMap_leftInScope_subset (ss : List Stmt) : ss.flatMap leftInScope ⊆ stmtsVars ss := by
  induction ss with
  | nil => exact List.nil_subset _
  | cons s rest ih =>
    rw [List.flatMap_cons, stmtsVars]
    exact List.append_subset.mpr ⟨List.subset_append_of_subset_left _ (leftInScope_subset s),
      List.subset_append_of_subset_right _ ih⟩

theorem handler_subset {c : CatchClause} {catches : List CatchClause} (hc : c ∈ catches) :
    (c.name, caughtType? c.types) :: stmtsVars c.body.stmts ⊆ catchesVars catches := by
  induction catches with
  | nil => cases hc
  | cons c' rest ih =>
    obtain ⟨types, n, ⟨stmts, _⟩, _⟩ := c'
    rw [catchesVars]
    rcases List.mem_cons.mp hc with rfl | hc
    · exact List.subset_append_left _ _
    · exact List.subset_append_of_subset_right _ (ih hc)

namespace Fragment

@[simp] theorem seeing_collectedIn {all vars : Declared} {p : Fragment} :
    (p.seeing vars).CollectedIn all ↔ vars ⊆ all ∧ p.collected ⊆ all := by
  simp [Inset.CollectedIn, seeing]

@[simp] theorem plain_collectedIn {all : Declared} {p : Fragment} :
    p.plain.CollectedIn all ↔ p.collected ⊆ all := by simp [plain]

@[simp] theorem collected_expr (e : Expr) : collected (.expr e) = [] := rfl

@[simp] theorem collected_stmt (s : Stmt) : collected (.stmt s) = stmtVars s := rfl

@[simp] theorem collected_stmts (ss : List Stmt) : collected (.stmts ss) = stmtsVars ss := rfl

@[simp] theorem collected_vars (decls : List LocalVar) :
    collected (.vars decls) = decls.map declaredVar := rfl

@[simp] theorem collected_cases (cs : List SwitchCase) : collected (.cases cs) = casesVars cs := rfl

theorem forall_mem_exprs {all vars : Declared} (h : vars ⊆ all) (es : List Expr) :
    ∀ i ∈ es.map (seeing vars <| .expr ·), i.CollectedIn all := by
  simp [h]

theorem tryCatch_collectedIn {span : Span} {withResources : Bool} {resources : List Stmt}
    {body : Block} {catches : List CatchClause} {always : Option Block} {all : Declared}
    (hresources : stmtsVars resources ⊆ all) (hbody : stmtsVars body.stmts ⊆ all)
    (hcatches : catchesVars catches ⊆ all) (halways : ∀ b ∈ always, stmtsVars b.stmts ⊆ all) :
    ∀ i ∈ stmtInsets (.tryCatch span withResources resources body catches always),
      i.CollectedIn all := by
  have hvars := List.Subset.trans (flatMap_leftInScope_subset resources) hresources
  have hhandler (c : CatchClause) (hc : c ∈ catches) :
      (seeing [(c.name, caughtType? c.types)] (.stmts c.body.stmts)).CollectedIn all := by
    have hsubset := List.Subset.trans (handler_subset hc) hcatches
    exact seeing_collectedIn.mpr ⟨by simpa using hsubset List.mem_cons_self,
      List.Subset.trans (List.subset_cons_self _ _) hsubset⟩
  simp only [stmtInsets, List.forall_mem_append, List.forall_mem_map, List.forall_mem_cons,
    Option.mem_toList, plain_collectedIn, seeing_collectedIn]
  exact ⟨⟨⟨hresources, ⟨hvars, hbody⟩, by simp⟩,
    fun c hc => seeing_collectedIn.mp (hhandler c hc)⟩, halways⟩

theorem stmtInsets_collectedIn (s : Stmt) : ∀ i ∈ stmtInsets s, i.CollectedIn (stmtVars s) := by
  cases s with
  | block _ body =>
    obtain ⟨stmts, _⟩ := body
    simp [stmtInsets, stmtVars]
  | vars _ decls =>
    rw [stmtVars]
    exact List.forall_mem_singleton.mpr (plain_collectedIn.mpr (List.Subset.refl _))
  | ifElse _ cond yes no =>
    cases no <;> simp [stmtInsets, stmtVars]
  | whileLoop _ cond body => simp [stmtInsets, stmtVars]
  | doWhile _ body cond => simp [stmtInsets, stmtVars]
  | labeled _ _ body => simp [stmtInsets, stmtVars]
  | switch _ selector cs => simp [stmtInsets, stmtVars]
  | forLoop _ init cond update body =>
    have hinit : init.flatMap leftInScope ⊆ stmtsVars init ++ stmtVars body :=
      List.subset_append_of_subset_left _ (flatMap_leftInScope_subset init)
    rw [stmtVars, stmtInsets, List.forall_mem_append]
    exact ⟨by simp [hinit], forall_mem_exprs hinit _⟩
  | forEach _ item iterable body => simp [stmtInsets, stmtVars, declaredVar]
  | tryCatch _ _ resources body catches always =>
    obtain ⟨stmts, _⟩ := body
    cases always with
    | none =>
      rw [stmtVars]
      refine tryCatch_collectedIn ?_ ?_ ?_ (fun _ h => nomatch h) <;> intro v hv <;> simp [hv]
    | some b =>
      obtain ⟨last, _⟩ := b
      rw [stmtVars]
      refine tryCatch_collectedIn ?_ ?_ ?_ fun _ h => ?_
      · intro v hv; simp [hv]
      · intro v hv; simp [hv]
      · intro v hv; simp [hv]
      · cases h
        exact List.subset_append_right _ _
  | synchronized _ lock body =>
    obtain ⟨stmts, _⟩ := body
    simp [stmtInsets, stmtVars]
  | _ => simp [stmtInsets]

/-- What one step into a fragment preserves. -/
theorem insets_collectedIn (p : Fragment) : ∀ i ∈ p.insets, i.CollectedIn p.collected := by
  cases p with
  | expr e =>
    rw [insets, List.forall_mem_append]
    refine ⟨forall_mem_exprs (List.Subset.refl _) _, ?_⟩
    cases e <;> simp [switchBody, Inset.CollectedIn]
  | stmt s => exact stmtInsets_collectedIn s
  | stmts ss =>
    cases ss with
    | nil => simp [insets]
    | cons s rest =>
      have hs := List.subset_append_of_subset_left (stmtsVars rest) (leftInScope_subset s)
      simp [insets, stmtsVars, hs]
  | vars decls =>
    cases decls with
    | nil => simp [insets]
    | cons v rest =>
      have hv : [declaredVar v] ⊆ (v :: rest).map declaredVar := by simp
      rw [insets, List.forall_mem_append, List.forall_mem_append]
      exact ⟨⟨forall_mem_exprs (List.nil_subset _) _, forall_mem_exprs hv _⟩, by simp⟩
  | cases cs =>
    cases cs with
    | nil => simp [insets]
    | cons c rest =>
      obtain ⟨labels, _, isRule, body, _⟩ := c
      have hbody :=
        List.subset_append_of_subset_left (casesVars rest) (flatMap_leftInScope_subset body)
      rw [insets, List.forall_mem_append]
      refine ⟨forall_mem_exprs (List.nil_subset _) _, ?_⟩
      cases isRule <;> simp [casesVars, hbody]

end Fragment

/-- A variable is declared in a fragment, outside of its switch expressions: some part
of it can see the variable. -/
inductive Introduces : Fragment → String × Option String → Prop
  | seen {p v} {i : Inset} (hi : i ∈ p.insets) (hv : v ∈ i.sees) : Introduces p v
  | inside {p v} {i : Inset} (hi : i ∈ p.insets) (hplain : i.switchExpr = false)
      (h : Introduces i.fragment v) : Introduces p v

namespace Introduces

theorem mem_collected {p : Fragment} {v : String × Option String} (h : Introduces p v) :
    v ∈ p.collected := by
  induction h with
  | @seen p v i hi hv => exact (p.insets_collectedIn i hi).1 hv
  | @inside p v i hi hplain _ ih => exact (p.insets_collectedIn i hi).2 hplain ih

theorem of_plain {p q : Fragment} {v : String × Option String} (hq : q.plain ∈ p.insets)
    (h : Introduces q v) : Introduces p v := .inside hq rfl h

theorem of_seeing {p q : Fragment} {vars : Declared} {v : String × Option String}
    (hq : q.seeing vars ∈ p.insets) (h : v ∈ vars ∨ Introduces q v) : Introduces p v :=
  h.elim (.seen hq) (.inside hq rfl)

theorem vars {v : String × Option String} {decls : List LocalVar}
    (h : v ∈ decls.map declaredVar) : Introduces (.vars decls) v := by
  induction decls with
  | nil => cases h
  | cons w rest ih =>
    refine of_seeing (List.mem_append_right _ List.mem_cons_self) ?_
    rw [List.mem_singleton]
    exact (List.mem_cons.mp h).imp_right ih

theorem of_tryCatch {span : Span} {withResources : Bool} {resources : List Stmt} {body : Block}
    {catches : List CatchClause} {always : Option Block} {v : String × Option String}
    (h : Introduces (.stmts resources) v ∨ Introduces (.stmts body.stmts) v ∨
      (∃ c ∈ catches, v ∈ [(c.name, caughtType? c.types)] ∨ Introduces (.stmts c.body.stmts) v) ∨
      ∃ b ∈ always, Introduces (.stmts b.stmts) v) :
    Introduces (.stmt (.tryCatch span withResources resources body catches always)) v := by
  rcases h with h | h | ⟨c, hc, h⟩ | ⟨b, hb, h⟩
  · exact of_plain List.mem_cons_self h
  · exact of_seeing (List.mem_cons_of_mem _ List.mem_cons_self) (.inr h)
  · refine of_seeing (List.mem_append_left _ (List.mem_append_right _ ?_)) h
    exact List.mem_map_of_mem hc
  · refine of_plain (List.mem_append_right _ ?_) h
    exact List.mem_map_of_mem (Option.mem_toList.mpr hb)

mutual

theorem of_mem_stmtVars {v : String × Option String} :
    (s : Stmt) → v ∈ stmtVars s → Introduces (.stmt s) v
  | .block _ ⟨stmts, _⟩, h => by
    rw [stmtVars] at h
    exact of_plain List.mem_cons_self (of_mem_stmtsVars stmts h)
  | .vars _ decls, h => by
    rw [stmtVars] at h
    exact of_plain List.mem_cons_self (vars h)
  | .ifElse _ _ yes none, h => by
    rw [stmtVars] at h
    exact of_plain (List.mem_cons_of_mem _ List.mem_cons_self) (of_mem_stmtVars yes h)
  | .ifElse _ _ yes (some no), h => by
    rw [stmtVars] at h
    rcases List.mem_append.mp h with h | h
    · exact of_plain (List.mem_cons_of_mem _ List.mem_cons_self) (of_mem_stmtVars yes h)
    · exact of_plain (List.mem_append_right _ List.mem_cons_self) (of_mem_stmtVars no h)
  | .whileLoop _ _ body, h | .doWhile _ body _, h => by
    rw [stmtVars] at h
    exact of_plain (List.mem_cons_of_mem _ List.mem_cons_self) (of_mem_stmtVars body h)
  | .labeled _ _ body, h => by
    rw [stmtVars] at h
    exact of_plain List.mem_cons_self (of_mem_stmtVars body h)
  | .forLoop _ init _ _ body, h => by
    rw [stmtVars] at h
    rcases List.mem_append.mp h with h | h
    · exact of_plain List.mem_cons_self (of_mem_stmtsVars init h)
    · exact of_seeing (List.mem_cons_of_mem _ List.mem_cons_self) (.inr (of_mem_stmtVars body h))
  | .forEach _ item _ body, h => by
    rw [stmtVars] at h
    refine of_seeing (List.mem_cons_of_mem _ List.mem_cons_self) ?_
    exact (List.mem_cons.mp h).imp List.mem_singleton.mpr (of_mem_stmtVars body)
  | .switch _ _ cs, h => by
    rw [stmtVars] at h
    exact of_plain (List.mem_cons_of_mem _ List.mem_cons_self) (of_mem_casesVars cs h)
  | .tryCatch _ _ resources ⟨stmts, _⟩ catches none, h => by
    rw [stmtVars, List.mem_append, List.mem_append] at h
    refine of_tryCatch ?_
    rcases h with (h | h) | h
    · exact .inl (of_mem_stmtsVars resources h)
    · exact .inr (.inl (of_mem_stmtsVars stmts h))
    · exact .inr (.inr (.inl (of_mem_catchesVars catches h)))
  | .tryCatch _ _ resources ⟨stmts, _⟩ catches (some ⟨always, _⟩), h => by
    rw [stmtVars, List.mem_append, List.mem_append, List.mem_append] at h
    refine of_tryCatch ?_
    rcases h with ((h | h) | h) | h
    · exact .inl (of_mem_stmtsVars resources h)
    · exact .inr (.inl (of_mem_stmtsVars stmts h))
    · exact .inr (.inr (.inl (of_mem_catchesVars catches h)))
    · exact .inr (.inr (.inr ⟨_, rfl, of_mem_stmtsVars always h⟩))
  | .synchronized _ _ ⟨stmts, _⟩, h => by
    rw [stmtVars] at h
    exact of_plain (List.mem_cons_of_mem _ List.mem_cons_self) (of_mem_stmtsVars stmts h)
  | .expr .., h | .returns .., h | .throws .., h | .breaks .., h | .continues .., h
  | .yields .., h | .localClass .., h | .asserts .., h | .empty _, h => by
    rw [stmtVars] at h
    cases h

theorem of_mem_stmtsVars {v : String × Option String} :
    (ss : List Stmt) → v ∈ stmtsVars ss → Introduces (.stmts ss) v
  | [], h => nomatch h
  | s :: rest, h => by
    rw [stmtsVars] at h
    rcases List.mem_append.mp h with h | h
    · exact of_plain List.mem_cons_self (of_mem_stmtVars s h)
    · exact of_seeing (List.mem_cons_of_mem _ List.mem_cons_self) (.inr (of_mem_stmtsVars rest h))

theorem of_mem_casesVars {v : String × Option String} :
    (cs : List SwitchCase) → v ∈ casesVars cs → Introduces (.cases cs) v
  | [], h => nomatch h
  | ⟨_, _, _, body, _⟩ :: rest, h => by
    rw [casesVars] at h
    rcases List.mem_append.mp h with h | h
    · exact of_plain (List.mem_append_right _ List.mem_cons_self) (of_mem_stmtsVars body h)
    · exact of_seeing (List.mem_append_right _ (List.mem_cons_of_mem _ List.mem_cons_self))
        (.inr (of_mem_casesVars rest h))

theorem of_mem_catchesVars {v : String × Option String} :
    (catches : List CatchClause) → v ∈ catchesVars catches → ∃ c ∈ catches,
      v ∈ [(c.name, caughtType? c.types)] ∨ Introduces (.stmts c.body.stmts) v
  | [], h => nomatch h
  | ⟨types, n, ⟨stmts, blockSpan⟩, span⟩ :: rest, h => by
    rw [catchesVars] at h
    rcases List.mem_append.mp h with h | h
    · exact ⟨_, List.mem_cons_self,
        (List.mem_cons.mp h).imp List.mem_singleton.mpr (of_mem_stmtsVars stmts)⟩
    · obtain ⟨c, hc, h⟩ := of_mem_catchesVars rest h
      exact ⟨c, List.mem_cons_of_mem _ hc, h⟩

end

end Introduces

/-- A variable in scope at a use was in scope at the start, or is declared in a switch
expression, or is one that the table has. -/
theorem Uses.collected {b : Bool} {Γ Δ : Bindings} {p : Fragment} {x : String} (h : Uses b Γ p x Δ)
    {d : Binding} (hd : d ∈ Δ) :
    d ∈ Γ ∨ d.inSwitchExpr = true ∨ b = false ∧ (d.name, d.type) ∈ p.collected := by
  induction h with
  | here => exact .inl hd
  | @inside b Γ p x Δ i hi _ ih =>
    obtain ⟨hsees, hfragment⟩ := p.insets_collectedIn i hi
    rcases ih hd with hmem | hswitch | ⟨hb, hmem⟩
    · rcases Bindings.mem_declare.mp hmem with ⟨hin, hvar⟩ | hΓ
      · cases hb : b || i.switchExpr with
        | true => exact .inr (.inl (hin.trans hb))
        | false => exact .inr (.inr ⟨(Bool.or_eq_false_iff.mp hb).1, hsees hvar⟩)
      · exact .inl hΓ
    · exact .inr (.inl hswitch)
    · obtain ⟨hb, hi⟩ := Bool.or_eq_false_iff.mp hb
      exact .inr (.inr ⟨hb, hfragment hi hmem⟩)

/-- A variable is a parameter or declared in the body, outside of switch expressions. -/
def DeclaredIn (params : List Param) (body : Block) (v : String × Option String) : Prop :=
  v ∈ paramVars params ∨ Introduces (.stmts body.stmts) v

namespace Locals

def inTextOrder (params : List Param) (body : Block) : Declared :=
  paramVars params ++ stmtsVars body.stmts

theorem mem_inTextOrder {params : List Param} {body : Block} {v : String × Option String} :
    v ∈ inTextOrder params body ↔ DeclaredIn params body v :=
  List.mem_append.trans (or_congr_right ⟨.of_mem_stmtsVars body.stmts, (·.mem_collected)⟩)

/-- The last declaration of the name has the type. -/
def LastDeclared (all : Declared) (x : String) (t : Option String) : Prop :=
  ∃ before after, all = before ++ (x, t) :: after ∧ ∀ t', (x, t') ∉ after

theorem lookup_reverse_eq_some_iff {all : Declared} {x : String} {t : Option String} :
    Table.lookup x all.reverse = some t ↔ LastDeclared all x t := by
  rw [Table.lookup_eq_some_iff_first]
  constructor
  · rintro ⟨before, after, heq, hnot⟩
    refine ⟨after.reverse, before.reverse, ?_, by simpa using hnot⟩
    rw [← List.reverse_reverse all, heq]
    simp
  · rintro ⟨before, after, rfl, hnot⟩
    exact ⟨after.reverse, before.reverse, by simp, by simpa using hnot⟩

theorem get?_ofBody {params : List Param} {body : Block} {x : String} {t : Option String} :
    (ofBody params (some body)).get? x = some t ↔ LastDeclared (inTextOrder params body) x t := by
  rw [ofBody, Table.ofList, Table.get?_insertAll_eq_or, Table.get?_empty, Option.or_none]
  exact lookup_reverse_eq_some_iff

theorem contains_ofBody {params : List Param} {body : Block} {x : String} :
    (ofBody params (some body)).contains x ↔ ∃ t, DeclaredIn params body (x, t) := by
  simp only [← mem_inTextOrder]
  rw [ofBody, Table.ofList, Table.contains_insertAll]
  simp [Table.contains, inTextOrder, exists_or]

theorem nodup_keys_ofBody (params : List Param) (body : Option Block) :
    (ofBody params body).keys.Nodup :=
  Table.nodup_keys_insertAll (t := .empty) List.nodup_nil _

end Locals

open Locals (inTextOrder LastDeclared)

/-- A variable in scope is declared, unless a switch expression declares it. -/
theorem Uses.declaredIn {params : List Param} {body : Block} {x : String} {Δ : Bindings}
    (h : Uses false (.ofParams params) (.stmts body.stmts) x Δ) {d : Binding}
    (hd : Δ.visible? x = some d) (hplain : d.inSwitchExpr = false) :
    DeclaredIn params body (x, d.type) := by
  obtain ⟨hmem, rfl⟩ := Bindings.mem_of_visible? hd
  rcases h.collected hmem with hparam | hswitch | ⟨-, hlocal⟩
  · rcases Bindings.mem_declare.mp hparam with ⟨-, hparam⟩ | hnil
    · exact .inl hparam
    · cases hnil
  · rw [hplain] at hswitch
    cases hswitch
  · exact .inr (.of_mem_stmtsVars body.stmts hlocal)

/-- Where every declaration of a name has the type of the variable in scope, the table
has that type, and it has no entry where there is none. -/
theorem Uses.get?_ofBody {params : List Param} {body : Block} {x : String} {Δ : Bindings}
    (h : Uses false (.ofParams params) (.stmts body.stmts) x Δ)
    (hagree : ∀ t, DeclaredIn params body (x, t) → (Δ.visible? x).map (·.type) = some t)
    (hplain : ∀ d, Δ.visible? x = some d → d.inSwitchExpr = false) :
    (Locals.ofBody params (some body)).get? x = (Δ.visible? x).map (·.type) := by
  cases hget : (Locals.ofBody params (some body)).get? x with
  | some t =>
    obtain ⟨before, after, hall, -⟩ := Locals.get?_ofBody.mp hget
    have hmem : (x, t) ∈ inTextOrder params body :=
      hall ▸ List.mem_append_right _ List.mem_cons_self
    exact (hagree t (Locals.mem_inTextOrder.mp hmem)).symm
  | none =>
    cases hd : Δ.visible? x with
    | none => rfl
    | some d =>
      have hcontains := Locals.contains_ofBody.mpr ⟨_, h.declaredIn hd (hplain d hd)⟩
      rw [Table.contains, hget] at hcontains
      cases hcontains

/-- A variable in scope has its own entry exactly if the last declaration of its name has
its type, and some entry unless a switch expression declares it. A name without a variable
has no entry exactly if it is declared nowhere. So the table is right where all declarations
of the name have the type of the one in scope, and it stays right when it is written over a
right table of the code around it. -/
theorem table_agrees_with_scope {params : List Param} {body : Block} {x : String} {Δ : Bindings}
    (h : Uses false (.ofParams params) (.stmts body.stmts) x Δ) :
    let table := Locals.ofBody params (some body)
    (∀ v, v ∈ inTextOrder params body ↔ DeclaredIn params body v) ∧
    (∀ d, Δ.visible? x = some d →
      (table.get? x = some d.type ↔ LastDeclared (inTextOrder params body) x d.type) ∧
      (d.inSwitchExpr = false → DeclaredIn params body (x, d.type) ∧ table.contains x)) ∧
    (Δ.visible? x = none → (table.get? x = none ↔ ∀ t, ¬DeclaredIn params body (x, t))) ∧
    ((∀ t, DeclaredIn params body (x, t) → (Δ.visible? x).map (·.type) = some t) →
      (∀ d, Δ.visible? x = some d → d.inSwitchExpr = false) →
      table.get? x = (Δ.visible? x).map (·.type) ∧
      ∀ (outer : Locals) (Γ : Bindings), outer.get? x = (Γ.visible? x).map (·.type) →
        (outer.insertAll table.entries).get? x = (Bindings.visible? (Δ ++ Γ) x).map (·.type)) := by
  intro table
  refine ⟨fun v => Locals.mem_inTextOrder, fun d hd => ⟨Locals.get?_ofBody, fun hplain => ?_⟩,
    fun _ => ?_, fun hagree hplain => ?_⟩
  · have hdeclared := h.declaredIn hd hplain
    exact ⟨hdeclared, Locals.contains_ofBody.mpr ⟨_, hdeclared⟩⟩
  · rw [← not_exists, ← Locals.contains_ofBody, Table.contains, Bool.not_eq_true,
      Option.isSome_eq_false_iff, Option.isNone_iff_eq_none]
  · have hown := h.get?_ofBody hagree hplain
    refine ⟨hown, fun outer Γ houter => ?_⟩
    rw [Table.get?_insertAll_entries outer (Locals.nodup_keys_ofBody params _), hown, houter,
      Bindings.visible?, Bindings.visible?, Bindings.visible?, List.find?_append]
    cases List.find? (·.name = x) Δ <;> rfl

theorem Uses.next {b : Bool} {Γ Δ : Bindings} {s : Stmt} {rest : List Stmt} {x : String}
    (h : Uses b (Γ.declare b (leftInScope s)) (.stmts rest) x Δ) :
    Uses b Γ (.stmts (s :: rest)) x Δ := by
  refine .inside (List.mem_cons_of_mem _ List.mem_cons_self) ?_
  rwa [Fragment.seeing, Bool.or_false]

theorem Uses.first {b : Bool} {Γ Δ : Bindings} {s : Stmt} {rest : List Stmt} {x : String}
    (h : Uses b Γ (.stmt s) x Δ) : Uses b Γ (.stmts (s :: rest)) x Δ := by
  refine .inside List.mem_cons_self ?_
  rwa [Fragment.plain, Fragment.seeing, Bool.or_false]

/-- `for (Api x : xs) x;` -/
def apiLoop : Stmt :=
  .forEach {} ⟨"x", ⟨"Api", {}⟩, false, none, {}, []⟩ (.name {} "xs") (.expr {} (.name {} "x"))

def twoLoops : Block := ⟨[apiLoop, apiLoop], {}⟩

/-- Two loops over a parameter may give one name to variables of one type. -/
theorem table_agrees_with_scope_loops : ∃ Δ,
    Uses false (.ofParams [⟨"xs", none⟩]) (.stmts twoLoops.stmts) "x" Δ ∧
      Δ.visible? "x" = some ⟨"x", some "Api", false⟩ ∧
      (Locals.ofBody [⟨"xs", none⟩] (some twoLoops)).get? "x" = some (some "Api") := by
  have h : Uses false (.ofParams [⟨"xs", none⟩]) (.stmts twoLoops.stmts) "x"
      [⟨"x", some "Api", false⟩, ⟨"xs", none, false⟩] :=
    .next <| .first <| .inside (List.mem_cons_of_mem _ List.mem_cons_self) <|
      .inside List.mem_cons_self .here
  obtain ⟨-, -, -, hright⟩ := table_agrees_with_scope h
  refine ⟨_, h, rfl, (hright ?_ ?_).1⟩
  · intro t ht
    have hall : inTextOrder [⟨"xs", none⟩] twoLoops =
        [("xs", none), ("x", some "Api"), ("x", some "Api")] := by decide +kernel
    rw [← Locals.mem_inTextOrder, hall] at ht
    simpa [eq_comm, Bindings.visible?] using ht
  · intro d hd
    cases hd
    rfl

def declarationOf (type name : String) : Stmt := .vars {} [⟨name, ⟨type, {}⟩, false, none, {}, []⟩]

/-- `{ Api x; x; } { String x; } x; return switch (x) { default -> { Api y; yield y; } };` -/
def reusedNames : Block :=
  ⟨[.block {} ⟨[declarationOf "Api" "x", .expr {} (.name {} "x")], {}⟩,
    .block {} ⟨[declarationOf "String" "x"], {}⟩,
    .expr {} (.name {} "x"),
    .returns {} (some (.switch {} (.name {} "x")
      [⟨[], true, true, [.block {} ⟨[declarationOf "Api" "y", .yields {} (.name {} "y")], {}⟩],
        {}⟩]))], {}⟩

/-- In the first block `x` is of the class `Api`, after the blocks it is no variable, and
in the switch expression `y` is of the class `Api`; the table has a string for `x` and no
entry for `y`. -/
theorem scopes_flattened :
    (∃ Δ, Uses false [] (.stmts reusedNames.stmts) "x" Δ ∧
      Δ.visible? "x" = some ⟨"x", some "Api", false⟩) ∧
    (∃ Δ, Uses false [] (.stmts reusedNames.stmts) "x" Δ ∧ Δ.visible? "x" = none) ∧
    (∃ Δ, Uses false [] (.stmts reusedNames.stmts) "y" Δ ∧
      Δ.visible? "y" = some ⟨"y", some "Api", true⟩) ∧
    (Locals.ofBody [] (some reusedNames)).get? "x" = some (some "String") ∧
    (Locals.ofBody [] (some reusedNames)).get? "y" = none := by
  refine ⟨⟨_, .first <| .inside List.mem_cons_self <| .next <| .first <|
      .inside List.mem_cons_self .here, rfl⟩,
    ⟨_, .next <| .next <| .first <| .inside List.mem_cons_self .here, rfl⟩,
    ⟨_, .next <| .next <| .next <| .first <| .inside List.mem_cons_self <|
      .inside (List.mem_append_right _ List.mem_cons_self) <| .inside List.mem_cons_self <|
      .first <| .inside List.mem_cons_self <| .next <| .first <|
      .inside List.mem_cons_self .here, rfl⟩, ?_, ?_⟩
  · decide +kernel
  · decide +kernel

end LevelGuard.Project
