import LevelGuard.Java.Read
import LevelGuard.Proofs.Numbering
import LevelGuard.Proofs.ReadDeclarations

/-!
# Types of a file that is named

Naming the types of a file leaves each where it stands, with its simple name and those of its
member types. A member type is called after the type that has it as a member, and every type
in the body of another has a longer name than that one.
-/
namespace LevelGuard.Java

/-- The types of a part of a file before and after they are named, in a body of the owner. -/
structure Renamed (owner : Option String) (o o' : Outline TypeDecl) : Prop where
  heads : o'.map TypeDecl.head = o.map TypeDecl.head
  members : ∀ d ∈ o'.written, ∀ c, Member.type c ∈ d.members → c.qualified = d.qualified ++ "." ++ c.name
  longer : ∀ q ∈ owner, ∀ d ∈ o'.written, q.length < d.qualified.length

namespace Renamed

variable {owner : Option String} {q : String} {o o' p p' : Outline TypeDecl}

theorem blank : Renamed owner .blank .blank := ⟨rfl, nofun, nofun⟩

theorem both (h : Renamed owner o o') (h' : Renamed owner p p') :
    Renamed owner (.both o p) (.both o' p') where
  heads := by rw [Outline.map, Outline.map, h.heads, h'.heads]
  members := List.forall_mem_append.mpr ⟨h.members, h'.members⟩
  longer q hq := List.forall_mem_append.mpr ⟨h.longer q hq, h'.longer q hq⟩

theorem loop (h : Renamed owner o o') (h' : Renamed owner p p') :
    Renamed owner (.loop o p) (.loop o' p') where
  heads := by rw [Outline.map, Outline.map, h.heads, h'.heads]
  members := (h.both h').members
  longer := (h.both h').longer

theorem aside (h : Renamed owner o o') : Renamed owner (.aside o) (.aside o') where
  heads := by rw [Outline.map, Outline.map, h.heads]
  members := h.members
  longer := h.longer

/-- What is longer than a name is longer than what that is longer than. -/
theorem within (h : Renamed (some q) o o') (hq : ∀ p ∈ owner, p.length < q.length) :
    Renamed owner o o' where
  heads := h.heads
  members := h.members
  longer p hp d hd := Nat.lt_trans (hq p hp) (h.longer q rfl d hd)

end Renamed

/-- A walk through a part of a file, in a body of the owner: the numbers it takes, the names of
member types, the types it has named, and the outline of the part before and after. -/
structure Walked (owner : Option String) (i j : Nat) (members : List String) (ps : List Enclosed)
    (o o' : Outline TypeDecl) : Prop where
  numbered : Numbered owner i j members ps
  renamed : Renamed owner o o'

namespace Walked

variable {owner : Option String} {i j k : Nat} {members members' : List String}
  {ps ps' : List Enclosed} {o o' p p' : Outline TypeDecl}

theorem blank : Walked owner i i [] [] .blank .blank := ⟨.nil, .blank⟩

theorem both (h : Walked owner i j members ps o o') (h' : Walked owner j k members' ps' p p') :
    Walked owner i k (members ++ members') (ps ++ ps') (.both o p) (.both o' p') :=
  ⟨h.numbered.append h'.numbered, h.renamed.both h'.renamed⟩

theorem loop (h : Walked owner i j members ps o o') (h' : Walked owner j k members' ps' p p') :
    Walked owner i k (members ++ members') (ps ++ ps') (.loop o p) (.loop o' p') :=
  ⟨h.numbered.append h'.numbered, h.renamed.loop h'.renamed⟩

theorem aside (h : Walked owner i j members ps o o') :
    Walked owner i j members ps (.aside o) (.aside o') :=
  ⟨h.numbered, h.renamed.aside⟩

end Walked

def Walks {α : Type} (owner : Option String) (step : Numbering α) (members : α → List String)
    (listed : α → List Enclosed) (before : Outline TypeDecl) (outline : α → Outline TypeDecl) : Prop :=
  ∀ i, Walked owner i (step.run i).2 (members (step.run i).1) (listed (step.run i).1) before
    (outline (step.run i).1)

/-- The members of a type before and after the types among them are named. -/
structure MembersNamed (q : String) (before after : List Member) : Prop where
  names : typeNames after = typeNames before
  qualified : ∀ c, Member.type c ∈ after → c.qualified = q ++ "." ++ c.name

theorem MembersNamed.cons {q : String} {m m' : Member} {before after : List Member}
    (h : MembersNamed q before after) (hname : typeNames [m'] = typeNames [m])
    (hq : ∀ c, m' = .type c → c.qualified = q ++ "." ++ c.name) :
    MembersNamed q (m :: before) (m' :: after) where
  names := by
    have happend : ∀ (m : Member) (ms : List Member), typeNames (m :: ms) = typeNames [m] ++ typeNames ms :=
      fun m ms => List.filterMap_append (l := [m])
    rw [happend m' after, happend m before, hname, h.names]
  qualified c hc := by
    rcases List.mem_cons.mp hc with heq | hc
    · exact hq c heq.symm
    · exact h.qualified c hc

theorem membersNamed (q : String) (shared : Option (Span × List Annotation)) (members : List Member)
    (i : Nat) : MembersNamed q members ((nameMembers q shared members).run i).1 := by
  induction members generalizing shared i with
  | nil => exact ⟨rfl, nofun⟩
  | cons m rest ih =>
    cases m with
    | method m => cases m; exact (ih _ _).cons rfl nofun
    | field f =>
      rw [nameMembers_field]
      exact (ih _ _).cons rfl nofun
    | type d =>
      cases d
      refine (ih _ _).cons rfl ?_
      rintro _ ⟨⟩
      rfl
    | initializer isStatic body => exact (ih _ _).cons rfl nofun
    | constant c =>
      obtain ⟨n, annotations, args, body, span⟩ := c
      cases body with
      | none => exact (ih _ _).cons rfl nofun
      | some d => cases d; exact (ih _ _).cons rfl nofun

theorem length_lt_nestedName (owner : Option String) (simple : String) (i : Nat) :
    ∀ q ∈ owner, q.length < ((nestedName owner simple).run i).1.length := by
  rintro q rfl
  change q.length < (q ++ "$" ++ toString (i + 1) ++ simple).length
  have hdollar : "$".length = 1 := rfl
  simp only [String.length_append]
  omega

theorem length_lt_member (q simple : String) : q.length < (q ++ "." ++ simple).length := by
  have hdot : ".".length = 1 := rfl
  simp only [String.length_append]
  omega

section Decl

variable {owner : Option String} {members : List Member} {simple q₀ q : String} {kind : TypeKind}
  {annotations annotations' : List Annotation} {superClass superClass' : Option TypeRef}
  {interfaces : List TypeRef} {span : Span}

theorem renamed_type (hq : ∀ p ∈ owner, p.length < q.length) :
    Renamed owner (.type ⟨simple, q₀, kind, annotations, superClass, interfaces, members, span⟩)
      (.type ⟨simple, q, kind, annotations', superClass', interfaces, (nameMembers q none members).fresh,
        span⟩) := by
  have hnamed := membersNamed q none members 0
  refine ⟨?_, List.forall_mem_singleton.mpr hnamed.qualified, fun p hp => ?_⟩
  · exact congrArg (fun names => Outline.type (⟨span.startByte, simple, names⟩ : Head)) hnamed.names
  · exact List.forall_mem_singleton.mpr (hq p hp)

variable (h : ∀ q, Walks (some q) (nameMembers q none members) typeNames (membersNested none)
  (membersOutline none members) (membersOutline none))
include h

theorem renamed_body (hq : ∀ p ∈ owner, p.length < q.length) :
    Renamed owner (bodyOutline ⟨simple, q₀, kind, annotations, superClass, interfaces, members, span⟩)
      (bodyOutline ⟨simple, q, kind, annotations', superClass', interfaces,
        (nameMembers q none members).fresh, span⟩) :=
  (renamed_type hq).both ((h q 0).renamed.within hq)

theorem renamed_decl (hq : ∀ p ∈ owner, p.length < q.length)
    (hannotations : Renamed owner (annotationsOutline annotations) (annotationsOutline annotations')) :
    Renamed owner (declOutline ⟨simple, q₀, kind, annotations, superClass, interfaces, members, span⟩)
      (declOutline ⟨simple, q, kind, annotations', superClass', interfaces,
        (nameMembers q none members).fresh, span⟩) :=
  ((renamed_type hq).both hannotations.aside).both ((h q 0).renamed.within hq)

/-- A class with the next name in a body of the owner, and a numbering of its own. -/
theorem numbered_next (owner : Option String) (i : Nat) :
    Numbered owner i ((nestedName owner simple).run i).2 []
      (bodyNested ⟨simple, ((nestedName owner simple).run i).1, kind, annotations, superClass, interfaces,
        (nameMembers ((nestedName owner simple).run i).1 none members).fresh, span⟩) := by
  have hinner := h ((nestedName owner simple).run i).1 0
  let d : TypeDecl := ⟨simple, ((nestedName owner simple).run i).1, kind, annotations, superClass,
    interfaces, (nameMembers ((nestedName owner simple).run i).1 none members).fresh, span⟩
  exact Numbered.next_body (d := d) hinner.numbered rfl

theorem numbered_member (q : String) (i : Nat) :
    Numbered (some q) i i [simple]
      (bodyNested ⟨simple, q ++ "." ++ simple, kind, annotations, superClass, interfaces,
        (nameMembers (q ++ "." ++ simple) none members).fresh, span⟩) := by
  have hinner := h (q ++ "." ++ simple) 0
  let d : TypeDecl := ⟨simple, q ++ "." ++ simple, kind, annotations, superClass, interfaces,
    (nameMembers (q ++ "." ++ simple) none members).fresh, span⟩
  exact Numbered.member_body (d := d) hinner.numbered rfl

end Decl

theorem walks_fieldAnnotations {q : String} {annotations : List Annotation}
    (h : Walks (some q) (nameAnnotations (some q) annotations) (fun _ => []) annotationsNested
      (annotationsOutline annotations) annotationsOutline)
    (shared : Option (Span × List Annotation)) (span : Span) :
    Walks (some q) (fieldAnnotations q shared span annotations) (fun _ => [])
      (fun as => if shared.map Prod.fst = some span then [] else annotationsNested as)
      (if shared.map Prod.fst = some span then .blank else annotationsOutline annotations)
      (fun as => if shared.map Prod.fst = some span then .blank else annotationsOutline as) := by
  intro i
  rcases shared with _ | ⟨s, before⟩
  · exact h i
  · by_cases hs : s = span
    · simp only [fieldAnnotations, hs, if_true, Option.map_some]
      exact .blank
    · simp only [fieldAnnotations, hs, if_false, Option.map_some, Option.some.injEq]
      exact h i

mutual

theorem walks_expr (owner : Option String) : (e : Expr) →
    Walks owner (nameExpr owner e) (fun _ => []) exprNested (exprOutline e) exprOutline
  | .name .. | .literal .. | .classLit .. | .this _ | .super _ => fun _ => .blank
  | .fieldAccess _ target _ => fun i => walks_expr owner target i
  | .call _ target _ args => fun i => (walks_expr? owner target i).both (walks_exprs owner args _)
  | .new _ _ args none => fun i => (walks_exprs owner args i).both .blank
  | .new _ _ args (some ⟨simple, _, _, _, _, _, members, _⟩) => fun i =>
    (walks_exprs owner args i).both ⟨numbered_next (fun q => walks_members q none members) owner _,
      renamed_body (fun q => walks_members q none members) (length_lt_nestedName owner simple _)⟩
  | .newArray _ _ dims init => fun i => (walks_exprs owner dims i).both (walks_exprs owner init _)
  | .arrayInit _ items => fun i => walks_exprs owner items i
  | .binary _ _ lhs rhs => fun i => (walks_expr owner lhs i).both (walks_expr owner rhs _)
  | .unary _ _ operand => fun i => walks_expr owner operand i
  | .conditional _ cond yes no => fun i =>
    ((walks_expr owner cond i).both (walks_expr owner yes _)).both (walks_expr owner no _)
  | .assign _ target value => fun i => (walks_expr owner target i).both (walks_expr owner value _)
  | .cast _ _ operand => fun i => walks_expr owner operand i
  | .instanceOf _ operand _ => fun i => walks_expr owner operand i
  | .lambda _ _ (.expr e) => fun i => walks_expr owner e i
  | .lambda _ _ (.block b) => fun i => walks_block owner b i
  | .methodRef _ target _ => fun i => walks_expr owner target i
  | .arrayAccess _ array index => fun i => (walks_expr owner array i).both (walks_expr owner index _)
  | .switch _ selector cases => fun i =>
    (walks_expr owner selector i).both (walks_cases owner cases _)
  | .unknown _ parts => fun i => walks_exprs owner parts i

theorem walks_expr? (owner : Option String) : (e : Option Expr) →
    Walks owner (nameExpr? owner e) (fun _ => []) exprNested? (exprOutline? e) exprOutline?
  | none => fun _ => .blank
  | some e => fun i => walks_expr owner e i

theorem walks_exprs (owner : Option String) : (es : List Expr) →
    Walks owner (nameExprs owner es) (fun _ => []) exprsNested (exprsOutline es) exprsOutline
  | [] => fun _ => .blank
  | e :: es => fun i => (walks_expr owner e i).both (walks_exprs owner es _)

theorem walks_block (owner : Option String) : (b : Block) →
    Walks owner (nameBlock owner b) (fun _ => []) blockNested (blockOutline b) blockOutline
  | ⟨stmts, _⟩ => fun i => walks_stmts owner stmts i

theorem walks_block? (owner : Option String) : (b : Option Block) →
    Walks owner (nameBlock? owner b) (fun _ => []) blockNested? (blockOutline? b) blockOutline?
  | none => fun _ => .blank
  | some b => fun i => walks_block owner b i

theorem walks_var (owner : Option String) : (v : LocalVar) →
    Walks owner (nameVar owner v) (fun _ => []) varNested (varOutline v) varOutline
  | ⟨_, _, _, init, _, annotations⟩ => fun i =>
    (walks_annotations owner annotations i).aside.both (walks_expr? owner init _)

theorem walks_vars (owner : Option String) : (vars : List LocalVar) →
    Walks owner (nameVars owner vars) (fun _ => []) varsNested (varsOutline vars) varsOutline
  | [] => fun _ => .blank
  | v :: rest => fun i => (walks_var owner v i).both (walks_vars owner rest _)

theorem walks_stmt (owner : Option String) : (st : Stmt) →
    Walks owner (nameStmt owner st) (fun _ => []) stmtNested (stmtOutline st) stmtOutline
  | .block _ b => fun i => walks_block owner b i
  | .vars _ decls => fun i => walks_vars owner decls i
  | .expr _ e | .throws _ e | .yields _ e => fun i => walks_expr owner e i
  | .returns _ e => fun i => walks_expr? owner e i
  | .ifElse _ cond yes no => fun i =>
    ((walks_expr owner cond i).both (walks_stmt owner yes _)).both (walks_stmt? owner no _)
  | .whileLoop _ cond body => fun i => (walks_expr owner cond i).both (walks_stmt owner body _)
  | .doWhile _ body cond => fun i => (walks_stmt owner body i).loop (walks_expr owner cond _)
  | .forLoop _ init cond update body => fun i =>
    (((walks_stmts owner init i).both (walks_expr? owner cond _)).both
      (walks_exprs owner update _)).both (walks_stmt owner body _)
  | .forEach _ item iterable body => fun i =>
    ((walks_var owner item i).aside.both (walks_expr owner iterable _)).both (walks_stmt owner body _)
  | .switch _ selector cases => fun i =>
    (walks_expr owner selector i).both (walks_cases owner cases _)
  | .tryCatch _ _ resources body catches always => fun i =>
    (((walks_stmts owner resources i).both (walks_block owner body _)).both
      (walks_catches owner catches _)).both (walks_block? owner always _)
  | .labeled _ _ body => fun i => walks_stmt owner body i
  | .synchronized _ lock body => fun i => (walks_expr owner lock i).both (walks_block owner body _)
  | .localClass _ ⟨simple, _, _, annotations, _, _, members, _⟩ => fun i =>
    have hannotations := walks_annotations owner annotations _
    ⟨(numbered_next (fun q => walks_members q none members) owner i).append hannotations.numbered,
      renamed_decl (fun q => walks_members q none members) (length_lt_nestedName owner simple i)
        hannotations.renamed⟩
  | .asserts _ cond message => fun i => (walks_expr owner cond i).both (walks_expr? owner message _)
  | .breaks .. | .continues .. | .empty _ => fun _ => .blank

theorem walks_stmt? (owner : Option String) : (st : Option Stmt) →
    Walks owner (nameStmt? owner st) (fun _ => []) stmtNested? (stmtOutline? st) stmtOutline?
  | none => fun _ => .blank
  | some st => fun i => walks_stmt owner st i

theorem walks_stmts (owner : Option String) : (stmts : List Stmt) →
    Walks owner (nameStmts owner stmts) (fun _ => []) stmtsNested (stmtsOutline stmts) stmtsOutline
  | [] => fun _ => .blank
  | st :: rest => fun i => (walks_stmt owner st i).both (walks_stmts owner rest _)

theorem walks_cases (owner : Option String) : (cases : List SwitchCase) →
    Walks owner (nameCases owner cases) (fun _ => []) casesNested (casesOutline cases) casesOutline
  | [] => fun _ => .blank
  | ⟨labels, _, _, body, _⟩ :: rest => fun i =>
    ((walks_exprs owner labels i).aside.both (walks_stmts owner body _)).both
      (walks_cases owner rest _)

theorem walks_catches (owner : Option String) : (catches : List CatchClause) →
    Walks owner (nameCatches owner catches) (fun _ => []) catchesNested (catchesOutline catches) catchesOutline
  | [] => fun _ => .blank
  | ⟨_, _, body, _⟩ :: rest => fun i => (walks_block owner body i).both (walks_catches owner rest _)

theorem walks_args (owner : Option String) : (args : List AnnotationArg) →
    Walks owner (nameArgs owner args) (fun _ => []) argsNested (argsOutline args) argsOutline
  | [] => fun _ => .blank
  | ⟨_, value⟩ :: rest => fun i => (walks_expr owner value i).both (walks_args owner rest _)

theorem walks_annotations (owner : Option String) : (annotations : List Annotation) →
    Walks owner (nameAnnotations owner annotations) (fun _ => []) annotationsNested (annotationsOutline annotations) annotationsOutline
  | [] => fun _ => .blank
  | ⟨_, args, _⟩ :: rest => fun i => (walks_args owner args i).both (walks_annotations owner rest _)

theorem walks_members (q : String) (shared : Option (Span × List Annotation)) :
    (members : List Member) → Walks (some q) (nameMembers q shared members) typeNames
      (membersNested (shared.map Prod.fst)) (membersOutline (shared.map Prod.fst) members)
      (membersOutline (shared.map Prod.fst))
  | [] => fun _ => .blank
  | .method ⟨_, _, _, annotations, _, _, _, _, body, _, _⟩ :: rest => fun i =>
    ((walks_annotations (some q) annotations i).aside.both (walks_block? (some q) body _)).both
      (walks_members q none rest _)
  | .field ⟨_, type, _, _, _, annotations, init, _⟩ :: rest => by
    have hown := walks_fieldAnnotations (walks_annotations (some q) annotations) shared type.span
    have hinit := walks_expr? (some q) init
    have hrest := fun as => walks_members q (some (type.span, as)) rest
    intro i
    rw [nameMembers_field]
    exact ((hown i).aside.both (hinit _)).both (hrest _ _)
  | .type ⟨simple, _, _, annotations, _, _, members, _⟩ :: rest => fun i =>
    have hannotations := walks_annotations (some q) annotations i
    Walked.both ⟨(numbered_member (fun q => walks_members q none members) q i).append
        hannotations.numbered,
      renamed_decl (fun q => walks_members q none members)
        (fun _ hp => Option.some.inj hp ▸ length_lt_member q simple) hannotations.renamed⟩
      (walks_members q none rest _)
  | .initializer _ body :: rest => fun i =>
    (walks_block (some q) body i).both (walks_members q none rest _)
  | .constant ⟨_, annotations, args, none, _⟩ :: rest => fun i =>
    (((walks_annotations (some q) annotations i).aside.both (walks_exprs (some q) args _)).both
      .blank).both (walks_members q none rest _)
  | .constant ⟨_, annotations, args, some ⟨simple, _, _, _, _, _, members, _⟩, _⟩ :: rest => fun i =>
    (((walks_annotations (some q) annotations i).aside.both (walks_exprs (some q) args _)).both
      ⟨numbered_next (fun q => walks_members q none members) (some q) _,
        renamed_body (fun q => walks_members q none members)
          (length_lt_nestedName (some q) simple _)⟩).both (walks_members q none rest _)

end

theorem renamed_topType (package : Option String) (c : TypeDecl) :
    Renamed none (declOutline c) (declOutline (nameTopType package c)) := by
  cases c with
  | mk simple q₀ kind annotations superClass interfaces members span =>
    exact renamed_decl (fun q => walks_members q none members) nofun
      (walks_annotations none annotations 0).renamed

theorem renamed_topTypes (package : Option String) (types : List TypeDecl) :
    Renamed none (declsOutline types) (declsOutline (types.map (nameTopType package))) := by
  induction types with
  | nil => exact .blank
  | cons c types ih => exact (renamed_topType package c).both ih

/-- What stands before the simple name of a type of the package. -/
def packageLead : Option String → List Char
  | none => []
  | some p => p.toList ++ ['.']

theorem toList_qualified_nameTopType (package : Option String) (c : TypeDecl) :
    (nameTopType package c).qualified.toList = packageLead package ++ c.name.toList := by
  cases package with
  | none => rfl
  | some p => simp [nameTopType, packageLead]

/-- No type has a shorter name than the outermost type around it. -/
theorem length_nameTopType_le {package : Option String} {c d : TypeDecl}
    (hd : d ∈ declTypes (nameTopType package c)) :
    (nameTopType package c).qualified.length ≤ d.qualified.length := by
  rw [declTypes_eq] at hd
  rcases List.mem_cons.mp hd with rfl | hd
  · exact Nat.le_refl _
  · have hmembers := (walks_members (nameTopType package c).qualified none c.members 0).renamed
    rw [← (shows_members none _).visited] at hd
    exact Nat.le_of_lt (hmembers.longer _ rfl d (Outline.mem_written_of_mem_visited hd))

/-- The names of the types of a file are those that the walk through its tree gives: the simple
ones are words, but for types without a name, and the qualified ones are made of them. -/
structure CompilationUnit.Named (u : CompilationUnit) : Prop where
  walked : ∃ types : List TypeDecl, u.types = types.map (nameTopType u.package)
  proper : ∀ d ∈ u.outline.written, d.head.Proper
  words : ∀ d ∈ u.types, IsWord d.name

theorem CompilationUnit.Named.qualified_member {u : CompilationUnit} (h : u.Named) {c d : TypeDecl}
    (hd : d ∈ u.outline.written) (hc : Member.type c ∈ d.members) :
    c.qualified = d.qualified ++ "." ++ c.name := by
  obtain ⟨types, htypes⟩ := h.walked
  rw [outline, htypes] at hd
  exact (renamed_topTypes u.package types).members d hd c hc

section Read

variable {path source : String} {u : CompilationUnit} (hread : readUnit? path source = some u)
include hread

/-- The types of a file are those of its source with their names. -/
theorem exists_syntax_of_readUnit? : ∃ raw, parseUnit? source = some raw ∧
    u.types = raw.types.map (nameTopType u.package) ∧
    u.outline.heads = (declsOutline raw.types).heads := by
  obtain ⟨raw, hraw, rfl⟩ := Option.map_eq_some_iff.mp hread
  refine ⟨raw, hraw, rfl, ?_⟩
  rw [CompilationUnit.outline, Outline.heads, (renamed_topTypes raw.package raw.types).heads]
  rfl

/-- The types of a file begin one after the other. -/
theorem heads_inOrder : u.outline.heads.Pairwise fun a b => a.start < b.start := by
  obtain ⟨raw, hraw, -, hheads⟩ := exists_syntax_of_readUnit? hread
  rw [hheads]
  exact (inOrder_of_parseUnit? hraw).1

theorem named_of_readUnit? : u.Named := by
  obtain ⟨raw, hraw, htypes, hheads⟩ := exists_syntax_of_readUnit? hread
  obtain ⟨-, hproper, hwords⟩ := inOrder_of_parseUnit? hraw
  refine ⟨⟨raw.types, htypes⟩, fun d hd => hproper d.head ?_, fun d hd => ?_⟩
  · rw [← hheads, Outline.heads_eq]
    exact List.mem_map_of_mem hd
  · rw [htypes] at hd
    obtain ⟨c, hc, rfl⟩ := List.mem_map.mp hd
    exact hwords c hc

end Read

end LevelGuard.Java
