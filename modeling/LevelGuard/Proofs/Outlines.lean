import LevelGuard.Proofs.Enclosing

/-!
# Where the types of a file stand

The outline of a part of a file is what is left of it when all but its types is taken away:
they follow each other as in the text, and some stand in a label of a switch case or in an
annotation, or in a loop whose condition comes after its body. From an outline it can be
told which types a file is asked for, in which order, and which it keeps to itself. It is
asked for them in the order of the text exactly if no loop of this kind has such types both
in its body and in its condition. It is also asked for all types around those that it is
asked for.
-/
namespace LevelGuard.Java

/-- The types of a part of a file in the order of the text. -/
inductive Outline (α : Type) where
  | blank
  | type (a : α)
  | both (first second : Outline α)
  /-- What stands in the label of a switch case or in an annotation. -/
  | aside (inner : Outline α)
  /-- A loop whose condition stands after its body. -/
  | loop (body cond : Outline α)

namespace Outline

variable {α β : Type}

def map (f : α → β) : Outline α → Outline β
  | .blank => .blank
  | .type a => .type (f a)
  | .both first second => .both (first.map f) (second.map f)
  | .aside inner => .aside (inner.map f)
  | .loop body cond => .loop (body.map f) (cond.map f)

def written : Outline α → List α
  | .blank => []
  | .type a => [a]
  | .both first second => first.written ++ second.written
  | .aside inner => inner.written
  | .loop body cond => body.written ++ cond.written

/-- The types that a file is asked for; the condition of a loop comes first. -/
def visited : Outline α → List α
  | .blank | .aside _ => []
  | .type a => [a]
  | .both first second => first.visited ++ second.visited
  | .loop body cond => cond.visited ++ body.visited

/-- The types in labels and annotations. -/
def hidden : Outline α → List α
  | .blank | .type _ => []
  | .both first second => first.hidden ++ second.hidden
  | .aside inner => inner.written
  | .loop body cond => body.hidden ++ cond.hidden

/-- Whether no loop with its condition at the end has types to visit both there and in its
body. -/
def isStraight : Outline α → Bool
  | .blank | .type _ | .aside _ => true
  | .both first second => first.isStraight && second.isStraight
  | .loop body cond =>
    body.isStraight && cond.isStraight && (body.visited.isEmpty || cond.visited.isEmpty)

theorem written_map (f : α → β) (o : Outline α) : (o.map f).written = o.written.map f := by
  induction o with
  | blank => rfl
  | type a => rfl
  | both first second hfirst hsecond => simp only [map, written, hfirst, hsecond, List.map_append]
  | aside inner h => exact h
  | loop body cond hbody hcond => simp only [map, written, hbody, hcond, List.map_append]

/-- Every type is either visited or hidden, as often as it is written. -/
theorem visited_append_hidden_perm (o : Outline α) : (o.visited ++ o.hidden).Perm o.written := by
  induction o with
  | blank => exact .refl _
  | type a => exact .refl _
  | both first second hfirst hsecond =>
    refine .trans ?_ (hfirst.append hsecond)
    simp only [visited, hidden, List.append_assoc]
    exact (List.perm_append_comm_assoc _ _ _).append_left _
  | aside inner _ => exact .refl _
  | loop body cond hbody hcond =>
    refine .trans ?_ (hbody.append hcond)
    simp only [visited, hidden, List.append_assoc]
    refine (List.perm_append_comm_assoc _ _ _).trans (.append_left _ ?_)
    exact List.perm_append_comm_assoc _ _ _

theorem mem_written_of_mem_visited {o : Outline α} {a : α} (h : a ∈ o.visited) : a ∈ o.written :=
  o.visited_append_hidden_perm.subset (List.mem_append_left _ h)

/-- Types are visited in the order in which they are written exactly if all loops are
straight. -/
theorem pairwise_visited_iff {r : α → α → Prop} (hr : ∀ a b, r a b → ¬ r b a) {o : Outline α}
    (h : o.written.Pairwise r) : o.visited.Pairwise r ↔ o.isStraight = true := by
  induction o with
  | blank => simp [visited, isStraight]
  | type a => simp [visited, isStraight]
  | both first second hfirst hsecond =>
    obtain ⟨hleft, hright, hcross⟩ := List.pairwise_append.mp h
    have hvisited : ∀ a ∈ first.visited, ∀ b ∈ second.visited, r a b := fun a ha b hb =>
      hcross a (mem_written_of_mem_visited ha) b (mem_written_of_mem_visited hb)
    rw [visited, List.pairwise_append, hfirst hleft, hsecond hright, isStraight, Bool.and_eq_true]
    exact ⟨fun h => ⟨h.1, h.2.1⟩, fun h => ⟨h.1, h.2, hvisited⟩⟩
  | aside inner _ => simp [visited, isStraight]
  | loop body cond hbody hcond =>
    obtain ⟨hleft, hright, hcross⟩ := List.pairwise_append.mp h
    rw [visited, List.pairwise_append, hbody hleft, hcond hright, isStraight, Bool.and_eq_true,
      Bool.and_eq_true, Bool.or_eq_true, List.isEmpty_iff, List.isEmpty_iff]
    constructor
    · rintro ⟨hcondStraight, hbodyStraight, hback⟩
      refine ⟨⟨hbodyStraight, hcondStraight⟩, ?_⟩
      by_cases hempty : body.visited = []
      · exact .inl hempty
      -- A type of the body and one of the condition would have to come before each other.
      · obtain ⟨a, ha⟩ := List.exists_mem_of_ne_nil _ hempty
        refine .inr (List.eq_nil_iff_forall_not_mem.mpr fun b hb => hr b a (hback b hb a ha) ?_)
        exact hcross a (mem_written_of_mem_visited ha) b (mem_written_of_mem_visited hb)
    · rintro ⟨⟨hbodyStraight, hcondStraight⟩, hempty⟩
      refine ⟨hcondStraight, hbodyStraight, fun b hb a ha => ?_⟩
      rcases hempty with hempty | hempty
      · rw [hempty] at ha
        cases ha
      · rw [hempty] at hb
        cases hb

end Outline

mutual

def exprOutline : Expr → Outline TypeDecl
  | .name .. | .literal .. | .classLit .. | .this _ | .super _ => .blank
  | .fieldAccess _ target _ => exprOutline target
  | .call _ target _ args => .both (exprOutline? target) (exprsOutline args)
  | .new _ _ args body => .both (exprsOutline args) (bodyOutline? body)
  | .newArray _ _ dims init => .both (exprsOutline dims) (exprsOutline init)
  | .arrayInit _ items => exprsOutline items
  | .binary _ _ lhs rhs => .both (exprOutline lhs) (exprOutline rhs)
  | .unary _ _ operand => exprOutline operand
  | .conditional _ cond yes no => .both (.both (exprOutline cond) (exprOutline yes)) (exprOutline no)
  | .assign _ target value => .both (exprOutline target) (exprOutline value)
  | .cast _ _ operand => exprOutline operand
  | .instanceOf _ operand _ => exprOutline operand
  | .lambda _ _ (.expr e) => exprOutline e
  | .lambda _ _ (.block b) => blockOutline b
  | .methodRef _ target _ => exprOutline target
  | .arrayAccess _ array index => .both (exprOutline array) (exprOutline index)
  | .switch _ selector cases => .both (exprOutline selector) (casesOutline cases)
  | .unknown _ parts => exprsOutline parts

def exprOutline? : Option Expr → Outline TypeDecl
  | none => .blank
  | some e => exprOutline e

def exprsOutline : List Expr → Outline TypeDecl
  | [] => .blank
  | e :: es => .both (exprOutline e) (exprsOutline es)

def blockOutline : Block → Outline TypeDecl
  | ⟨stmts, _⟩ => stmtsOutline stmts

def blockOutline? : Option Block → Outline TypeDecl
  | none => .blank
  | some b => blockOutline b

def varOutline : LocalVar → Outline TypeDecl
  | ⟨_, _, _, init, _, annotations⟩ =>
    .both (.aside (annotationsOutline annotations)) (exprOutline? init)

def varsOutline : List LocalVar → Outline TypeDecl
  | [] => .blank
  | v :: rest => .both (varOutline v) (varsOutline rest)

def stmtOutline : Stmt → Outline TypeDecl
  | .block _ b => blockOutline b
  | .vars _ decls => varsOutline decls
  | .expr _ e | .throws _ e | .yields _ e => exprOutline e
  | .returns _ e => exprOutline? e
  | .ifElse _ cond yes no => .both (.both (exprOutline cond) (stmtOutline yes)) (stmtOutline? no)
  | .whileLoop _ cond body => .both (exprOutline cond) (stmtOutline body)
  | .doWhile _ body cond => .loop (stmtOutline body) (exprOutline cond)
  | .forLoop _ init cond update body =>
    .both (.both (.both (stmtsOutline init) (exprOutline? cond)) (exprsOutline update))
      (stmtOutline body)
  | .forEach _ item iterable body =>
    .both (.both (.aside (varOutline item)) (exprOutline iterable)) (stmtOutline body)
  | .switch _ selector cases => .both (exprOutline selector) (casesOutline cases)
  | .tryCatch _ _ resources body catches always =>
    .both (.both (.both (stmtsOutline resources) (blockOutline body)) (catchesOutline catches))
      (blockOutline? always)
  | .labeled _ _ body => stmtOutline body
  | .synchronized _ lock body => .both (exprOutline lock) (blockOutline body)
  | .localClass _ d => declOutline d
  | .asserts _ cond message => .both (exprOutline cond) (exprOutline? message)
  | .breaks .. | .continues .. | .empty _ => .blank

def stmtOutline? : Option Stmt → Outline TypeDecl
  | none => .blank
  | some st => stmtOutline st

def stmtsOutline : List Stmt → Outline TypeDecl
  | [] => .blank
  | st :: rest => .both (stmtOutline st) (stmtsOutline rest)

def casesOutline : List SwitchCase → Outline TypeDecl
  | [] => .blank
  | ⟨labels, _, _, body, _⟩ :: rest =>
    .both (.both (.aside (exprsOutline labels)) (stmtsOutline body)) (casesOutline rest)

def catchesOutline : List CatchClause → Outline TypeDecl
  | [] => .blank
  | ⟨_, _, body, _⟩ :: rest => .both (blockOutline body) (catchesOutline rest)

def argsOutline : List AnnotationArg → Outline TypeDecl
  | [] => .blank
  | ⟨_, value⟩ :: rest => .both (exprOutline value) (argsOutline rest)

def annotationsOutline : List Annotation → Outline TypeDecl
  | [] => .blank
  | ⟨_, args, _⟩ :: rest => .both (argsOutline args) (annotationsOutline rest)

def bodyOutline : TypeDecl → Outline TypeDecl
  | ⟨n, q, kind, annotations, superClass, interfaces, members, span⟩ =>
    .both (.type ⟨n, q, kind, annotations, superClass, interfaces, members, span⟩)
      (membersOutline none members)

def bodyOutline? : Option TypeDecl → Outline TypeDecl
  | none => .blank
  | some d => bodyOutline d

def declOutline : TypeDecl → Outline TypeDecl
  | ⟨n, q, kind, annotations, superClass, interfaces, members, span⟩ =>
    .both (.both (.type ⟨n, q, kind, annotations, superClass, interfaces, members, span⟩)
      (.aside (annotationsOutline annotations))) (membersOutline none members)

/-- Members, where an annotation that several fields share is written once; `shared` is the
range of the type that the field before them has, if there is one. -/
def membersOutline (shared : Option Span) : List Member → Outline TypeDecl
  | [] => .blank
  | .method ⟨_, _, _, annotations, _, _, _, _, body, _, _⟩ :: rest =>
    .both (.both (.aside (annotationsOutline annotations)) (blockOutline? body))
      (membersOutline none rest)
  | .field ⟨_, type, _, _, _, annotations, init, _⟩ :: rest =>
    .both (.both (.aside (if shared = some type.span then .blank else annotationsOutline annotations))
      (exprOutline? init)) (membersOutline (some type.span) rest)
  | .type d :: rest => .both (declOutline d) (membersOutline none rest)
  | .initializer _ body :: rest => .both (blockOutline body) (membersOutline none rest)
  | .constant ⟨_, annotations, args, body, _⟩ :: rest =>
    .both (.both (.both (.aside (annotationsOutline annotations)) (exprsOutline args))
      (bodyOutline? body)) (membersOutline none rest)

end

def declsOutline : List TypeDecl → Outline TypeDecl
  | [] => .blank
  | d :: rest => .both (declOutline d) (declsOutline rest)

def CompilationUnit.outline (u : CompilationUnit) : Outline TypeDecl := declsOutline u.types

/-- What places a type in a file: where it begins, its simple name and those of its member
types. -/
structure Head where
  start : Nat
  name : String
  members : List String

def TypeDecl.head (d : TypeDecl) : Head := ⟨d.span.startByte, d.name, typeNames d.members⟩

def Outline.heads (o : Outline TypeDecl) : List Head := (o.map TypeDecl.head).written

theorem Outline.heads_eq (o : Outline TypeDecl) : o.heads = o.written.map TypeDecl.head :=
  o.written_map TypeDecl.head

theorem declTypes_eq (d : TypeDecl) : declTypes d = d :: membersTypes d.members := by
  cases d
  rfl

/-- The types of a list are those that are written, in some order. -/
def Outline.Lists (o : Outline TypeDecl) (ps : List Enclosed) : Prop := (ps.map (·.1)).Perm o.written

theorem Outline.Lists.append {o o' : Outline TypeDecl} {ps ps' : List Enclosed} (h : o.Lists ps)
    (h' : o'.Lists ps') : (o.both o').Lists (ps ++ ps') := by
  rw [Lists, List.map_append]
  exact List.Perm.append h h'

/-- The types are listed, with none but types of the same list around them. -/
def Listed (ds : List TypeDecl) (ps : List Enclosed) : Prop :=
  ∀ d ∈ ds, ∃ around, (d, around) ∈ ps ∧ ∀ a ∈ around, a ∈ ds

namespace Listed

variable {ds ds' : List TypeDecl} {ps ps' : List Enclosed}

theorem nil : Listed [] ps := nofun

theorem mono (h : Listed ds ps) (hps : ∀ p ∈ ps, p ∈ ps') : Listed ds ps' := by
  intro d hd
  obtain ⟨around, hmem, haround⟩ := h d hd
  exact ⟨around, hps _ hmem, haround⟩

theorem append (h : Listed ds ps) (h' : Listed ds' ps') : Listed (ds ++ ds') (ps ++ ps') := by
  intro d hd
  rcases List.mem_append.mp hd with hd | hd
  · obtain ⟨around, hmem, haround⟩ := h d hd
    exact ⟨around, List.mem_append_left _ hmem, fun a ha => List.mem_append_left _ (haround a ha)⟩
  · obtain ⟨around, hmem, haround⟩ := h' d hd
    exact ⟨around, List.mem_append_right _ hmem, fun a ha => List.mem_append_right _ (haround a ha)⟩

theorem swapped (h : Listed ds ps) (h' : Listed ds' ps') : Listed (ds ++ ds') (ps' ++ ps) :=
  (h.append h').mono fun _ hp => List.mem_append.mpr (List.mem_append.mp hp).symm

theorem after (h : Listed ds ps) (ps' : List Enclosed) : Listed ds (ps ++ ps') :=
  h.mono fun _ hp => List.mem_append_left _ hp

theorem body (h : Listed ds ps) (d : TypeDecl) :
    Listed (d :: ds) ((d, []) :: ps.map (·.within d)) := by
  intro d' hd'
  rcases List.mem_cons.mp hd' with rfl | hd'
  · exact ⟨[], List.mem_cons_self, nofun⟩
  · obtain ⟨around, hmem, haround⟩ := h d' hd'
    refine ⟨around ++ [d], List.mem_cons_of_mem _ (List.mem_map.mpr ⟨_, hmem, rfl⟩), fun a ha => ?_⟩
    rcases List.mem_append.mp ha with ha | ha
    · exact List.mem_cons_of_mem _ (haround a ha)
    · exact List.mem_singleton.mp ha ▸ List.mem_cons_self

end Listed

/-- The types to visit, each with the types inside it right after it, and all types with those
around them. -/
structure Shows (o : Outline TypeDecl) (ts : List TypeDecl) (ps : List Enclosed) : Prop where
  visited : o.visited = ts
  whole : ∀ d ∈ ts, declTypes d <:+: ts
  listed : Listed ts ps
  lists : o.Lists ps

namespace Shows

variable {o o' : Outline TypeDecl} {ts ts' : List TypeDecl} {ps ps' : List Enclosed}

theorem blank : Shows .blank [] [] := ⟨rfl, nofun, .nil, .nil⟩

theorem whole_append (h : ∀ d ∈ ts, declTypes d <:+: ts) (h' : ∀ d ∈ ts', declTypes d <:+: ts') :
    ∀ d ∈ ts ++ ts', declTypes d <:+: ts ++ ts' := by
  intro d hd
  rcases List.mem_append.mp hd with hd | hd
  · exact (h d hd).trans (List.prefix_append ts ts').isInfix
  · exact (h' d hd).trans (List.suffix_append ts ts').isInfix

theorem both (h : Shows o ts ps) (h' : Shows o' ts' ps') :
    Shows (.both o o') (ts ++ ts') (ps ++ ps') where
  visited := by rw [Outline.visited, h.visited, h'.visited]
  whole := whole_append h.whole h'.whole
  listed := h.listed.append h'.listed
  lists := h.lists.append h'.lists

theorem loop (h : Shows o ts ps) (h' : Shows o' ts' ps') :
    Shows (.loop o o') (ts' ++ ts) (ps ++ ps') where
  visited := by rw [Outline.visited, h.visited, h'.visited]
  whole := whole_append h'.whole h.whole
  listed := h'.listed.swapped h.listed
  lists := h.lists.append h'.lists

/-- What is not looked into. -/
theorem aside (h : o.Lists ps) : Shows (.aside o) [] ps := ⟨rfl, nofun, .nil, h⟩

theorem body {d : TypeDecl} (h : Shows o (membersTypes d.members) ps) :
    Shows (.both (.type d) o) (declTypes d) ((d, []) :: ps.map (·.within d)) := by
  refine ⟨?_, ?_, ?_, ?_⟩
  · exact (congrArg (d :: ·) h.visited).trans (declTypes_eq d).symm
  · intro c hc
    rw [declTypes_eq d] at hc ⊢
    rcases List.mem_cons.mp hc with rfl | hc
    · exact ⟨[], [], by rw [List.nil_append, List.append_nil, declTypes_eq]⟩
    · exact (h.whole c hc).trans (List.suffix_cons d _).isInfix
  · rw [declTypes_eq]
    exact h.listed.body d
  · rw [Outline.Lists, List.map_cons, List.map_map]
    exact h.lists.cons d

theorem decl {d : TypeDecl} (h : Shows o (membersTypes d.members) ps) (h' : o'.Lists ps') :
    Shows (.both (.both (.type d) (.aside o')) o) (declTypes d)
      ((d, []) :: ps.map (·.within d) ++ ps') where
  visited := h.body.visited
  whole := h.body.whole
  listed := h.body.listed.after ps'
  lists := List.Perm.trans (h.body.lists.append h') (List.perm_append_comm.cons d)

end Shows

mutual

theorem shows_expr : (e : Expr) → Shows (exprOutline e) (exprTypes e) (exprNested e)
  | .name .. | .literal .. | .classLit .. | .this _ | .super _ => .blank
  | .fieldAccess _ target _ => shows_expr target
  | .call _ target _ args => (shows_expr? target).both (shows_exprs args)
  | .new _ _ args body => (shows_exprs args).both (shows_body? body)
  | .newArray _ _ dims init => (shows_exprs dims).both (shows_exprs init)
  | .arrayInit _ items => shows_exprs items
  | .binary _ _ lhs rhs => (shows_expr lhs).both (shows_expr rhs)
  | .unary _ _ operand => shows_expr operand
  | .conditional _ cond yes no => ((shows_expr cond).both (shows_expr yes)).both (shows_expr no)
  | .assign _ target value => (shows_expr target).both (shows_expr value)
  | .cast _ _ operand => shows_expr operand
  | .instanceOf _ operand _ => shows_expr operand
  | .lambda _ _ (.expr e) => shows_expr e
  | .lambda _ _ (.block b) => shows_block b
  | .methodRef _ target _ => shows_expr target
  | .arrayAccess _ array index => (shows_expr array).both (shows_expr index)
  | .switch _ selector cases => (shows_expr selector).both (shows_cases cases)
  | .unknown _ parts => shows_exprs parts

theorem shows_expr? : (e : Option Expr) → Shows (exprOutline? e) (exprTypes? e) (exprNested? e)
  | none => .blank
  | some e => shows_expr e

theorem shows_exprs : (es : List Expr) → Shows (exprsOutline es) (exprsTypes es) (exprsNested es)
  | [] => .blank
  | e :: es => (shows_expr e).both (shows_exprs es)

theorem shows_block : (b : Block) → Shows (blockOutline b) (blockTypes b) (blockNested b)
  | ⟨stmts, _⟩ => shows_stmts stmts

theorem shows_block? :
    (b : Option Block) → Shows (blockOutline? b) (blockTypes? b) (blockNested? b)
  | none => .blank
  | some b => shows_block b

theorem shows_var : (v : LocalVar) → Shows (varOutline v) (exprTypes? v.init) (varNested v)
  | ⟨_, _, _, init, _, annotations⟩ => (Shows.aside (lists_annotations annotations)).both (shows_expr? init)

theorem shows_vars : (vars : List LocalVar) → Shows (varsOutline vars) (varsTypes vars) (varsNested vars)
  | [] => .blank
  | ⟨n, type, isFinal, init, span, annotations⟩ :: rest =>
    (shows_var ⟨n, type, isFinal, init, span, annotations⟩).both (shows_vars rest)

theorem shows_stmt : (st : Stmt) → Shows (stmtOutline st) (stmtTypes st) (stmtNested st)
  | .block _ b => shows_block b
  | .vars _ decls => shows_vars decls
  | .expr _ e | .throws _ e | .yields _ e => shows_expr e
  | .returns _ e => shows_expr? e
  | .ifElse _ cond yes no => ((shows_expr cond).both (shows_stmt yes)).both (shows_stmt? no)
  | .whileLoop _ cond body => (shows_expr cond).both (shows_stmt body)
  | .doWhile _ body cond => (shows_stmt body).loop (shows_expr cond)
  | .forLoop _ init cond update body =>
    (((shows_stmts init).both (shows_expr? cond)).both (shows_exprs update)).both (shows_stmt body)
  | .forEach _ item iterable body =>
    ((Shows.aside (shows_var item).lists).both (shows_expr iterable)).both (shows_stmt body)
  | .switch _ selector cases => (shows_expr selector).both (shows_cases cases)
  | .tryCatch _ _ resources body catches always =>
    (((shows_stmts resources).both (shows_block body)).both (shows_catches catches)).both
      (shows_block? always)
  | .labeled _ _ body => shows_stmt body
  | .synchronized _ lock body => (shows_expr lock).both (shows_block body)
  | .localClass _ d => shows_decl d
  | .asserts _ cond message => (shows_expr cond).both (shows_expr? message)
  | .breaks .. | .continues .. | .empty _ => .blank

theorem shows_stmt? : (st : Option Stmt) → Shows (stmtOutline? st) (stmtTypes? st) (stmtNested? st)
  | none => .blank
  | some st => shows_stmt st

theorem shows_stmts : (stmts : List Stmt) → Shows (stmtsOutline stmts) (stmtsTypes stmts) (stmtsNested stmts)
  | [] => .blank
  | st :: rest => (shows_stmt st).both (shows_stmts rest)

theorem shows_cases :
    (cases : List SwitchCase) → Shows (casesOutline cases) (casesTypes cases) (casesNested cases)
  | [] => .blank
  | ⟨labels, _, _, body, _⟩ :: rest =>
    ((Shows.aside (shows_exprs labels).lists).both (shows_stmts body)).both (shows_cases rest)

theorem shows_catches : (catches : List CatchClause) →
    Shows (catchesOutline catches) (catchesTypes catches) (catchesNested catches)
  | [] => .blank
  | ⟨_, _, body, _⟩ :: rest => (shows_block body).both (shows_catches rest)

theorem lists_args : (args : List AnnotationArg) → (argsOutline args).Lists (argsNested args)
  | [] => .nil
  | ⟨_, value⟩ :: rest => (shows_expr value).lists.append (lists_args rest)

theorem lists_annotations : (annotations : List Annotation) →
    (annotationsOutline annotations).Lists (annotationsNested annotations)
  | [] => .nil
  | ⟨_, args, _⟩ :: rest => (lists_args args).append (lists_annotations rest)

theorem shows_decl : (d : TypeDecl) → Shows (declOutline d) (declTypes d) (declNested d)
  | ⟨_, _, _, annotations, _, _, members, _⟩ =>
    (shows_members none members).decl (lists_annotations annotations)

theorem shows_body? : (d : Option TypeDecl) → Shows (bodyOutline? d) (declTypes? d) (bodyNested? d)
  | none => .blank
  | some ⟨_, _, _, _, _, _, members, _⟩ => (shows_members none members).body

theorem shows_members (shared : Option Span) : (members : List Member) →
    Shows (membersOutline shared members) (membersTypes members) (membersNested shared members)
  | [] => .blank
  | .method ⟨_, _, _, annotations, _, _, _, _, body, _, _⟩ :: rest =>
    ((Shows.aside (lists_annotations annotations)).both (shows_block? body)).both
      (shows_members none rest)
  | .field ⟨_, type, _, _, _, annotations, init, _⟩ :: rest => by
    have hinit := shows_expr? init
    have hrest := shows_members (some type.span) rest
    have hannotations :
        (if shared = some type.span then Outline.blank else annotationsOutline annotations).Lists
          (if shared = some type.span then [] else annotationsNested annotations) := by
      split
      · exact .nil
      · exact lists_annotations annotations
    exact ((Shows.aside hannotations).both hinit).both hrest
  | .type d :: rest => (shows_decl d).both (shows_members none rest)
  | .initializer _ body :: rest => (shows_block body).both (shows_members none rest)
  | .constant ⟨_, annotations, args, body, _⟩ :: rest =>
    (((Shows.aside (lists_annotations annotations)).both (shows_exprs args)).both
      (shows_body? body)).both (shows_members none rest)

end

theorem shows_decls (types : List TypeDecl) :
    Shows (declsOutline types) (types.flatMap declTypes) (types.flatMap declNested) := by
  induction types with
  | nil => exact .blank
  | cons d types ih =>
    rw [List.flatMap_cons, List.flatMap_cons]
    exact (shows_decl d).both ih

/-- The types that a file is asked for, and all types with those around them. -/
theorem CompilationUnit.shows (u : CompilationUnit) : Shows u.outline u.allTypes u.nested :=
  shows_decls u.types

/-- The types that a file is asked for are listed, and so are the types around them. -/
theorem CompilationUnit.listed_bodyTypes (u : CompilationUnit) : Listed u.allTypes u.bodyTypes := by
  have hbody : ∀ d : TypeDecl, Listed (declTypes d) (bodyNested d) := fun d => (shows_body? (some d)).listed
  have htypes : ∀ types : List TypeDecl, Listed (types.flatMap declTypes) (types.flatMap bodyNested) := by
    intro types
    induction types with
    | nil => exact .nil
    | cons d types ih =>
      rw [List.flatMap_cons, List.flatMap_cons]
      exact (hbody d).append ih
  exact htypes u.types

end LevelGuard.Java
