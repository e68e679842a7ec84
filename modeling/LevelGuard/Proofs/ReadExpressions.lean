import LevelGuard.Proofs.Rules

/-!
# Types in expressions that are read

What a rule yields has its types at the places where they were read: in the order of the
text, each with a word of the source as its name or none if it is an anonymous class. Here
this is followed through the rules for types, annotations and expressions, for any grammar
whose rules for nested parts are of this kind. A rule may leave out types that it has read,
as those in the arguments of a type or in the text of a string, but it never moves one.
-/
namespace LevelGuard.Java

open Rule

/-- The types of an outline are among these, in this order. -/
def Outline.Fits (o : Outline TypeDecl) (zs : List Head) : Prop := o.heads.Sublist zs

namespace Outline.Fits

variable {o o' : Outline TypeDecl} {xs ys zs : List Head}

theorem blank : (.blank : Outline TypeDecl).Fits zs := List.nil_sublist zs

theorem type (d : TypeDecl) : (.type d : Outline TypeDecl).Fits [d.head] := List.Sublist.refl _

theorem both (h : o.Fits xs) (h' : o'.Fits ys) : (o.both o').Fits (xs ++ ys) := List.Sublist.append h h'

theorem mono (h : o.Fits xs) (hsub : xs.Sublist ys) : o.Fits ys := List.Sublist.trans h hsub

theorem both_nil (h : o.Fits xs) (h' : o'.Fits []) : (o.both o').Fits xs := by
  have hboth := h.both h'
  rwa [List.append_nil] at hboth

theorem nil_both (h : o.Fits []) (h' : o'.Fits xs) : (o.both o').Fits xs := h.both h'

theorem single (h : o.Fits xs) : (o.both .blank).Fits xs := h.both_nil .blank

end Outline.Fits

abbrev Expr.Fits (e : Expr) (zs : List Head) : Prop := (exprOutline e).Fits zs

abbrev Stmt.Fits (st : Stmt) (zs : List Head) : Prop := (stmtOutline st).Fits zs

abbrev Block.Fits (b : Block) (zs : List Head) : Prop := (blockOutline b).Fits zs

abbrev SwitchCase.Fits (c : SwitchCase) (zs : List Head) : Prop :=
  (Outline.both (exprsOutline c.labels) (stmtsOutline c.body)).Fits zs

abbrev Annotation.Fits (a : Annotation) (zs : List Head) : Prop := (argsOutline a.args).Fits zs

abbrev Modifiers.Fits (m : Modifiers) (zs : List Head) : Prop := All Annotation.Fits m.annotations zs

/-- Members with words as the names of the types among them. -/
structure MembersFit (members : List Member) (zs : List Head) : Prop where
  outline : (membersOutline none members).Fits zs
  names : ∀ n ∈ typeNames members, IsWord n

/-- A declared type has a word for its name. -/
structure TypeDecl.Fits (d : TypeDecl) (zs : List Head) : Prop where
  outline : (declOutline d).Fits zs
  name : IsWord d.name

section Lists

variable {zs : List Head}

theorem fits_exprs {es : List Expr} (h : All Expr.Fits es zs) : (exprsOutline es).Fits zs := by
  induction es generalizing zs with
  | nil => exact .blank
  | cons e es ih =>
    obtain ⟨xs, ys, hsub, he, hes⟩ := h
    exact (he.both (ih hes)).mono hsub

theorem fits_expr? {e : Option Expr} (h : ∀ a ∈ e, a.Fits zs) : (exprOutline? e).Fits zs := by
  cases e with
  | none => exact .blank
  | some e => exact h e rfl

theorem fits_args {args : List AnnotationArg} (h : All (fun a => a.value.Fits) args zs) :
    (argsOutline args).Fits zs := by
  induction args generalizing zs with
  | nil => exact .blank
  | cons a args ih =>
    obtain ⟨xs, ys, hsub, ha, hargs⟩ := h
    cases a
    exact (ha.both (ih hargs)).mono hsub

theorem fits_annotations {annotations : List Annotation} (h : All Annotation.Fits annotations zs) :
    (annotationsOutline annotations).Fits zs := by
  induction annotations generalizing zs with
  | nil => exact .blank
  | cons a annotations ih =>
    obtain ⟨xs, ys, hsub, ha, hrest⟩ := h
    cases a
    exact (ha.both (ih hrest)).mono hsub

theorem fits_cases {cases : List SwitchCase} (h : All SwitchCase.Fits cases zs) :
    (casesOutline cases).Fits zs := by
  induction cases generalizing zs with
  | nil => exact .blank
  | cons c rest ih =>
    obtain ⟨xs, ys, hsub, hc, hrest⟩ := h
    cases c
    exact (Outline.Fits.both hc (ih hrest)).mono hsub

end Lists

/-- A name has no types in it. -/
theorem fits_nameChain (span : Span) (text : String) (zs : List Head) : (nameChain span text).Fits zs := by
  unfold nameChain
  split
  · exact .blank
  · next first rest _ =>
    have hchain : ∀ (names : List String) (target : Expr), target.Fits zs →
        (names.foldl (fun target name => .fieldAccess span target name) target).Fits zs := by
      intro names
      induction names with
      | nil => exact fun _ h => h
      | cons name names ih => exact fun target h => ih (.fieldAccess span target name) h
    exact hchain rest _ .blank

abbrev TypeTree.Fits (t : TypeTree) (zs : List Head) : Prop := t.toExpr.Fits zs

/-- An annotation with both of its readings. -/
structure AnnotationTree.Fits (a : AnnotationTree) (zs : List Head) : Prop where
  item : a.item.Fits zs
  parts : a.parts.Fits zs

structure ElementTree.Fits (v : ElementTree) (zs : List Head) : Prop where
  value : v.value.Fits zs
  parts : v.parts.Fits zs

structure AnnotationArgTree.Fits (a : AnnotationArgTree) (zs : List Head) : Prop where
  item : a.item.value.Fits zs
  parts : a.parts.Fits zs

abbrev Operand.Fits (o : Operand) (zs : List Head) : Prop := o.expr.Fits zs

abbrev Primary.Fits (p : Primary) (zs : List Head) : Prop := p.expr.Fits zs

/-- The rules for nested parts read types in the order of the text. -/
structure Grammar.InOrder (g : Grammar) : Prop where
  type : ∀ taken, Yields TypeTree.Fits (g.type taken)
  annotationTree : Opens AnnotationTree.Fits g.annotationTree
  elementValue : Yields ElementTree.Fits g.elementValue
  expr : ∀ place, Yields Expr.Fits (g.expr place)
  operand : ∀ place, Yields Operand.Fits (g.operand place)
  variableInit : Yields Expr.Fits g.variableInit
  recordPattern : ∀ taken, Yields (fun r => r.2.Fits) (g.recordPattern taken)
  stmt : Yields Stmt.Fits g.stmt
  block : Yields Block.Fits g.block
  classBody : Opens MembersFit g.classBody
  typeDecl : Yields TypeDecl.Fits g.typeDecl

namespace Grammar.InOrder

variable {g : Grammar} (hg : g.InOrder)
include hg

-- Each proof follows its rule step by step: `skip` passes over a part of which no type is
-- kept, and `bind` takes the types of a part that is kept.

theorem annotation : Yields AnnotationTree.Fits g.annotationTree := hg.annotationTree.yields

theorem dimensions : Yields Expr.Fits (dimensions g) := by
  have hgroup : YieldsAll Expr.Fits (do
      let annotations ← many g.annotationTree
      let _ ← mark "["
      let _ ← mark "]"
      return annotations.map (·.parts)) :=
    hg.annotation.many.bind fun _ _ has => (keeps_mark _).skip fun _ => (keeps_mark _).skip fun _ =>
      .pure (has.map fun _ _ ha => ha.parts)
  exact reads_here.skip fun _ => hgroup.many1.bind fun _ _ hgroups => (reads_spanFrom _).skip fun _ =>
    .pure (fits_exprs hgroups.flatten)

theorem annotatedType (taken : List String) : Keeps (annotatedType g taken) :=
  reads_here.skip fun _ => hg.annotation.many.skip fun _ => (hg.type _).skip fun _ =>
    (reads_textFrom _).skip fun _ => (reads_spanFrom _).skip fun _ => .pure trivial

theorem typeList : Keeps (typeList g) := ((hg.annotatedType []).sepBy1 _).keeps

theorem typeArgument : Keeps (typeArgument g) :=
  hg.annotation.many.skip fun _ => (keeps_mark _).opt.skip fun
    | none => (hg.type _).skip fun _ => .pure trivial
    | some _ =>
      (((keeps_keyword _).orElse (keeps_keyword _)).skip fun _ => hg.annotatedType []).opt.skip fun _ =>
        .pure trivial

theorem typeArguments : Keeps (typeArguments g) :=
  ((hg.typeArgument.sepBy _).between _ _).yields.skip fun _ => .pure trivial

theorem typeSegments (stop : List String) (bound : Nat) (shape : NameShape) :
    Keeps (typeSegments g stop bound shape) := by
  induction bound generalizing shape with
  | zero => exact .pure trivial
  | succ bound ih =>
    have hsegment : Keeps (do
        let _ ← mark "."
        let annotations ← many g.annotationTree
        let word ← nameBut stop
        let args ← opt (Java.typeArguments g)
        return shape.extend word.text (!annotations.isEmpty) args.isSome) :=
      (keeps_mark _).skip fun _ => hg.annotation.many.skip fun _ => (keeps_nameBut _).skip fun _ =>
        hg.typeArguments.opt.skip fun _ => .pure trivial
    exact hsegment.opt.skip fun
      | none => .pure trivial
      | some next => ih next

theorem namedType (taken stop : List String) : Yields TypeTree.Fits (namedType g taken stop) :=
  reads_here.skip fun _ => (keeps_nameBut _).skip fun _ => hg.typeArguments.opt.skip fun _ =>
    reads_get.skip fun _ => (hg.typeSegments _ _ _).skip fun _ => (reads_textFrom _).skip fun _ =>
      (reads_spanFrom _).skip fun _ => .pure (fits_nameChain _ _ _)

theorem simpleType (taken stop : List String) : Yields TypeTree.Fits (simpleType g taken stop) :=
  (keeps_satisfy _).opt.skip fun
    | some _ => .pure .blank
    | none => hg.namedType taken stop

theorem typeUpTo (stop taken : List String) : Yields TypeTree.Fits (typeUpTo g stop taken) :=
  reads_here.skip fun _ => (hg.simpleType _ _).bind fun _ _ helement => hg.dimensions.opt.bind fun
    | none, _, _ => .pure (helement.mono (List.sublist_append_left _ _))
    | some dims, _, hdims => (reads_textFrom _).skip fun _ => (reads_spanFrom _).skip fun _ =>
      .pure (helement.both (hdims dims rfl).single)

omit hg in
theorem qualifiedName : Keeps qualifiedName :=
  reads_here.skip fun _ => yields_anyWord.skip fun _ =>
    ((keeps_mark _).skip fun _ => yields_anyWord.keeps).many.skip fun _ =>
      (reads_textFrom _).skip fun _ => .pure trivial

theorem annotationPair (taken : List String) :
    Yields AnnotationArgTree.Fits (annotationPair g taken) :=
  reads_here.skip fun _ => (keeps_nameBut _).skip fun _ => (keeps_mark _).skip fun _ =>
    hg.elementValue.bind fun _ _ hv => (reads_spanFrom _).skip fun _ =>
      .pure ⟨hv.value, Outline.Fits.blank.nil_both hv.parts.single⟩

theorem annotationPairs : YieldsAll AnnotationArgTree.Fits (annotationPairs g) :=
  (hg.annotationPair _).bind fun _ _ hfirst =>
    ((keeps_mark _).skip fun _ => hg.annotationPair []).many.bind fun _ _ hrest =>
      .pure (.cons hfirst hrest)

theorem annotationArgs : YieldsAll AnnotationArgTree.Fits (annotationArgs g) := by
  have hsingle : YieldsAll AnnotationArgTree.Fits (do
      let v ← g.elementValue
      return [(⟨⟨"value", v.value⟩, v.parts⟩ : AnnotationArgTree)]) :=
    hg.elementValue.bind fun _ _ hv => .pure (.singleton ⟨hv.value, hv.parts⟩)
  have hempty : YieldsAll AnnotationArgTree.Fits (pure []) := .pure trivial
  exact (hg.annotationPairs.between _ _).yields.orElse
    ((hsingle.between _ _).yields.orElse (hempty.between _ _).yields)

omit hg in
theorem annotationName : Opens (fun _ _ => True) annotationName := by
  have hrest : ∀ start : Mark, Keeps (do
      let _ ← many do
        let _ ← mark "."
        anyWord
      return start) := fun _ =>
    ((keeps_mark _).skip fun _ => yields_anyWord.keeps).many.skip fun _ => .pure trivial
  refine ((opens_mark _).orElse (opens_mark _)).skip fun t => ?_
  have hname : ∀ start : Mark, Keeps (do
      let next ← isAhead fun u => u.kind = .word && t.adjoins u
      if t.text = "@" || next then
        let _ ← anyWord
      let _ ← many do
        let _ ← mark "."
        anyWord
      return start) := fun start => (reads_isAhead _).skip fun _ =>
    .ite (fun _ => yields_anyWord.skip fun _ => hrest start) fun _ => hrest start
  have hplain : ∀ start : Mark, Keeps (pure start) := fun _ => .pure trivial
  exact .ite (fun _ => reads_here.skip hname) fun _ => (hplain _).skip hname

theorem annotationRule : Opens AnnotationTree.Fits (annotationRule g) :=
  reads_here.skip fun _ => annotationName.skip fun _ => (reads_textFrom _).skip fun _ =>
    (reads_spanFrom _).skip fun _ => reads_here.skip fun _ => hg.annotationArgs.opt.bind fun
      | none, _, _ => (reads_spanFrom _).skip fun _ => .pure ⟨.blank, (fits_nameChain _ _ _).single⟩
      | some args, _, hargs => (reads_spanFrom _).skip fun _ => (reads_spanFrom _).skip fun _ =>
        .pure ⟨fits_args ((hargs args rfl).map fun _ _ ha => ha.item),
          (fits_nameChain _ _ []).nil_both
            (fits_exprs ((hargs args rfl).map fun _ _ ha => ha.parts)).single⟩

omit hg in
theorem bracedList {α : Type} {P : α → List Head → Prop} {item : Rule α} (h : Yields P item) :
    YieldsAll P (bracedList item) :=
  (((h.sepBy _).bind fun _ _ has => (keeps_mark _).opt.skip fun _ => .pure has).between _ _).yields

theorem elementValueRule : Yields ElementTree.Fits (elementValueRule g) := by
  have hmarked : Yields ElementTree.Fits (do
      let a ← g.annotationTree
      if ← isAhead (fun t => t.is "," || t.is ")" || t.is "\x7d" || t.is ";") then
        return ⟨.unknown a.item.span [], a.parts⟩
      else failure) :=
    hg.annotation.bind fun _ _ ha => (reads_isAhead _).skip fun _ =>
      .ite (fun _ => .pure ⟨.blank, ha.parts⟩) fun _ => .failure
  have hexpr : Yields ElementTree.Fits (do
      let e ← g.expr {}
      return ⟨e, e⟩) :=
    (hg.expr _).bind fun _ _ he => .pure ⟨he, he⟩
  exact reads_here.skip fun _ => (bracedList hg.elementValue).opt_trans (hmarked.orElse hexpr)
    fun _ _ hitems => (reads_spanFrom _).skip fun _ =>
      .pure ⟨fits_exprs (hitems.map fun _ _ hv => hv.value), fits_exprs (hitems.map fun _ _ hv => hv.parts)⟩

section Modifiers

-- The modifiers of a type stand between where it begins and its first word, so they are
-- read with either slack.
variable {j : Nat} (hj : j ≤ 1)
include hj

omit hg in
theorem modifier {tagged : Rule AnnotationTree} (h : Opens AnnotationTree.Fits tagged) :
    Reads j j [] (fun f zs => ∀ (m : Modifiers) (xs : List Head), m.Fits xs → (f m).Fits (xs ++ zs))
      (modifier tagged) := by
  have htake : Reads j j [] (fun t _ => t.Proper) take := opens_take.slacken hj (Nat.zero_le j)
  have hword : ∀ (word : String) (m : Modifiers) (xs zs : List Head), m.Fits xs →
      (m.withWord word).Fits (xs ++ zs) :=
    fun _ _ _ _ hm => hm.mono (List.sublist_append_left _ _)
  refine (h.slacken hj (Nat.zero_le j)).opt.bind fun
    | some a, _, ha => .pure fun _ _ hm => hm.append (.singleton (ha a rfl).item)
    | none, _, _ => ?_
  have hsealed : Reads j j [] (fun _ _ => True) nonSealedAhead := reads_get.skip fun _ => .pure trivial
  exact hsealed.skip fun _ =>
    .ite (fun _ => htake.skip fun _ => htake.skip fun _ => htake.skip fun _ => .pure fun m xs => hword _ m xs _)
      fun _ => ((opens_satisfy _).slacken hj (Nat.zero_le j)).skip fun _ => .pure fun m xs => hword _ m xs _

omit hj hg in
theorem fits_foldl {fs : List (Modifiers → Modifiers)} {m : Modifiers} {xs zs : List Head} (hm : m.Fits xs)
    (hfs : All (fun f zs => ∀ (m : Modifiers) (xs : List Head), m.Fits xs → (f m).Fits (xs ++ zs)) fs zs) :
    (fs.foldl (fun m f => f m) m).Fits (xs ++ zs) := by
  induction fs generalizing m xs zs with
  | nil => exact hm.mono (List.sublist_append_left xs zs)
  | cons f fs ih =>
    obtain ⟨ys, zs', hsub, hf, hfs⟩ := hfs
    have hrest := ih (hf m xs hm) hfs
    rw [List.append_assoc] at hrest
    exact hrest.mono (hsub.append_left xs)

omit hg in
theorem foldModifiers {tagged : Rule AnnotationTree} (h : Opens AnnotationTree.Fits tagged) :
    Reads j j [] Modifiers.Fits (do
      return (← many (Java.modifier tagged)).foldl (fun m f => f m) {}) :=
  (modifier hj h).many.bind fun _ _ hfs =>
    have hnone : Modifiers.Fits {} [] := trivial
    .pure (fits_foldl hnone hfs)

theorem modifiers : Reads j j [] Modifiers.Fits (modifiers g) := foldModifiers hj hg.annotationTree

omit hj in
theorem annotationOfDeclaration : Opens AnnotationTree.Fits (annotationOfDeclaration g) :=
  (reads_isAhead _).skip fun _ => .ite (fun _ => .failure) fun _ => hg.annotationTree

theorem declarationModifiers : Reads j j [] Modifiers.Fits (declarationModifiers g) :=
  foldModifiers hj hg.annotationOfDeclaration

end Modifiers

omit hg in
theorem modifierAhead : Keeps modifierAhead :=
  (reads_get.skip fun _ => .pure trivial : Keeps nonSealedAhead).skip fun _ =>
    .ite (fun _ => .pure trivial) fun _ => reads_isAhead _

theorem variableName (taken : List String) : Keeps (variableName g taken) :=
  (keeps_nameBut _).skip fun _ => hg.dimensions.opt.skip fun _ => .pure trivial

theorem receiverParam (taken : List String) : Keeps (receiverParam g taken) :=
  hg.annotation.many.skip fun _ => (hg.type _).skip fun _ =>
    ((keeps_nameBut _).skip fun _ => (keeps_mark _).skip fun _ =>
      ((keeps_nameBut _).skip fun _ => keeps_mark _).many.skip fun _ =>
        (.pure trivial : Keeps (pure ()))).opt.skip fun _ =>
      (keeps_keyword _).skip fun _ => .pure trivial

theorem formalParam (words : ParamWords) : Keeps (formalParam g words) :=
  (hg.modifiers (Nat.zero_le 1)).skip fun _ => (hg.type _).skip fun _ => (keeps_mark _).opt.skip fun
    | none => (hg.variableName _).skip fun _ => .pure trivial
    | some _ => (hg.variableName _).skip fun _ =>
      ((keeps_mark _).skip fun _ => hg.variableInit).opt.skip fun _ => .pure trivial

theorem formalParamList (words : ParamWords) : Keeps (formalParamList g words) :=
  (hg.formalParam _).skip fun _ =>
    ((keeps_mark _).skip fun _ => hg.formalParam _).many.skip fun _ => .pure trivial

theorem receiverParams (words : ParamWords) : Keeps (do
    Java.receiverParam g words.types
    match ← opt (mark ",") with
    | none => return []
    | some _ => Java.formalParamList g declaredParamWords <|> pure []) := by
  refine (hg.receiverParam _).skip fun _ => (keeps_mark _).opt.skip fun comma => ?_
  cases comma with
  | none => exact .pure trivial
  | some _ => exact (hg.formalParamList _).orElse (.pure trivial)

theorem formalParams (words : ParamWords) : Keeps (formalParams g words) := by
  have hplain : Keeps (between "(" ")" (Java.formalParamList g words <|> pure [])) :=
    (((hg.formalParamList _).orElse (.pure trivial)).between _ _).yields
  have hparens := ((hg.receiverParams words).between "(" ")").yields
  exact reads_get.skip fun _ =>
    .ite (fun _ => (hplain.orElse hparens).skip fun _ => .pure trivial)
      fun _ => (hparens.orElse hplain).skip fun _ => .pure trivial

theorem typeParameters : Keeps (typeParameters g) := by
  have hbound : Keeps (do
      let _ ← keyword "extends"
      sepBy1 "&" (Java.annotatedType g [])) :=
    (keeps_keyword _).skip fun _ => ((hg.annotatedType []).sepBy1 _).keeps
  have hparameter : Keeps (do
      let _ ← many g.annotationTree
      let _ ← anyWord
      opt do
        let _ ← keyword "extends"
        sepBy1 "&" (Java.annotatedType g [])) :=
    hg.annotation.many.skip fun _ => yields_anyWord.skip fun _ => hbound.opt.keeps
  exact ((hparameter.sepBy1 _).between _ _).yields.skip fun _ => .pure trivial

theorem arguments : YieldsAll Expr.Fits (arguments g) := (((hg.expr _).sepBy _).between _ _).yields

theorem parenthesized : Yields Expr.Fits (parenthesized g) := ((hg.expr _).between _ _).yields

theorem stringRule : Yields Expr.Fits (stringRule g) :=
  reads_here.skip fun _ => (keeps_satisfy _).skip fun _ =>
    ((hg.expr _).between _ _).yields.many.skip fun _ => (keeps_satisfy _).skip fun _ =>
      (reads_spanFrom _).skip fun _ => (reads_textFrom _).skip fun _ => .pure .blank

theorem literalRule : Yields Expr.Fits (literalRule g) := by
  refine (reads_isAhead _).skip fun _ => .ite (fun _ => hg.stringRule) fun _ => keeps_take.skip fun t => ?_
  dsimp only
  split
  · split
    · exact .pure .blank
    · exact .pure .blank
  · exact .pure .blank
  · exact .pure .blank
  · split
    · exact .pure .blank
    · exact .pure .blank
    · exact .pure .blank
    · exact .failure
  · exact .failure
  · exact .failure

-- The class is as long as its body, so it begins where the body does.
theorem anonymousClass (superType : TypeRef) :
    Yields (fun d => (bodyOutline d).Fits) (anonymousClass g superType) :=
  .begin fun _ => hg.classBody.bind fun members _ hmembers => (reads_spanFrom _).learn fun span _ hspan =>
    .pure_named ⟨span.startByte, "", typeNames members⟩ hspan ⟨.inl rfl, hmembers.names⟩
      ((Outline.Fits.type _).both hmembers.outline)

theorem dimensionExpr : Yields Expr.Fits (dimensionExpr g) :=
  hg.annotation.many.bind fun
    | [], _, _ => ((hg.expr _).between _ _).yields.bind fun _ _ hsize =>
      .pure (hsize.mono (List.sublist_append_right _ _))
    | _ :: _, _, ⟨_, _, hsub, ha, _⟩ => ((hg.expr _).between _ _).yields.skip fun _ =>
      .pure (ha.parts.mono ((List.sublist_append_left _ _).trans hsub))

theorem arrayCreation (start : Mark) (type : TypeRef) : Yields Expr.Fits (arrayCreation g start type) :=
  hg.dimensionExpr.many1.opt.bind fun
    | some dims, _, hdims => hg.dimensions.opt.skip fun _ => (reads_isAhead _).skip fun _ =>
      .guard ((reads_spanFrom _).skip fun _ => .pure (fits_exprs (hdims dims rfl)).single)
    | none, _, _ => hg.dimensions.skip fun _ => (bracedList hg.variableInit).bind fun _ _ hinit =>
      (reads_spanFrom _).skip fun _ => .pure (Outline.Fits.blank.both (fits_exprs hinit))

theorem objectCreation (start : Mark) (type : TypeRef) : Yields Expr.Fits (objectCreation g start type) :=
  hg.arguments.bind fun _ _ hargs => (hg.anonymousClass type).opt.bind fun
    | none, _, _ => (reads_spanFrom _).skip fun _ => .pure ((fits_exprs hargs).both .blank)
    | some d, _, hbody => (reads_spanFrom _).skip fun _ => .pure ((fits_exprs hargs).both (hbody d rfl))

theorem creation (start : Mark) (arrays : Bool) : Yields Expr.Fits (creation g start arrays) :=
  (keeps_keyword _).skip fun _ => hg.annotation.many.skip fun _ => hg.typeArguments.opt.skip fun _ =>
    hg.annotation.many.skip fun _ => (hg.simpleType _ _).skip fun _ => (reads_isAhead _).skip fun _ =>
      .ite (fun _ => hg.objectCreation start _) fun _ =>
        .ite (fun _ => hg.arrayCreation start _) fun _ => .failure

section Target

variable (start : Mark) {target : Expr} {xs : List Head} (htarget : target.Fits xs)
include htarget

theorem methodReference : Reads 0 0 xs Primary.Fits (methodReference g start target) :=
  (keeps_mark _).skip fun _ => hg.typeArguments.opt.skip fun _ => yields_anyWord.skip fun _ =>
    (reads_spanFrom _).skip fun _ => .pure htarget

theorem memberAccess : Reads 0 0 xs Primary.Fits (memberAccess g start target) :=
  hg.typeArguments.opt.skip fun _ => yields_anyWord.skip fun _ => hg.arguments.opt.bind fun
    | some args, _, hargs =>
      .guard ((reads_spanFrom _).skip fun _ => .pure (htarget.both (fits_exprs (hargs args rfl))))
    | none, _, _ => .guard ((reads_spanFrom _).skip fun _ =>
      .pure (htarget.mono (List.sublist_append_left _ _)))

theorem dotted : Reads 0 0 xs Primary.Fits (dotted g start target) :=
  (keeps_mark _).skip fun _ => reads_ahead.skip fun
    | none => .failure
    | some _ =>
      .ite (fun _ => (hg.creation start false).bind fun _ _ he =>
        .pure (he.mono (List.sublist_append_right _ _))) fun _ =>
      .ite (fun _ => keeps_take.skip fun _ => (keeps_mark _).skip fun _ => hg.memberAccess start htarget)
        fun _ =>
      .ite (fun _ => hg.stringRule.bind fun _ _ htext => (reads_spanFrom _).skip fun _ =>
        .pure (htarget.both htext.single)) fun _ =>
      hg.memberAccess start htarget

theorem indexed : Reads 0 0 xs Primary.Fits (indexed g start target) :=
  ((hg.expr _).between _ _).yields.bind fun _ _ hindex => (reads_spanFrom _).skip fun _ =>
    .pure (htarget.both hindex)

theorem extension : Reads 0 0 xs Primary.Fits (extension g start target) :=
  (hg.dotted start htarget).orElse ((hg.indexed start htarget).orElse (hg.methodReference start htarget))

end Target

theorem extended (start : Mark) (bound : Nat) {p : Primary} {xs : List Head} (h : p.Fits xs) :
    Reads 0 0 xs Primary.Fits (extended g start bound p) := by
  induction bound generalizing p xs with
  | zero => exact .pure h
  | succ bound ih => exact (hg.extension start h).opt_trans (.pure h) fun _ _ hq => ih hq

omit hg in
theorem takeTokens (n : Nat) : Keeps (takeTokens n) := by
  induction n with
  | zero => exact .pure trivial
  | succ n ih => exact keeps_take.skip fun _ => ih

omit hg in
theorem operatorIsAhead (operators : List String) : Keeps (operatorIsAhead operators) := by
  refine reads_get.skip fun _ => ?_
  split
  · exact .pure trivial
  · exact .pure trivial

omit hg in
theorem operatorOf (operators : List String) : Keeps (operatorOf operators) := by
  refine reads_get.skip fun _ => ?_
  split
  · exact .ite (fun _ => (takeTokens _).skip fun _ => .pure trivial) fun _ => .failure
  · exact .failure

omit hg in
theorem classLiteral (start : Mark) (type : TypeTree) : Yields Primary.Fits (classLiteral start type) :=
  (keeps_mark _).skip fun _ => (keeps_keyword _).skip fun _ => (reads_spanFrom _).skip fun _ =>
    (operatorIsAhead _).skip fun _ => .guard (.pure .blank)

theorem typePrimary (start : Mark) : Yields Primary.Fits (typePrimary g start) :=
  (hg.typeUpTo _ _).bind fun type _ htype => (classLiteral start type).opt.bind fun
    | some p, _, hp => .pure ((hp p rfl).mono (List.sublist_append_right _ _))
    | none, _, _ => .ite (fun _ => .failure) fun _ =>
      hg.methodReference start (htype.mono (List.sublist_append_left _ _))

theorem annotatedPrimary (start : Mark) : Yields Primary.Fits (annotatedPrimary g start) :=
  hg.annotation.many1.bind fun _ _ has => (hg.type _).bind fun _ _ htype =>
    (reads_spanFrom _).skip fun _ => hg.methodReference start
      (fits_exprs ((has.map fun _ _ ha => ha.parts).append (.singleton htype)))

theorem namePrimary : Yields Primary.Fits (namePrimary g) :=
  reads_here.skip fun _ => (keeps_nameBut _).skip fun _ => hg.arguments.opt.bind fun
    | some args, _, hargs => (reads_spanFrom _).skip fun _ =>
      .pure (Outline.Fits.blank.nil_both (fits_exprs (hargs args rfl)))
    | none, _, _ => .pure .blank

theorem superPrimary (start : Mark) : Yields Primary.Fits (superPrimary g start) := by
  refine (keeps_keyword _).skip fun t => ?_
  have houter : Keeps (do
      let _ ← keyword "super"
      let _ ← mark ".") :=
    (keeps_keyword _).skip fun _ => (keeps_mark _).skip fun _ => .pure trivial
  have htarget : (Expr.super t.span).Fits [] := .blank
  have hmember := hg.memberAccess start htarget
  exact ((keeps_mark _).skip fun _ => houter.opt.skip fun
    | some _ => hmember
    | none => (reads_isAhead _).skip fun _ => .ite (fun _ => .failure) fun _ => hmember).orElse
      (hg.methodReference start htarget)

theorem parenthesizedPrimary : Yields Primary.Fits (parenthesizedPrimary g) :=
  (keeps_mark _).skip fun _ => modifierAhead.skip fun _ =>
    .guard ((hg.expr _).bind fun _ _ he => (keeps_mark _).skip fun _ => .pure he)

theorem primaryBase (start : Mark) : Yields Primary.Fits (primaryBase g start) :=
  reads_ahead.skip fun
    | none => .failure
    | some _ =>
      .ite (fun _ => hg.parenthesizedPrimary) fun _ =>
      .ite (fun _ => hg.annotatedPrimary start) fun _ =>
      .ite (fun _ => keeps_take.skip fun _ => .pure .blank) fun _ =>
      .ite (fun _ => hg.superPrimary start) fun _ =>
      .ite (fun _ => (hg.creation start true).bind fun _ _ he => .pure he) fun _ =>
      .orElse (hg.literalRule.bind fun _ _ he => .pure he) ((hg.typePrimary start).orElse hg.namePrimary)

theorem primaryRule (start : Mark) : Yields Primary.Fits (primaryRule g start) :=
  (hg.primaryBase start).trans fun _ _ hbase => reads_get.skip fun _ => hg.extended start _ hbase

theorem assignment (place : Place) (start : Mark) : Yields Operand.Fits (assignment g place start) :=
  (hg.primaryRule start).trans fun _ _ hp =>
    .ite (fun _ => (operatorOf _).opt.skip fun
        | none => .pure hp
        | some _ => (hg.expr _).bind fun _ _ hvalue => (reads_spanFrom _).skip fun _ =>
          .pure (hp.both hvalue))
      fun _ => .pure hp

theorem lambdaParams : Keeps (lambdaParams g) := by
  have hname : ∀ taken : List String, Keeps (do return (⟨(← nameBut taken).text, none⟩ : Param)) :=
    fun _ => (keeps_nameBut _).skip fun _ => .pure trivial
  have harrow : Keeps (do let _ ← mark "->") := (keeps_mark _).skip fun _ => .pure trivial
  exact ((hname _).skip fun _ => harrow.skip fun _ => .pure trivial).orElse
    (((((hname _).skip fun _ => ((keeps_mark _).skip fun _ => hname _).many.skip fun _ =>
        (.pure trivial : Keeps _)).between _ _).yields.skip fun _ => harrow.skip fun _ =>
          .pure trivial).orElse
      ((hg.formalParams _).skip fun _ => harrow.skip fun _ => .pure trivial))

theorem lambda (place : Place) (start : Mark) : Yields Expr.Fits (lambda g place start) :=
  hg.lambdaParams.skip fun _ => reads_get.skip fun _ => .guard ((reads_isAhead _).skip fun _ =>
    .ite (fun _ => hg.block.bind fun _ _ hbody => (reads_spanFrom _).skip fun _ => .pure hbody)
      fun _ => (hg.expr _).bind fun _ _ hbody => (reads_spanFrom _).skip fun _ => .pure hbody)

omit hg in
theorem updated (start : Mark) (bound : Nat) {e : Expr} {xs : List Head} (h : e.Fits xs) :
    Reads 0 0 xs Expr.Fits (updated start bound e) := by
  induction bound generalizing e with
  | zero => exact .pure h
  | succ bound ih =>
    exact (operatorOf _).opt.skip fun
      | none => .pure h
      | some _ => (reads_spanFrom _).skip fun _ => ih h

theorem castValue (place : Place) : Yields Operand.Fits (castValue g place) :=
  reads_here.skip fun _ => (hg.operand place).trans fun _ _ ho =>
    .ite (fun _ => .pure ho) fun _ => reads_get.skip fun _ => (updated _ _ ho).trans fun _ _ he => .pure he

theorem narrowValue (place : Place) : Yields Operand.Fits (narrowValue g place) :=
  reads_here.skip fun start => ((hg.lambda place start).orElse
    ((hg.primaryRule start).trans fun _ _ hp => .pure hp)).trans fun _ _ he => .pure he

omit hg in
theorem endOf {α : Type} (p : Rule α) : Keeps (endOf p) := by
  intro ys s hs a s' heq
  cases heq
  exact ⟨[], trivial, hs⟩

theorem signedValue (place : Place) : Yields Operand.Fits (signedValue g place) :=
  reads_get.skip fun _ => reads_here.skip fun _ => (hg.operand place).trans fun _ _ ho =>
    reads_get.skip fun _ => (updated _ _ ho).trans fun _ _ he => (operatorIsAhead _).skip fun _ =>
      .ite (fun _ => .pure he) fun _ => .failure

theorem castRule (place : Place) (start : Mark) : Yields Operand.Fits (castRule g place start) := by
  have hcast : ∀ (type : TypeRef) (sign : Bool) (value : Rule Operand),
      Yields Operand.Fits value → Yields Operand.Fits (do
        let v ← value
        return (⟨.cast (← spanFrom start) type v.expr, false, sign || v.castsSign⟩ : Operand)) :=
    fun _ _ _ hvalue => hvalue.bind fun _ _ hv => (reads_spanFrom _).skip fun _ => .pure hv
  have hfurther : Keeps (do
      let _ ← mark "&"
      let own ← many g.annotationTree
      return own.isEmpty && (← g.type []).isPlain) :=
    (keeps_mark _).skip fun _ => hg.annotation.many.skip fun _ => (hg.type _).skip fun _ => .pure trivial
  refine (keeps_mark _).skip fun _ => reads_here.skip fun _ => hg.annotation.many.skip fun _ =>
    (hg.type _).skip fun _ => (reads_textFrom _).skip fun _ => (reads_spanFrom _).skip fun _ =>
      hfurther.many.skip fun further => (keeps_mark _).skip fun _ => ?_
  have hvalue : Yields Operand.Fits
      (if further.isEmpty then Java.castValue g place else Java.narrowValue g place) :=
    .ite (fun _ => hg.castValue place) fun _ => hg.narrowValue place
  refine .ite (fun _ => hcast _ _ _ hvalue) fun _ => reads_get.skip fun _ => ?_
  split
  · exact hcast _ _ _ hvalue
  · exact hcast _ _ _ hvalue
  · exact hcast _ _ _ (hg.signedValue place)
  · exact .failure

theorem operandRule {switchRule : Rule (Expr × List SwitchCase)}
    (hswitch : Yields (fun r => (Outline.both (exprOutline r.1) (casesOutline r.2)).Fits) switchRule)
    (place : Place) : Yields Operand.Fits (operandRule g switchRule place) :=
  reads_here.skip fun start => (operatorOf _).opt.skip fun
    | some _ => (hg.operand place).bind fun _ _ ho => (reads_spanFrom _).skip fun _ => .pure ho
    | none => (reads_isAhead _).skip fun _ =>
      .ite (fun _ => hswitch.bind fun _ _ h => (reads_spanFrom _).skip fun _ => .pure h)
        fun _ => .orElse ((hg.lambda place start).bind fun _ _ he => .pure he)
          ((hg.castRule place start).orElse (hg.assignment place start))

theorem unaryRule (place : Place) : Yields Expr.Fits (unaryRule g place) :=
  reads_here.skip fun _ => (hg.operand place).trans fun _ _ ho => reads_get.skip fun _ => updated _ _ ho

theorem typeTest (place : Place) : Keeps (typeTest g place) := by
  have hnamed : Keeps (do
      let type ← Java.annotatedType g reservedNames
      let _ ← opt (nameBut ["instanceof", "when"])
      if endsExpr place (← get).rest then return type else failure) :=
    (hg.annotatedType _).skip fun _ => (keeps_nameBut _).opt.skip fun _ => reads_get.skip fun _ =>
      .ite (fun _ => .pure trivial) fun _ => .failure
  have hbare : Keeps (do
      let word ← nameBut reservedNames
      let start := word.start
      let _ ← many do
        let _ ← mark "."
        anyWord
      if ← isAhead (·.is "<") then return (⟨typeName (← textFrom start), ← spanFrom start⟩ : TypeRef)
      else failure) :=
    (keeps_nameBut _).skip fun _ => ((keeps_mark _).skip fun _ => yields_anyWord.keeps).many.skip fun _ =>
      (reads_isAhead _).skip fun _ => .ite (fun _ => (reads_textFrom _).skip fun _ =>
        (reads_spanFrom _).skip fun _ => .pure trivial) fun _ => .failure
  refine (keeps_keyword _).skip fun _ => (keeps_keyword _).opt.skip fun _ => .orElse ?_ (hnamed.orElse hbare)
  exact (hg.recordPattern []).skip fun _ => reads_get.skip fun _ =>
    .ite (fun _ => .pure trivial) fun _ => .failure

omit hg in
theorem joined {operand : Rule Expr} (hoperand : Yields Expr.Fits operand) (level : Nat) (start : Mark)
    (bound : Nat) {lhs : Expr} {xs : List Head} (h : lhs.Fits xs) :
    Reads 0 0 xs Expr.Fits (joined operand level start bound lhs) := by
  induction bound generalizing lhs xs with
  | zero => exact .pure h
  | succ bound ih =>
    exact (operatorOf _).opt.skip fun
      | none => .pure h
      | some _ => hoperand.bind fun _ _ hrhs => (reads_spanFrom _).skip fun _ => ih (h.both hrhs)

theorem arithmetic (place : Place) (levels : Nat) : Yields Expr.Fits (arithmetic g place levels) := by
  induction levels generalizing place with
  | zero => exact hg.unaryRule place
  | succ level ih =>
    exact reads_here.skip fun _ => reads_get.skip fun _ => (ih place).trans fun _ _ hlhs =>
      reads_get.skip fun _ => joined (ih _) _ _ _ hlhs

theorem resumed (place : Place) (start : Mark) {test : Expr} {xs : List Head} (h : test.Fits xs) :
    Reads 0 0 xs Expr.Fits (resumed g place start test) :=
  reads_get.skip fun _ => (updated _ _ h).trans fun _ _ h =>
    (joined (hg.arithmetic _ _) _ _ _ h).trans fun _ _ h =>
      (joined (hg.arithmetic _ _) _ _ _ h).trans fun _ _ h => joined (hg.arithmetic _ _) _ _ _ h

theorem compared (place : Place) (start : Mark) (bound : Nat) {lhs : Expr} {xs : List Head}
    (h : lhs.Fits xs) : Reads 0 0 xs Expr.Fits (compared g place start bound lhs) := by
  induction bound generalizing lhs xs with
  | zero => exact .pure h
  | succ bound ih =>
    have hcomparison : Reads 0 0 xs Expr.Fits (do
        let op ← Java.operatorOf (operatorsAt comparisonLevel)
        let rhs ← Java.arithmetic g place comparisonLevel
        return .binary (← spanFrom start) (.ofText op) lhs rhs) :=
      (operatorOf _).skip fun _ => (hg.arithmetic _ _).bind fun _ _ hrhs => (reads_spanFrom _).skip fun _ =>
        .pure (h.both hrhs)
    have htest : Reads 0 0 xs Expr.Fits (do
        let type ← Java.typeTest g place
        Java.resumed g place start (.instanceOf (← spanFrom start) lhs type)) :=
      (hg.typeTest place).skip fun _ => (reads_spanFrom _).skip fun _ => hg.resumed _ _ h
    exact (hcomparison.orElse htest).opt_trans (.pure h) fun _ _ he => ih he

theorem binaryRule (place : Place) (levels : Nat) : Yields Expr.Fits (binaryRule g place levels) := by
  induction levels with
  | zero =>
    exact reads_here.skip fun _ => (hg.arithmetic _ _).trans fun _ _ hlhs => reads_get.skip fun _ =>
      hg.compared _ _ _ hlhs
  | succ level ih =>
    exact reads_here.skip fun _ => ih.trans fun _ _ hlhs => reads_get.skip fun _ => joined ih _ _ _ hlhs

theorem exprRule (place : Place) : Yields Expr.Fits (exprRule g place) :=
  reads_here.skip fun _ => (hg.binaryRule place 6).trans fun _ _ hcond => (keeps_mark _).opt.skip fun
    | none => .pure hcond
    | some _ => (hg.expr _).bind fun _ _ hyes => (keeps_mark _).skip fun _ => (hg.expr _).bind fun _ _ hno =>
      (reads_spanFrom _).skip fun _ => .pure ((hcond.both hyes).both hno)

theorem variableInitRule : Yields Expr.Fits (variableInitRule g) :=
  reads_here.skip fun _ => (bracedList hg.variableInit).opt_trans (hg.expr _) fun _ _ hitems =>
    (reads_spanFrom _).skip fun _ => .pure (fits_exprs hitems)

end Grammar.InOrder

end LevelGuard.Java
