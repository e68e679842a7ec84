import LevelGuard.Java.Words
import Mathlib.Data.List.Basic
import Mathlib.Data.List.Induction
import Mathlib.Data.List.TakeWhile

/-!
# Names of written types

A written type is a dotted name. Its segments may have type arguments, annotations may stand
before a segment and before array dimensions, and there may be white space between all tokens.
A character goes through the reader alone, so what it keeps of a text is what it keeps of the
parts. Of type arguments it keeps nothing, whatever stands in them. Of an annotation it keeps what
follows the first white space inside of it: the name of the type is read exactly if no annotation
outside the angle brackets has white space inside.
-/
namespace LevelGuard.Java.Written

open Text (isBlank)

/-- A character of a word: neither white space nor a mark. -/
def isLetter (c : Char) : Bool := !isBlank c && !(['<', '>', '@', '.', '[', ']'].contains c)

def EndsInLetter (cs : List Char) : Prop := ∃ init c, cs = init ++ [c] ∧ isLetter c = true

/-- No mark that the reader acts on stands in the text. -/
def Plain (cs : List Char) : Prop := ∀ c ∈ cs, c ≠ '<' ∧ c ≠ '>' ∧ c ≠ '@'

structure Word where
  text : List Char
  ne_nil : text ≠ []
  letters : ∀ c ∈ text, isLetter c = true

/-- White space, or nothing. -/
structure Gap where
  text : List Char
  blanks : ∀ c ∈ text, isBlank c = true

/-- The angle brackets in the text match. -/
inductive Balanced : List Char → Prop
  | nil : Balanced []
  | plain {c : Char} {cs : List Char} : c ≠ '<' → c ≠ '>' → Balanced cs → Balanced (c :: cs)
  | nested {inner cs : List Char} :
      Balanced inner → Balanced cs → Balanced ('<' :: (inner ++ '>' :: cs))

/-- Type arguments: wildcards, bounds, arrays and annotations are plain there. -/
structure Arguments where
  inner : List Char
  balanced : Balanced inner
  behind : Gap

/-- An annotation without arguments. Its name may be dotted and have white space inside; there is
white space behind it. -/
structure Marker where
  name : List Char
  plain : Plain name
  endsInLetter : EndsInLetter name
  behind : Gap
  behind_ne_nil : behind.text ≠ []

structure Segment where
  markers : List Marker
  word : Word
  behind : Gap
  arguments : Option Arguments

structure Dimension where
  markers : List Marker
  inside : Gap
  behind : Gap

structure WrittenType where
  lead : Gap
  first : Segment
  /-- The other segments, each with the white space between it and its dot. -/
  more : List (Gap × Segment)
  dimensions : List Dimension

def Arguments.text (a : Arguments) : List Char := '<' :: (a.inner ++ '>' :: a.behind.text)

def Marker.text (m : Marker) : List Char := '@' :: (m.name ++ m.behind.text)

def Marker.Tight (m : Marker) : Prop := ∀ c ∈ m.name, isBlank c = false

def Segment.text (s : Segment) : List Char :=
  s.markers.flatMap Marker.text ++ (s.word.text ++ s.behind.text) ++ s.arguments.elim [] Arguments.text

def Dimension.text (d : Dimension) : List Char :=
  d.markers.flatMap Marker.text ++ ('[' :: d.inside.text ++ ']' :: d.behind.text)

namespace WrittenType

def text (t : WrittenType) : List Char :=
  t.lead.text ++ t.first.text ++ t.more.flatMap (fun p => '.' :: p.1.text ++ p.2.text) ++
    t.dimensions.flatMap Dimension.text

def name (t : WrittenType) : List Char :=
  t.first.word.text ++ t.more.flatMap fun p => '.' :: p.2.word.text

/-- The annotations outside the angle brackets. -/
def markers (t : WrittenType) : List Marker :=
  t.first.markers ++ t.more.flatMap (·.2.markers) ++ t.dimensions.flatMap (·.markers)

end WrittenType

/-- The reader keeps these characters of the text, whatever follows it. -/
def Yields (text kept : List Char) : Prop :=
  ∀ rest, bareType 0 false (text ++ rest) = kept ++ bareType 0 false rest

def unspaced (cs : List Char) : List Char := cs.filter (!isBlank ·)

/-- What is kept of an annotation. -/
def Marker.left (m : Marker) : List Char := unspaced (m.name.dropWhile (!isBlank ·))

theorem Yields.append {a b x y : List Char} (h : Yields a x) (h' : Yields b y) :
    Yields (a ++ b) (x ++ y) := fun rest => by
  rw [List.append_assoc, h, h', List.append_assoc]

theorem Yields.flatMap {α : Type} {f g : α → List Char} (h : ∀ a, Yields (f a) (g a)) (l : List α) :
    Yields (l.flatMap f) (l.flatMap g) := by
  induction l with
  | nil => exact fun _ => rfl
  | cons a l ih =>
    rw [List.flatMap_cons, List.flatMap_cons]
    exact (h a).append ih

theorem yields_plain {cs : List Char} (h : Plain cs) : Yields cs (unspaced cs) := by
  intro rest
  induction cs with
  | nil => rfl
  | cons c cs ih =>
    obtain ⟨⟨hopen, hclose, hat⟩, hcs⟩ := List.forall_mem_cons.mp h
    rw [List.cons_append, bareType]
    cases hblank : isBlank c <;> simp [unspaced, hblank, hopen, hclose, hat] <;> exact ih hcs

theorem Balanced.bareType_append {cs : List Char} (h : Balanced cs) (depth : Nat) (rest : List Char) :
    bareType (depth + 1) false (cs ++ rest) = bareType (depth + 1) false rest := by
  induction h generalizing depth rest with
  | nil => rfl
  | plain hopen hclose _ ih =>
    rw [List.cons_append, bareType]
    simpa [hopen, hclose] using ih depth rest
  | @nested inner cs _ _ ihInner ih =>
    calc bareType (depth + 1) false ('<' :: (inner ++ '>' :: cs) ++ rest)
      _ = bareType (depth + 2) false (inner ++ '>' :: (cs ++ rest)) := by
        rw [List.cons_append, List.append_assoc]
        rfl
      _ = bareType (depth + 1) false (cs ++ rest) := ihInner (depth + 1) _
      _ = bareType (depth + 1) false rest := ih depth rest

theorem isLetter_iff {c : Char} : isLetter c = true ↔
    isBlank c = false ∧ c ≠ '<' ∧ c ≠ '>' ∧ c ≠ '@' ∧ c ≠ '.' ∧ c ≠ '[' ∧ c ≠ ']' := by
  simp [isLetter]

theorem yields_self {cs : List Char}
    (h : ∀ c ∈ cs, isBlank c = false ∧ c ≠ '<' ∧ c ≠ '>' ∧ c ≠ '@') : Yields cs cs := by
  have hkept : unspaced cs = cs := List.filter_eq_self.mpr fun c hc => by simp [(h c hc).1]
  have hyields := yields_plain fun c hc => (h c hc).2
  rwa [hkept] at hyields

theorem Word.yields (w : Word) : Yields w.text w.text := by
  refine yields_self fun c hc => ?_
  obtain ⟨hblank, hopen, hclose, hat, -⟩ := isLetter_iff.mp (w.letters c hc)
  exact ⟨hblank, hopen, hclose, hat⟩

theorem Gap.yields (g : Gap) : Yields g.text [] := by
  have hplain : Plain g.text := fun c hc => by
    refine ⟨?_, ?_, ?_⟩ <;> rintro rfl <;> exact absurd (g.blanks _ hc) (by decide)
  have hkept : unspaced g.text = [] := List.filter_eq_nil_iff.mpr fun c hc => by simp [g.blanks c hc]
  have h := yields_plain hplain
  rwa [hkept] at h

theorem Arguments.yields (a : Arguments) : Yields a.text [] := fun rest => by
  calc bareType 0 false ('<' :: (a.inner ++ '>' :: a.behind.text) ++ rest)
    _ = bareType 1 false (a.inner ++ '>' :: (a.behind.text ++ rest)) := by
      rw [List.cons_append, List.append_assoc]
      rfl
    _ = bareType 0 false (a.behind.text ++ rest) := a.balanced.bareType_append 0 _
    _ = bareType 0 false rest := a.behind.yields rest

/-- White space inside an annotation, or else that behind it, ends the annotation. -/
theorem bareType_skipping {name : List Char} (h : Plain name) {b : Char} (hb : isBlank b = true)
    (rest : List Char) : bareType 0 true (name ++ b :: rest) =
      unspaced (name.dropWhile (!isBlank ·)) ++ bareType 0 false (b :: rest) := by
  have hends {c : Char} (hc : isBlank c = true) (cs : List Char) :
      bareType 0 true (c :: cs) = bareType 0 false (c :: cs) := by
    rw [bareType, bareType, hc]
    rfl
  induction name with
  | nil => exact hends hb rest
  | cons c name ih =>
    rw [List.cons_append, List.dropWhile_cons]
    cases hc : isBlank c with
    | true =>
      rw [hends hc]
      exact yields_plain h (b :: rest)
    | false =>
      rw [bareType, hc]
      exact ih (List.forall_mem_cons.mp h).2

theorem Marker.yields (m : Marker) : Yields m.text m.left := fun rest => by
  obtain ⟨b, behind, hbehind⟩ := List.exists_cons_of_ne_nil m.behind_ne_nil
  have hb : isBlank b = true := m.behind.blanks b (by simp [hbehind])
  calc bareType 0 false ('@' :: (m.name ++ m.behind.text) ++ rest)
    _ = bareType 0 true (m.name ++ b :: (behind ++ rest)) := by
      rw [List.cons_append, List.append_assoc, hbehind]
      rfl
    _ = m.left ++ bareType 0 false (m.behind.text ++ rest) := by
      rw [bareType_skipping m.plain hb, hbehind]
      rfl
    _ = m.left ++ bareType 0 false rest := by rw [m.behind.yields rest, List.nil_append]

def Segment.kept (s : Segment) : List Char := s.markers.flatMap Marker.left ++ s.word.text

def Dimension.kept (d : Dimension) : List Char := d.markers.flatMap Marker.left ++ ['[', ']']

def WrittenType.kept (t : WrittenType) : List Char :=
  t.first.kept ++ t.more.flatMap (fun p => '.' :: p.2.kept) ++ t.dimensions.flatMap Dimension.kept

theorem Segment.yields (s : Segment) : Yields s.text s.kept := by
  have harguments : Yields (s.arguments.elim [] Arguments.text) [] := by
    cases s.arguments with
    | none => exact fun _ => rfl
    | some a => exact a.yields
  have hword := (Yields.flatMap Marker.yields s.markers).append (s.word.yields.append s.behind.yields)
  simpa [Segment.kept, Segment.text] using hword.append harguments

theorem Dimension.yields (d : Dimension) : Yields d.text d.kept := by
  have hopen : Yields ['['] ['['] := fun _ => rfl
  have hclose : Yields [']'] [']'] := fun _ => rfl
  have hbrackets := (hopen.append d.inside.yields).append (hclose.append d.behind.yields)
  simpa [Dimension.kept, Dimension.text] using (Yields.flatMap Marker.yields d.markers).append hbrackets

theorem WrittenType.yields (t : WrittenType) : Yields t.text t.kept := by
  have hdot : Yields ['.'] ['.'] := fun _ => rfl
  have hmore (p : Gap × Segment) : Yields ('.' :: p.1.text ++ p.2.text) ('.' :: p.2.kept) :=
    (hdot.append p.1.yields).append p.2.yields
  have hall := ((t.lead.yields.append t.first.yields).append (Yields.flatMap hmore t.more)).append
    (Yields.flatMap Dimension.yields t.dimensions)
  exact hall

theorem Segment.countP_kept (s : Segment) : s.kept.countP isLetter =
    s.word.text.countP isLetter + (s.markers.flatMap Marker.left).countP isLetter := by
  rw [kept, List.countP_append, Nat.add_comm]

/-- The letters of what is kept are those of the name and of what is left of annotations. -/
theorem WrittenType.countP_kept (t : WrittenType) : t.kept.countP isLetter =
    t.name.countP isLetter + (t.markers.flatMap Marker.left).countP isLetter := by
  have hmore (l : List (Gap × Segment)) : (l.flatMap fun p => '.' :: p.2.kept).countP isLetter =
      (l.flatMap fun p => '.' :: p.2.word.text).countP isLetter +
        ((l.flatMap (·.2.markers)).flatMap Marker.left).countP isLetter := by
    induction l with
    | nil => rfl
    | cons p l ih =>
      simp only [List.flatMap_cons, List.flatMap_append, List.countP_append, List.countP_cons,
        Segment.countP_kept, ih]
      omega
  have hdimensions (l : List Dimension) : (l.flatMap Dimension.kept).countP isLetter =
      ((l.flatMap (·.markers)).flatMap Marker.left).countP isLetter := by
    induction l with
    | nil => rfl
    | cons d l ih =>
      have hmarks : ['[', ']'].countP isLetter = 0 := by decide
      simp only [List.flatMap_cons, List.flatMap_append, List.countP_append, Dimension.kept, ih, hmarks]
      rfl
  simp only [kept, name, markers, Segment.countP_kept, List.flatMap_append, List.countP_append, hmore,
    hdimensions]
  omega

theorem Marker.left_eq_nil {m : Marker} (h : m.Tight) : m.left = [] := by
  rw [left, List.dropWhile_eq_nil_iff.mpr fun c hc => by simp [h c hc]]
  rfl

theorem flatMap_left_eq_nil {ms : List Marker} (h : ∀ m ∈ ms, m.Tight) : ms.flatMap Marker.left = [] :=
  List.flatMap_eq_nil_iff.mpr fun m hm => m.left_eq_nil (h m hm)

def brackets {α : Type} (l : List α) : List Char := l.flatMap fun _ => ['[', ']']

theorem countP_brackets {α : Type} (l : List α) : (brackets l).countP isLetter = 0 := by
  induction l with
  | nil => rfl
  | cons a l ih =>
    have hmarks : ['[', ']'].countP isLetter = 0 := by decide
    rw [brackets, List.flatMap_cons, List.countP_append, hmarks, Nat.zero_add]
    exact ih

theorem WrittenType.kept_of_tight {t : WrittenType} (h : ∀ m ∈ t.markers, m.Tight) :
    t.kept = t.name ++ brackets t.dimensions := by
  simp only [markers, List.forall_mem_append, List.forall_mem_flatMap] at h
  obtain ⟨⟨hfirst, hmore⟩, hdimensions⟩ := h
  rw [kept, name, Segment.kept, flatMap_left_eq_nil hfirst, List.nil_append]
  congr 1
  · exact congrArg _ (List.flatMap_congr fun p hp => by
      rw [Segment.kept, flatMap_left_eq_nil (hmore p hp), List.nil_append])
  · exact List.flatMap_congr fun d hd => by
      rw [Dimension.kept, flatMap_left_eq_nil (hdimensions d hd), List.nil_append]

theorem EndsInLetter.append {cs : List Char} (h : EndsInLetter cs) (lead : List Char) :
    EndsInLetter (lead ++ cs) := by
  obtain ⟨init, c, rfl, hc⟩ := h
  exact ⟨lead ++ init, c, by rw [List.append_assoc], hc⟩

/-- An annotation ends in a letter, which is kept if there is white space before it. -/
theorem Marker.tight_or_endsInLetter (m : Marker) : m.Tight ∨ EndsInLetter m.left := by
  obtain ⟨init, c, hname, hc⟩ := m.endsInLetter
  have hbc := (isLetter_iff.mp hc).1
  cases hinit : init.dropWhile (!isBlank ·) with
  | nil =>
    refine .inl fun b hb => ?_
    rw [hname] at hb
    rcases List.mem_append.mp hb with hb | hb
    · simpa using List.dropWhile_eq_nil_iff.mp hinit b hb
    · exact List.mem_singleton.mp hb ▸ hbc
  | cons b rest =>
    refine .inr ⟨unspaced (b :: rest), c, ?_, hc⟩
    have hdropped : m.name.dropWhile (!isBlank ·) = b :: rest ++ [c] := by
      rw [hname, List.dropWhile_append, hinit]
      rfl
    rw [left, hdropped, unspaced, List.filter_append, List.filter_singleton, hbc]
    rfl

theorem flatMap_left_cases (ms : List Marker) :
    ms.flatMap Marker.left = [] ∨ EndsInLetter (ms.flatMap Marker.left) := by
  induction ms with
  | nil => exact .inl rfl
  | cons m ms ih =>
    rw [List.flatMap_cons]
    rcases ih with hnil | hends
    · rw [hnil, List.append_nil]
      exact m.tight_or_endsInLetter.imp_left Marker.left_eq_nil
    · exact .inr (hends.append _)

theorem Word.endsInLetter (w : Word) : EndsInLetter w.text := by
  obtain ⟨init, c, h⟩ := (List.eq_nil_or_concat w.text).resolve_left w.ne_nil
  rw [List.concat_eq_append] at h
  exact ⟨init, c, h, w.letters c (by simp [h])⟩

theorem Segment.endsInLetter (s : Segment) : EndsInLetter s.kept := s.word.endsInLetter.append _

theorem endsInLetter_dotted {cs : List Char} (hcs : EndsInLetter cs) {α : Type} {f : α → List Char}
    (hf : ∀ a, EndsInLetter (f a)) (l : List α) : EndsInLetter (cs ++ l.flatMap fun a => '.' :: f a) := by
  rcases List.eq_nil_or_concat l with rfl | ⟨l, a, rfl⟩
  · rwa [List.flatMap_nil, List.append_nil]
  · rw [List.concat_eq_append, List.flatMap_append, List.flatMap_singleton]
    exact (((hf a).append ['.']).append _).append _

/-- What is kept ends in a letter, apart from brackets behind it. -/
theorem exists_stem {cs : List Char} (h : EndsInLetter cs) (ds : List Dimension) :
    ∃ stem, ∃ l : List Dimension,
      cs ++ ds.flatMap Dimension.kept = stem ++ brackets l ∧ EndsInLetter stem := by
  induction ds using List.reverseRecOn with
  | nil => exact ⟨cs, [], rfl, h⟩
  | append_singleton ds d ih =>
    rw [List.flatMap_append, List.flatMap_singleton, Dimension.kept]
    rcases flatMap_left_cases d.markers with hnil | hends
    · obtain ⟨stem, l, hstem, hends⟩ := ih
      refine ⟨stem, l ++ [d], ?_, hends⟩
      rw [hnil, List.nil_append, ← List.append_assoc, hstem, List.append_assoc, brackets, brackets,
        List.flatMap_append]
      rfl
    · exact ⟨_, [d], by rw [← List.append_assoc, ← List.append_assoc]; rfl, hends.append _⟩

theorem dropDimensions_brackets {α : Type} (l : List α) (cs : List Char) :
    dropDimensions (cs ++ brackets l).reverse = dropDimensions cs.reverse := by
  rw [brackets]
  induction l generalizing cs with
  | nil => rw [List.flatMap_nil, List.append_nil]
  | cons a l ih =>
    rw [List.flatMap_cons, ← List.append_assoc, ih, List.reverse_append]
    rfl

theorem drop_of_isLetter {c : Char} (h : isLetter c = true) (r : List Char) :
    dropEllipsis (dropDimensions (c :: r)) = c :: r := by
  obtain ⟨-, -, -, -, hdot, -, hclose⟩ := isLetter_iff.mp h
  have hdimensions : dropDimensions (c :: r) = c :: r := by
    rw [dropDimensions.eq_def]
    split
    · simp_all
    · rfl
  rw [hdimensions, dropEllipsis.eq_def]
  split
  · simp_all
  · rfl

theorem typeName_of_yields {text stem : List Char} {α : Type} {l : List α}
    (h : Yields text (stem ++ brackets l)) (hstem : EndsInLetter stem) :
    typeName text = String.ofList stem := by
  obtain ⟨init, c, rfl, hc⟩ := hstem
  have hkept := h []
  rw [List.append_nil, bareType, List.append_nil] at hkept
  rw [typeName, hkept, dropDimensions_brackets, List.reverse_append, List.reverse_singleton,
    List.singleton_append, drop_of_isLetter hc, List.reverse_cons, List.reverse_reverse]

theorem of_mem_bareType {depth : Nat} {skipping : Bool} {text : List Char} {c : Char}
    (h : c ∈ bareType depth skipping text) : isBlank c = false ∧ c ≠ '<' ∧ c ≠ '>' ∧ c ≠ '@' := by
  fun_induction bareType depth skipping text with
  | case1 => cases h
  | case6 depth skipping d cs hskip hopen hclose hat hkeep ih =>
    rcases List.mem_cons.mp h with rfl | h
    · simp only [Bool.and_eq_true, decide_eq_true_eq, Bool.not_eq_true'] at hkeep hat
      exact ⟨hkeep.2, hopen, hclose, fun h => hat ⟨hkeep.1, h⟩⟩
    · exact ih h
  | _ =>
    rename_i ih
    exact ih h

/-- The name of a written type is read exactly if no annotation outside of its angle brackets has
white space inside. What is read is always read as itself. -/
theorem typeName_eq_name_iff (t : WrittenType) :
    (typeName t.text = String.ofList t.name ↔ ∀ m ∈ t.markers, m.Tight) ∧
      typeName (typeName t.text).toList = typeName t.text := by
  have hword : EndsInLetter t.name := endsInLetter_dotted t.first.word.endsInLetter
    (fun p : Gap × Segment => p.2.word.endsInLetter) t.more
  have hsegments := endsInLetter_dotted t.first.endsInLetter
    (fun p : Gap × Segment => p.2.endsInLetter) t.more
  obtain ⟨stem, l, hstem, hends⟩ := exists_stem hsegments t.dimensions
  have hkept : t.kept = stem ++ brackets l := hstem
  have hname : typeName t.text = String.ofList stem := typeName_of_yields (hkept ▸ t.yields) hends
  refine ⟨⟨fun h m hm => m.tight_or_endsInLetter.resolve_right ?_, fun h => ?_⟩, ?_⟩
  · -- a letter that is left of an annotation would be one too many
    rintro ⟨init, c, hleft, hc⟩
    have hcount := t.countP_kept
    rw [hname, String.ofList_inj] at h
    rw [hkept, List.countP_append, h, countP_brackets, Nat.add_zero, Nat.left_eq_add,
      List.countP_eq_zero] at hcount
    exact hcount c (List.mem_flatMap.mpr ⟨m, hm, by simp [hleft]⟩) hc
  · exact typeName_of_yields (WrittenType.kept_of_tight h ▸ t.yields) hword
  · have hread := t.yields []
    rw [List.append_nil, bareType, List.append_nil, hkept] at hread
    have hself : Yields stem (stem ++ brackets ([] : List Unit)) := by
      rw [brackets, List.flatMap_nil, List.append_nil]
      exact yields_self fun c hc => of_mem_bareType (hread ▸ List.mem_append_left _ hc)
    rw [hname, String.toList_ofList]
    exact typeName_of_yields hself hends

def noGap : Gap := ⟨[], nofun⟩

def blank : Gap := ⟨[' '], List.forall_mem_singleton.mpr rfl⟩

def contextWord : Word := ⟨"Context".toList, by simp, by simp [isLetter_iff, isBlank]⟩

/-- The annotation `NonNull` with white space behind its sign. -/
def nonNull (gap : Gap) : Marker where
  name := gap.text ++ "NonNull".toList
  plain c hc := by
    rcases List.mem_append.mp hc with hc | hc
    · refine ⟨?_, ?_, ?_⟩ <;> rintro rfl <;> exact absurd (gap.blanks _ hc) (by decide)
    · refine ⟨?_, ?_, ?_⟩ <;> rintro rfl <;> simp at hc
  endsInLetter := ⟨gap.text ++ "NonNul".toList, 'l', by simp, by decide⟩
  behind := blank
  behind_ne_nil := by decide

/-- The type `Context<T> [ ]` with the annotation. -/
def annotatedContext (gap : Gap) : WrittenType where
  lead := noGap
  first := ⟨[nonNull gap], contextWord, noGap, some ⟨['T'], .plain (by decide) (by decide) .nil, blank⟩⟩
  more := []
  dimensions := [⟨[], blank, noGap⟩]

theorem typeName_eq_name_iff_annotated :
    (annotatedContext noGap).text = "@NonNull Context<T> [ ]".toList ∧
      typeName (annotatedContext noGap).text = "Context" := by
  refine ⟨by decide, (typeName_eq_name_iff (annotatedContext noGap)).1.mpr fun m hm => ?_⟩
  obtain rfl := List.mem_singleton.mp hm
  intro c hc
  revert c
  simp [nonNull, noGap, isBlank]

/-- The annotation ends at the white space behind its sign. -/
theorem spaced_annotation_kept :
    (annotatedContext blank).text = "@ NonNull Context<T> [ ]".toList ∧
      (annotatedContext blank).name = "Context".toList ∧
      typeName (annotatedContext blank).text = "NonNullContext" := by
  decide

end LevelGuard.Java.Written
