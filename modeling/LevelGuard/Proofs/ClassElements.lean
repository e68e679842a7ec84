import LevelGuard.Platform.Database

/-!
# Classes of a database

Reading a database is a run over the events of its text, with the complete classes and
the one that is being read as its state. An event that neither begins nor ends a class
can only add to the class that is being read. So a class element that is complete, one
that closes itself or whose end tag comes before any other class tag, is one more class
between those of what stands before it and of what stands after it. A class whose end tag
does not come, or comes after another class tag, is lost.
-/
namespace LevelGuard.Markup

/-- Whether an event is a tag with the name, at the start or at the end of an element. -/
def Event.bounds (e : Event) (name : String) : Bool :=
  match e with
  | .start tag | .empty tag => tag.name = name
  | .close n => n = name
  | .text _ | .other => false

end LevelGuard.Markup

namespace LevelGuard.Platform

open Markup

def sinceOf? (tag : Tag) : Option Level := (tag.value? "since").bind Level.ofText?

namespace ApiClass

def ofTag (tag : Tag) (name : String) : ApiClass :=
  { name := dottedName name, since := (sinceOf? tag).getD 1 }

/-- What a tag inside a class adds to it; a tag that is marked as removed adds nothing. -/
def readTag (c : ApiClass) (tag : Tag) : ApiClass :=
  match tag.value? "name", tag.value? "removed" with
  | some name, none => c.addElement tag name (sinceOf? tag)
  | _, _ => c

def readEvent (c : ApiClass) (e : Event) : ApiClass :=
  match e with
  | .start tag | .empty tag => c.readTag tag
  | .close _ | .text _ | .other => c

/-- The name and the level of a class come from its own tag. -/
theorem header_addElement (c : ApiClass) (tag : Tag) (name : String) (since : Option Level) :
    (c.addElement tag name since).name = c.name ∧ (c.addElement tag name since).since = c.since := by
  unfold addElement
  split
  · exact ⟨rfl, rfl⟩
  · split <;> exact ⟨rfl, rfl⟩
  · split <;> exact ⟨rfl, rfl⟩
  · exact ⟨rfl, rfl⟩
  · exact ⟨rfl, rfl⟩

theorem header_readTag (c : ApiClass) (tag : Tag) :
    (c.readTag tag).name = c.name ∧ (c.readTag tag).since = c.since := by
  unfold readTag
  split
  · exact c.header_addElement tag _ _
  · exact ⟨rfl, rfl⟩

theorem header_readEvents (content : List Event) (c : ApiClass) :
    (content.foldl readEvent c).name = c.name ∧ (content.foldl readEvent c).since = c.since := by
  induction content generalizing c with
  | nil => exact ⟨rfl, rfl⟩
  | cons e content ih =>
    have hevent : (c.readEvent e).name = c.name ∧ (c.readEvent e).since = c.since := by
      cases e with
      | start tag => exact c.header_readTag tag
      | empty tag => exact c.header_readTag tag
      | close name => exact ⟨rfl, rfl⟩
      | text raw => exact ⟨rfl, rfl⟩
      | other => exact ⟨rfl, rfl⟩
    rw [List.foldl_cons, (ih _).1, (ih _).2]
    exact hevent

end ApiClass

namespace Database

namespace Draft

/-- A class tag begins a class in place of the one that is being read. -/
theorem element_class (d : Draft) {tag : Tag} (htag : tag.name = "class") {name : String}
    (hname : tag.value? "name" = some name) :
    d.element tag = ⟨d.classes, some (.ofTag tag name)⟩ := by
  rw [element, if_pos htag, hname]
  rfl

theorem element_inside (d : Draft) {tag : Tag} (htag : tag.name ≠ "class") :
    d.element tag = ⟨d.classes, d.current.map (·.readTag tag)⟩ := by
  obtain ⟨classes, current⟩ := d
  rw [element, if_neg htag]
  unfold ApiClass.readTag
  cases current with
  | none => rfl
  | some c => cases tag.value? "name" <;> cases tag.value? "removed" <;> rfl

theorem apply_inside (d : Draft) {e : Event} (h : e.bounds "class" = false) :
    d.apply e = ⟨d.classes, d.current.map (·.readEvent e)⟩ := by
  have hsame : d = ⟨d.classes, d.current.map fun c => c⟩ := by rw [Option.map_id']
  cases e with
  | start tag => exact d.element_inside (of_decide_eq_false h)
  | empty tag =>
    have htag : tag.name ≠ "class" := of_decide_eq_false h
    rw [apply, if_neg htag]
    exact d.element_inside htag
  | close name =>
    rw [apply, if_neg (of_decide_eq_false h)]
    exact hsame
  | text raw => exact hsame
  | other => exact hsame

theorem run_inside (content : List Event) (d : Draft)
    (h : ∀ e ∈ content, e.bounds "class" = false) :
    content.foldl apply d = ⟨d.classes, d.current.map fun c => content.foldl ApiClass.readEvent c⟩ := by
  induction content generalizing d with
  | nil => simp
  | cons e content ih =>
    obtain ⟨he, hcontent⟩ := List.forall_mem_cons.mp h
    rw [List.foldl_cons, d.apply_inside he, ih _ hcontent, Option.map_map]
    rfl

/-- The classes that are complete stay below what a step adds. -/
theorem apply_below (below : List ApiClass) (d : Draft) (e : Event) :
    apply ⟨d.classes ++ below, d.current⟩ e = ⟨(d.apply e).classes ++ below, (d.apply e).current⟩ := by
  have hcomplete : complete ⟨d.classes ++ below, d.current⟩ =
      ⟨d.complete.classes ++ below, d.complete.current⟩ := by
    simp [complete]
  have helement : ∀ tag, element ⟨d.classes ++ below, d.current⟩ tag =
      ⟨(d.element tag).classes ++ below, (d.element tag).current⟩ := by
    intro tag
    by_cases htag : tag.name = "class"
    · simp [element, htag]
    · rw [element_inside _ htag, element_inside _ htag]
  cases e with
  | start tag => exact helement tag
  | empty tag =>
    by_cases htag : tag.name = "class"
    · simp [apply, htag, helement, complete]
    · simp [apply, htag, helement]
  | close name => by_cases hname : name = "class" <;> simp [apply, hname, hcomplete]
  | text raw => rfl
  | other => rfl

theorem run_below (below : List ApiClass) (events : List Event) (d : Draft) :
    events.foldl apply ⟨d.classes ++ below, d.current⟩ =
      ⟨(events.foldl apply d).classes ++ below, (events.foldl apply d).current⟩ := by
  induction events generalizing d with
  | nil => rfl
  | cons e events ih => rw [List.foldl_cons, apply_below, ih, List.foldl_cons]

end Draft

/-- Outside of classes there is nothing to read. -/
theorem ofEvents_outside {events : List Event} (h : ∀ e ∈ events, e.bounds "class" = false) :
    ofEvents events = [] := by
  rw [ofEvents, Draft.run_inside events _ h]
  rfl

/-- The events of a complete class element with the tag and the content. -/
inductive ClassElement (tag : Tag) : (content events : List Event) → Prop where
  | closed : ClassElement tag [] [.empty tag]
  | full {content : List Event} (h : ∀ e ∈ content, e.bounds "class" = false) :
      ClassElement tag content (.start tag :: (content ++ [.close "class"]))

section Element

variable {tag : Tag} {name : String} {content element : List Event} (htag : tag.name = "class")
  (hname : tag.value? "name" = some name) (helement : ClassElement tag content element)
include htag hname helement

/-- A complete element leaves its class on top of those that were complete. -/
theorem Draft.run_element (d : Draft) : element.foldl Draft.apply d =
    ⟨content.foldl ApiClass.readEvent (.ofTag tag name) :: d.classes, none⟩ := by
  cases helement with
  | closed =>
    rw [List.foldl_cons, Draft.apply, if_pos htag, d.element_class htag hname]
    rfl
  | full hcontent =>
    rw [List.foldl_cons, Draft.apply, d.element_class htag hname, List.foldl_append,
      Draft.run_inside content _ hcontent]
    rfl

/-- A complete element is one class between those before it and those after it. -/
theorem ofEvents_element (before after : List Event) : ofEvents (before ++ element ++ after) =
    ofEvents before ++ content.foldl ApiClass.readEvent (.ofTag tag name) :: ofEvents after := by
  have hafter : ∀ below, after.foldl Draft.apply ⟨below, none⟩ =
      ⟨(after.foldl Draft.apply {}).classes ++ below, (after.foldl Draft.apply {}).current⟩ :=
    fun below => Draft.run_below below after {}
  rw [ofEvents, List.foldl_append, List.foldl_append, Draft.run_element htag hname helement, hafter]
  simp [ofEvents]

end Element

def eventsOf (text : String) : List Event := (Markup.read text.toList).events.map (·.event)

theorem read_eq_ok {text : String} {classes : List ApiClass} :
    read text = .ok classes ↔
      (Markup.read text.toList).faulty = false ∧ classes = ofEvents (eventsOf text) := by
  unfold read eventsOf
  by_cases hfaulty : (Markup.read text.toList).faulty = true
  · simp [hfaulty]
  · simpa [hfaulty] using eq_comm

/-- What is left of the events from the next class tag on. -/
def fromClassTag (events : List Event) : List Event := events.dropWhile fun e => !e.bounds "class"

/-- A class tag other than an end tag makes no use of the class that is being read. -/
theorem Draft.apply_classTag {e : Event} (he : e.bounds "class" = true) (hclose : e ≠ .close "class")
    (classes : List ApiClass) (current current' : Option ApiClass) :
    Draft.apply ⟨classes, current⟩ e = Draft.apply ⟨classes, current'⟩ e := by
  have helement : ∀ tag : Tag, tag.name = "class" →
      Draft.element ⟨classes, current⟩ tag = Draft.element ⟨classes, current'⟩ tag := by
    intro tag htag
    simp only [Draft.element, if_pos htag]
  cases e with
  | start tag => exact helement tag (of_decide_eq_true he)
  | empty tag => rw [Draft.apply, Draft.apply, helement tag (of_decide_eq_true he)]
  | close name => exact absurd (congrArg Event.close (of_decide_eq_true he)) hclose
  | text raw => cases he
  | other => cases he

/-- If no end tag comes first, the class that is being read is lost. -/
theorem Draft.run_fromClassTag {events : List Event}
    (h : (fromClassTag events).head? ≠ some (.close "class")) (classes : List ApiClass)
    (current current' : Option ApiClass) : (events.foldl Draft.apply ⟨classes, current⟩).classes =
      ((fromClassTag events).foldl Draft.apply ⟨classes, current'⟩).classes := by
  induction events generalizing current with
  | nil => rfl
  | cons e events ih =>
    by_cases he : e.bounds "class" = true
    · have hfrom : fromClassTag (e :: events) = e :: events := by simp [fromClassTag, he]
      rw [hfrom] at h ⊢
      have hclose : e ≠ .close "class" := fun heq => h (congrArg some heq)
      rw [List.foldl_cons, List.foldl_cons, Draft.apply_classTag he hclose classes current current']
    · have hfrom : fromClassTag (e :: events) = fromClassTag events := by simp [fromClassTag, he]
      rw [hfrom] at h ⊢
      rw [List.foldl_cons, Draft.apply_inside _ (Bool.eq_false_iff.mpr he), ih h]

/-- A class whose end tag does not come before another class tag adds nothing. -/
theorem ofEvents_unclosed {tag : Tag} {name : String} (htag : tag.name = "class")
    (hname : tag.value? "name" = some name) (before : List Event) {after : List Event}
    (hafter : (fromClassTag after).head? ≠ some (.close "class")) :
    ofEvents (before ++ .start tag :: after) = ofEvents (before ++ fromClassTag after) := by
  rw [ofEvents, ofEvents, List.foldl_append, List.foldl_append, List.foldl_cons, Draft.apply,
    Draft.element_class _ htag hname, Draft.run_fromClassTag hafter]

/-- In a database that is accepted each class tag with a name contributes a class of its
own, with the name and the level of the tag, if the tag closes itself or its end tag comes
before any other class tag. Otherwise all is as if the tag and what is in it were not
there. -/
theorem complete_class_kept {text : String} {classes : List ApiClass}
    (hread : read text = .ok classes) {tag : Tag} {name : String} (htag : tag.name = "class")
    (hname : tag.value? "name" = some name) (before after : List Event) :
    (∀ content element, ClassElement tag content element → eventsOf text = before ++ element ++ after →
      ∃ c, classes = ofEvents before ++ c :: ofEvents after ∧
        c.name = dottedName name ∧ c.since = (sinceOf? tag).getD 1) ∧
    (eventsOf text = before ++ .start tag :: after →
      (fromClassTag after).head? ≠ some (.close "class") →
        classes = ofEvents (before ++ fromClassTag after)) := by
  obtain ⟨-, hclasses⟩ := read_eq_ok.mp hread
  refine ⟨fun content element helement hevents => ?_, fun hevents hafter => ?_⟩
  · rw [hevents, ofEvents_element htag hname helement] at hclasses
    exact ⟨_, hclasses, ApiClass.header_readEvents content (.ofTag tag name)⟩
  · rw [hclasses, hevents, ofEvents_unclosed htag hname before hafter]

/-- A class inside another one, which is not complete. -/
def nestedText : String :=
  "<api><class name=\"a/A\"><class name=\"b/B\" since=\"4\"><field name=\"x\"/></class></class></api>"

def nestedBefore : List Event :=
  [.start ⟨"api", []⟩, .start ⟨"class", " name=\"a/A\"".toList⟩]

def nestedTag : Tag := ⟨"class", " name=\"b/B\" since=\"4\"".toList⟩

theorem complete_class_kept_inner : ∃ classes c, read nestedText = .ok classes ∧
    classes = ofEvents nestedBefore ++ c :: ofEvents [.close "class", .close "api"] ∧
      c.name = "b.B" ∧ c.since = 4 := by
  -- the characters of the literal are taken as they are: decoding its bytes is slow
  have htext : ∃ cs, nestedText.toList = cs ∧ (Markup.read cs).faulty = false ∧
      (Markup.read cs).events.map (·.event) = nestedBefore ++
        [.start nestedTag, .empty ⟨"field", " name=\"x\"".toList⟩, .close "class"] ++
          [.close "class", .close "api"] := ⟨_, String.toList_ofList, by decide +kernel⟩
  obtain ⟨_, rfl, hclean, hevents⟩ := htext
  have hread : read nestedText = .ok (ofEvents (eventsOf nestedText)) :=
    read_eq_ok.mpr ⟨hclean, rfl⟩
  have hname : nestedTag.value? "name" = some "b/B" := by decide +kernel
  have helement : ClassElement nestedTag [.empty ⟨"field", " name=\"x\"".toList⟩]
      [.start nestedTag, .empty ⟨"field", " name=\"x\"".toList⟩, .close "class"] :=
    .full (by decide +kernel)
  obtain ⟨c, hclasses, hc⟩ := (complete_class_kept hread rfl hname nestedBefore _).1 _ _ helement hevents
  exact ⟨_, c, hread, hclasses, hc.1.trans (by decide +kernel), hc.2.trans (by decide +kernel)⟩

/-- The outer class is lost, and so is one in which the text breaks off. -/
theorem unclosed_class_lost :
    (read nestedText).toOption.map (·.map (·.name)) = some ["b.B"] ∧
      (read "<api><class name=\"a/A\"><field name=\"x\"/>").toOption.map (·.map (·.name)) =
        some [] := by
  decide +kernel

end Database

end LevelGuard.Platform
