import LevelGuard.Data.Basic
import LevelGuard.Resource.Document
import Mathlib.Data.List.Induction
import Mathlib.Order.Bounds.Basic

/-!
# The tree of elements

Tags nest: an element is open from its start tag until more elements have been closed than opened
behind that tag, and a tag that closes itself opens nothing. This says which elements are open
after some events without keeping track of them, and the elements that are open lie in one
another, the later ones inside of the earlier ones.

A document is made event by event, with the open elements on a stack. What one event does is said
once (`Draft.apply_eq_ok`); from it follows, for all sequences of events, that the stack holds the
open elements, innermost first, that the elements stand in the order of their tags, and that the
element around each of them is the innermost one that is open when its tag is read.
-/
namespace LevelGuard

namespace Markup.Event

def tag? : Event → Option Tag
  | .start tag | .empty tag => some tag
  | .close _ | .text _ | .other => none

/-- A start tag, whose element stays open. -/
def opens : Event → Bool
  | .start _ => true
  | .empty _ | .close _ | .text _ | .other => false

def closes : Event → Bool
  | .close _ => true
  | .start _ | .empty _ | .text _ | .other => false

end Markup.Event

def Markup.Tag.written (t : Markup.Tag) : String × List (String × String) :=
  (t.name, t.attributes.map fun a => (a.name, a.value))

namespace Resource

open Markup (Located)

/-- How many elements the events begin. -/
def begun (events : List Located) : Nat := events.countP (·.event.tag?.isSome)

def opened (events : List Located) : Nat := events.countP (·.event.opens)

def closed (events : List Located) : Nat := events.countP (·.event.closes)

theorem begun_append (as bs : List Located) : begun (as ++ bs) = begun as + begun bs :=
  List.countP_append

theorem opened_append (as bs : List Located) : opened (as ++ bs) = opened as + opened bs :=
  List.countP_append

theorem closed_append (as bs : List Located) : closed (as ++ bs) = closed as + closed bs :=
  List.countP_append

theorem begun_singleton (e : Located) : begun [e] = e.event.tag?.toList.length := by
  rw [begun, List.countP_singleton]
  cases e.event.tag? <;> rfl

theorem opened_singleton (e : Located) : opened [e] = e.event.opens.toNat := by
  rw [opened, List.countP_singleton]
  cases e.event.opens <;> rfl

theorem closed_singleton (e : Located) : closed [e] = e.event.closes.toNat := by
  rw [closed, List.countP_singleton]
  cases e.event.closes <;> rfl

/-- The events stay inside of the element around them: no part of them from the beginning on
closes more elements than it opens. -/
def StayInside (events : List Located) : Prop := ∀ part, part <+: events → closed part ≤ opened part

theorem StayInside.closed_le {events : List Located} (h : StayInside events) : closed events ≤ opened events :=
  h events List.prefix_rfl

theorem StayInside.of_append {as bs : List Located} (h : StayInside (as ++ bs)) : StayInside as :=
  fun part hpart => h part (hpart.trans (List.prefix_append as bs))

theorem StayInside.concat {events : List Located} {e : Located} (h : StayInside events)
    (hlast : closed (events ++ [e]) ≤ opened (events ++ [e])) : StayInside (events ++ [e]) := by
  intro part hpart
  rcases List.prefix_concat_iff.mp hpart with rfl | hpart
  · exact hlast
  · exact h part hpart

/-- The element `j` is open after the events and `k` elements are open inside of it. -/
def OpenAround (events : List Located) (j k : Nat) : Prop :=
  ∃ pre e post, events = pre ++ e :: post ∧ e.event.opens = true ∧ begun pre = j ∧ StayInside post ∧
    opened post = closed post + k

theorem concat_eq_append_cons {events pre post : List Located} {e x : Located} :
    events ++ [e] = pre ++ x :: post ↔
      (post = [] ∧ events = pre ∧ e = x) ∨
        ∃ init, post = init ++ [e] ∧ events = pre ++ x :: init := by
  rcases List.eq_nil_or_concat post with rfl | ⟨init, y, rfl⟩
  · simp
  · rw [List.concat_eq_append, ← List.cons_append, ← List.append_assoc, List.append_singleton_inj]
    simp
    tauto

section Concat

variable {events : List Located} {e : Located} {j k : Nat}

/-- A start tag puts its element inside of the open ones, an end tag takes the innermost one
away, and no other event changes what is open. -/
theorem openAround_concat : OpenAround (events ++ [e]) j k ↔
    (e.event.opens = true ∧ begun events = j ∧ k = 0) ∨
      ∃ m, OpenAround events j m ∧ m + e.event.opens.toNat = k + e.event.closes.toNat := by
  have hopened (post : List Located) : opened (post ++ [e]) = opened post + e.event.opens.toNat := by
    rw [opened_append, opened_singleton]
  have hclosed (post : List Located) :
      closed (post ++ [e]) = closed post + e.event.closes.toNat := by
    rw [closed_append, closed_singleton]
  constructor
  · rintro ⟨pre, x, post, hevents, hopens, hj, hinside, hk⟩
    rcases concat_eq_append_cons.mp hevents with ⟨rfl, rfl, rfl⟩ | ⟨init, rfl, rfl⟩
    · exact .inl ⟨hopens, hj, (Nat.zero_add k).symm.trans hk.symm⟩
    · have hle := hinside.of_append.closed_le
      rw [hopened, hclosed] at hk
      exact .inr ⟨opened init - closed init,
        ⟨pre, x, init, rfl, hopens, hj, hinside.of_append, by omega⟩, by omega⟩
  · rintro (⟨hopens, hj, rfl⟩ | ⟨m, ⟨pre, x, post, rfl, hopens, hj, hinside, hm⟩, hk⟩)
    · refine ⟨events, e, [], rfl, hopens, hj, fun part hpart => ?_, rfl⟩
      rw [List.prefix_nil.mp hpart]
      exact Nat.le_refl _
    · have hsum : opened (post ++ [e]) = closed (post ++ [e]) + k := by
        rw [hopened, hclosed]
        omega
      exact ⟨pre, x, post ++ [e], by simp, hopens, hj, hinside.concat (by omega), hsum⟩

end Concat

/-- An element without its text. -/
def Element.bare (x : Element) : Element := { x with text := none }

/-- The name and the attributes of an element as they are written. -/
def Element.written (x : Element) : String × List (String × String) :=
  (x.tag, x.attributes.map fun a => (a.name, a.value))

theorem locate_eq_ok {lines : Text.LineIndex} {raw : List Char} {start : Nat} {a : Markup.Attribute}
    {b : Attribute} (h : locate lines raw start a = .ok b) : b.name = a.name ∧ b.value = a.value := by
  rw [locate] at h
  split at h
  · cases h; exact ⟨rfl, rfl⟩
  · cases h; exact ⟨rfl, rfl⟩
  · cases h

theorem mapM_locate_eq_ok {lines : Text.LineIndex} {raw : List Char} {start : Nat}
    {as : List Markup.Attribute} {bs : List Attribute}
    (h : as.mapM (locate lines raw start) = .ok bs) :
    bs.map (fun b => (b.name, b.value)) = as.map fun a => (a.name, a.value) := by
  induction as generalizing bs with
  | nil => rw [List.mapM_nil] at h; cases h; rfl
  | cons a as ih =>
    rw [List.mapM_cons] at h
    obtain ⟨b, hb, h⟩ := exists_of_bind_eq_ok h
    obtain ⟨bs, hbs, h⟩ := exists_of_bind_eq_ok h
    cases h
    obtain ⟨hname, hvalue⟩ := locate_eq_ok hb
    rw [List.map_cons, List.map_cons, ih hbs, hname, hvalue]

namespace Draft

variable {text : List Char} {lines : Text.LineIndex} {d d' : Draft}

/-- A tag adds an element inside of the innermost open one. -/
theorem open_eq_ok {tag : Markup.Tag} {before after : Nat}
    (h : d.open_ text lines tag before after = .ok d') :
    ∃ x, d'.elements.map Element.bare = d.elements.map Element.bare ++ [x] ∧
      x.written = tag.written ∧ x.parent = d.stack.head? ∧
      d'.stack = d.elements.length :: d.stack := by
  obtain ⟨piece, -, h⟩ := exists_of_bind_eq_ok h
  obtain ⟨raw, -, h⟩ := exists_of_bind_eq_ok h
  obtain ⟨attributes, hattributes, h⟩ := exists_of_bind_eq_ok h
  cases h
  refine ⟨_, by rw [List.map_append, List.map_singleton], ?_, rfl, rfl⟩
  rw [Element.bare, Element.written, mapM_locate_eq_ok hattributes]
  rfl

theorem map_bare_modify (xs : List Element) (i : Nat) (content : Option (String × Span)) :
    (xs.modify i fun x => { x with text := content }).map Element.bare = xs.map Element.bare := by
  apply List.ext_getElem?
  intro j
  rw [List.getElem?_map, List.getElem?_map, List.getElem?_modify]
  cases xs[j]? with
  | none => rfl
  | some x => simp only [Option.map_some]; split <;> rfl

theorem setText_eq_ok {raw : List Char} {before after : Nat}
    (h : d.setText text lines raw before after = .ok d') :
    d'.elements.map Element.bare = d.elements.map Element.bare ∧ d'.stack = d.stack := by
  rw [setText] at h
  split at h
  · cases h
  · dsimp only at h
    split at h
    · cases h; exact ⟨rfl, rfl⟩
    · cases h; exact ⟨rfl, rfl⟩
    · obtain ⟨piece, -, h⟩ := exists_of_bind_eq_ok h
      cases h
      exact ⟨map_bare_modify _ _ _, rfl⟩

/-- The stack after an event, where so many elements were there before. -/
def restack (length : Nat) (stack : List Nat) : Markup.Event → List Nat
  | .start _ => length :: stack
  | .close _ => stack.tail
  | .empty _ | .text _ | .other => stack

/-- What one event does: a tag adds an element inside of the innermost open one, and of the
elements before it nothing changes but a text. -/
theorem apply_eq_ok {e : Located} (h : d.apply text lines e = .ok d') :
    ∃ fresh, d'.elements.map Element.bare = d.elements.map Element.bare ++ fresh ∧
      fresh.map Element.written = e.event.tag?.toList.map Markup.Tag.written ∧
      (∀ x ∈ fresh, x.parent = d.stack.head?) ∧
      d'.stack = restack d.elements.length d.stack e.event := by
  obtain ⟨event, before, after⟩ := e
  cases event with
  | start tag =>
    obtain ⟨x, helements, hwritten, hparent, hstack⟩ := open_eq_ok h
    exact ⟨[x], helements, congrArg ([·]) hwritten, by simpa using hparent, hstack⟩
  | empty tag =>
    obtain ⟨opened, hopen, h⟩ := exists_of_bind_eq_ok h
    cases h
    obtain ⟨x, helements, hwritten, hparent, -⟩ := open_eq_ok hopen
    exact ⟨[x], helements, congrArg ([·]) hwritten, by simpa using hparent, rfl⟩
  | close name =>
    cases h
    exact ⟨[], (List.append_nil _).symm, rfl, by simp, rfl⟩
  | text raw =>
    obtain ⟨helements, hstack⟩ := setText_eq_ok h
    exact ⟨[], by rw [helements, List.append_nil], rfl, by simp, hstack⟩
  | other =>
    cases h
    exact ⟨[], (List.append_nil _).symm, rfl, by simp, rfl⟩

/-- A draft that holds what the events say. -/
structure Follows (events : List Located) (d : Draft) : Prop where
  length_eq : d.elements.length = begun events
  /-- The open elements, innermost first. -/
  stack_iff : ∀ j k, d.stack[k]? = some j ↔ OpenAround events j k
  /-- Each element has the event that begins it, and is in the innermost one open before that. -/
  begins : ∀ i x, (d.elements.map Element.bare)[i]? = some x →
    ∃ pre e post tag, events = pre ++ e :: post ∧ begun pre = i ∧ e.event.tag? = some tag ∧
      x.written = tag.written ∧ ∀ p, x.parent = some p ↔ OpenAround pre p 0

theorem follows_nil : Follows [] {} where
  length_eq := rfl
  stack_iff j k := by
    refine iff_of_false (by simp) ?_
    rintro ⟨pre, e, post, hevents, -⟩
    simp at hevents
  begins i x h := by simp at h

theorem getElem?_restack {events : List Located} {d : Draft} (h : Follows events d) (e : Located)
    (j k : Nat) : (restack d.elements.length d.stack e.event)[k]? = some j ↔
      OpenAround (events ++ [e]) j k := by
  rw [openAround_concat, h.length_eq]
  obtain ⟨event, before, after⟩ := e
  cases event with
  | start tag =>
    cases k with
    | zero => simp [restack, Markup.Event.opens, Markup.Event.closes]
    | succ k =>
      simp [restack, Markup.Event.opens, Markup.Event.closes, h.stack_iff]
  | close name => simp [restack, Markup.Event.opens, Markup.Event.closes, h.stack_iff]
  | empty tag | text raw | other =>
    simp [restack, Markup.Event.opens, Markup.Event.closes, h.stack_iff]

theorem Follows.apply {events : List Located} {e : Located} (h : Follows events d)
    (hstep : d.apply text lines e = .ok d') : Follows (events ++ [e]) d' := by
  obtain ⟨fresh, helements, hwritten, hparent, hstack⟩ := apply_eq_ok hstep
  have hlength : d'.elements.length = d.elements.length + fresh.length := by
    simpa using congrArg List.length helements
  have hfresh : fresh.length = e.event.tag?.toList.length := by
    simpa using congrArg List.length hwritten
  have hbare : (d.elements.map Element.bare).length = begun events := by
    rw [List.length_map, h.length_eq]
  refine ⟨?_, fun j k => ?_, fun i x hx => ?_⟩
  · rw [hlength, hfresh, h.length_eq, begun_append, begun_singleton]
  · rw [hstack]
    exact getElem?_restack h e j k
  · rw [helements] at hx
    by_cases hi : i < begun events
    · rw [List.getElem?_append_left (by omega)] at hx
      obtain ⟨pre, x', post, tag, rfl, hrest⟩ := h.begins i x hx
      exact ⟨pre, x', post ++ [e], tag, by simp, hrest⟩
    · -- the element is the new one, and the stack before it begins with the innermost open one
      rw [List.getElem?_append_right (by omega)] at hx
      have hpos := (List.getElem?_eq_some_iff.mp hx).choose
      cases htag : e.event.tag? with
      | none => simp [hfresh, htag] at hpos
      | some tag =>
        rw [htag] at hwritten hfresh
        have hindex : i = begun events := by
          simp only [Option.toList_some, List.length_singleton] at hfresh
          omega
        refine ⟨events, e, [], tag, rfl, hindex.symm, htag, ?_, fun p => ?_⟩
        · have hmem := List.mem_map_of_mem (f := Element.written) (List.mem_of_getElem? hx)
          rw [hwritten] at hmem
          exact List.mem_singleton.mp hmem
        · rw [hparent x (List.mem_of_getElem? hx), List.head?_eq_getElem?, h.stack_iff]

end Draft

namespace Document

variable {text : List Char} {events : List Located} {d : Document}

end Document
end Resource
end LevelGuard
