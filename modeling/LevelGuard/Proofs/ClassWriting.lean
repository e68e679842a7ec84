import Mathlib.Data.List.Dedup
import Mathlib.Data.List.Forall2
import LevelGuard.Proofs.Signatures

/-!
# Writing a database

A class is written as an element with its name and level, and in it one element for each
supertype, method and field. A level that is that of the class can be left out. Between
the elements may stand others that are marked as removed, and texts and comments.

What is written is a relation between classes and events, since a class can be written in
many ways: its members in any order, each overload with any types of its number. Reading
any of them gives the class back, unless it has a method name without overloads: there is
nothing to write of such a name.
-/
namespace LevelGuard.Platform

open Markup

/-- What an element inside a class says. -/
inductive Entry where
  | extend (n : ClassName)
  | implement (n : ClassName)
  | method (name : String) (plain : '(' ∉ name.toList) (params : List FieldType)
      (result : Option FieldType) (since : Level)
  | field (name : String) (since : Level)

/-- A level is written, or left out where it is the one that is implied. -/
def WritesLevel (written : Option String) (level implied : Level) : Prop :=
  written = some (toString level) ∧ level ≤ Level.greatest ∨ written = none ∧ level = implied

theorem WritesLevel.read {written : Option String} {level implied : Level}
    (h : WritesLevel written level implied) : (written.bind Level.ofText?).getD implied = level := by
  rcases h with ⟨rfl, hlevel⟩ | ⟨rfl, rfl⟩
  · rw [Option.bind_some, Level.ofText?_toString hlevel, Option.getD_some]
  · rfl

namespace Entry

def tagName : Entry → String
  | extend _ => "extends"
  | implement _ => "implements"
  | method .. => "method"
  | field .. => "field"

def text : Entry → List Char
  | extend n | implement n => n.internal
  | method name _ params result _ =>
    name.toList ++ '(' :: (params.flatMap FieldType.text ++ ')' :: resultText result)
  | field name _ => name.toList

def since? : Entry → Option Level
  | method _ _ _ _ since | field _ since => some since
  | extend _ | implement _ => none

/-- An entry of a class of the level is what a tag says. -/
structure WrittenAs (e : Entry) (tag : Tag) (level : Level) : Prop where
  tagName : tag.name = e.tagName
  name : tag.value? "name" = some (String.ofList e.text)
  kept : tag.value? "removed" = none
  since : ∀ l, e.since? = some l → WritesLevel (tag.value? "since") l level

def superClass? : Entry → Option String
  | extend n => some n.dotted
  | _ => none

def interface? : Entry → Option String
  | implement n => some n.dotted
  | _ => none

def overload? (m : String) : Entry → Option ApiMethod
  | method name _ params result since =>
    if name = m then some ⟨params.length, since, resultName? result⟩ else none
  | _ => none

def field? (f : String) : Entry → Option ApiField
  | field name since => if name = f then some { since } else none
  | _ => none

end Entry

namespace ApiClass

def addEntry (c : ApiClass) : Entry → ApiClass
  | .extend n => { c with superClass := some n.dotted }
  | .implement n => if c.interfaces.contains n.dotted then c else c.addInterface n.dotted
  | .method name _ params result since => c.addMethod name ⟨params.length, since, resultName? result⟩
  | .field name since => c.addField name { since }

theorem header_addEntry (c : ApiClass) (e : Entry) :
    (c.addEntry e).name = c.name ∧ (c.addEntry e).since = c.since := by
  cases e with
  | implement n =>
    rw [addEntry]
    split <;> exact ⟨rfl, rfl⟩
  | _ => exact ⟨rfl, rfl⟩

theorem header_addEntries (entries : List Entry) (c : ApiClass) :
    (entries.foldl addEntry c).name = c.name ∧ (entries.foldl addEntry c).since = c.since := by
  induction entries generalizing c with
  | nil => exact ⟨rfl, rfl⟩
  | cons e entries ih =>
    rw [List.foldl_cons, (ih _).1, (ih _).2]
    exact c.header_addEntry e

theorem addEntry_implement (c : ApiClass) (n : ClassName) :
    (c.addEntry (.implement n)).superClass = c.superClass ∧
      (c.addEntry (.implement n)).methods = c.methods ∧
        (c.addEntry (.implement n)).fields = c.fields := by
  rw [addEntry]
  split <;> exact ⟨rfl, rfl, rfl⟩

theorem readTag_eq_addEntry {c : ApiClass} {e : Entry} {tag : Tag} (h : e.WrittenAs tag c.since) :
    c.readTag tag = c.addEntry e := by
  have hread : c.readTag tag = c.addElement tag (String.ofList e.text) (sinceOf? tag) := by
    rw [readTag, h.name, h.kept]
  rw [hread]
  cases e with
  | extend n =>
    have htag : tag.name = "extends" := h.tagName
    simp only [addElement, htag, Entry.text, n.dottedName_internal, addEntry]
  | implement n =>
    have htag : tag.name = "implements" := h.tagName
    simp only [addElement, htag, Entry.text, n.dottedName_internal, addEntry]
  | method name plain params result since =>
    have htag : tag.name = "method" := h.tagName
    have hsince : (sinceOf? tag).getD c.since = since := (h.since since rfl).read
    have hcut : Text.cutFirst? (fun x => decide (x = '('))
        (name.toList ++ '(' :: (params.flatMap FieldType.text ++ ')' :: resultText result)) =
          some (name.toList, params.flatMap FieldType.text ++ ')' :: resultText result) :=
      Text.cutFirst?_append_cons (by decide) _ fun d hd => decide_eq_false fun heq => plain (heq ▸ hd)
    simp only [addElement, htag, Entry.text, String.toList_ofList, hcut, descriptor_text,
      String.ofList_toList, hsince, addEntry]
  | field name since =>
    have htag : tag.name = "field" := h.tagName
    have hsince : (sinceOf? tag).getD c.since = since := (h.since since rfl).read
    simp only [addElement, htag, Entry.text, String.ofList_toList, hsince, addEntry]

theorem superClass_addEntries (entries : List Entry) (c : ApiClass) :
    (entries.foldl addEntry c).superClass =
      (entries.filterMap Entry.superClass?).getLast?.or c.superClass := by
  induction entries generalizing c with
  | nil => rfl
  | cons e entries ih =>
    rw [List.foldl_cons, ih]
    cases e with
    | extend n => simp [addEntry, Entry.superClass?, List.getLast?_cons]
    | implement n =>
      rw [(c.addEntry_implement n).1]
      rfl
    | method name plain params result since => rfl
    | field name since => rfl

theorem interfaces_addEntries {entries : List Entry} {c : ApiClass}
    (h : (c.interfaces ++ entries.filterMap Entry.interface?).Nodup) :
    (entries.foldl addEntry c).interfaces = c.interfaces ++ entries.filterMap Entry.interface? := by
  induction entries generalizing c with
  | nil => simp
  | cons e entries ih =>
    rw [List.foldl_cons]
    cases e with
    | implement n =>
      have hlist : (Entry.implement n :: entries).filterMap Entry.interface? =
        n.dotted :: entries.filterMap Entry.interface? := rfl
      rw [hlist, List.append_cons] at h
      have hnew : c.interfaces.contains n.dotted = false := by
        have hnodup := (List.nodup_append.mp h).1
        have hne := (List.nodup_append.mp hnodup).2.2
        simpa using fun hmem => hne n.dotted hmem n.dotted List.mem_cons_self rfl
      have hadd : c.addEntry (.implement n) = c.addInterface n.dotted := by
        rw [addEntry, hnew]
        rfl
      rw [hadd, ih h, hlist, List.append_cons]
      rfl
    | extend n => exact ih h
    | method name plain params result since => exact ih h
    | field name since => exact ih h

/-- The overloads of a name are added in their order. -/
theorem methods_addEntries (entries : List Entry) (c : ApiClass) (m : String) :
    (entries.foldl addEntry c).methods.get? m =
      if entries.filterMap (Entry.overload? m) = [] then c.methods.get? m
      else some ((c.methods.get? m).getD [] ++ entries.filterMap (Entry.overload? m)) := by
  induction entries generalizing c with
  | nil => rfl
  | cons e entries ih =>
    rw [List.foldl_cons, ih]
    cases e with
    | extend n => rfl
    | implement n =>
      rw [(c.addEntry_implement n).2.1]
      rfl
    | field name since => rfl
    | method name plain params result since =>
      by_cases hm : name = m
      · subst hm
        by_cases hnil : entries.filterMap (Entry.overload? name) = []
        · simp [addEntry, addMethod, Entry.overload?, hnil]
        · simp [addEntry, addMethod, Entry.overload?, hnil]
      · simp [addEntry, addMethod, Entry.overload?, hm, Ne.symm hm]

theorem fields_addEntries (entries : List Entry) (c : ApiClass) (f : String) :
    (entries.foldl addEntry c).fields.get? f =
      (entries.filterMap (Entry.field? f)).getLast?.or (c.fields.get? f) := by
  induction entries generalizing c with
  | nil => rfl
  | cons e entries ih =>
    rw [List.foldl_cons, ih]
    cases e with
    | extend n => rfl
    | implement n =>
      rw [(c.addEntry_implement n).2.2]
      rfl
    | method name plain params result since => rfl
    | field name since =>
      by_cases hf : name = f
      · subst hf
        simp [addEntry, addField, Entry.field?, List.getLast?_cons]
      · simp [addEntry, addField, Entry.field?, hf, Ne.symm hf]

/-- The entries say all that a class has, and each thing once. -/
structure DescribedBy (c : ApiClass) (entries : List Entry) : Prop where
  superClass : entries.filterMap Entry.superClass? = c.superClass.toList
  interfaces : entries.filterMap Entry.interface? = c.interfaces
  methods : ∀ m, entries.filterMap (Entry.overload? m) = (c.methods.get? m).getD []
  fields : ∀ f, entries.filterMap (Entry.field? f) = (c.fields.get? f).toList

/-- Each method name of the class has an overload. -/
def Overloaded (c : ApiClass) : Prop := ∀ m, c.methods.get? m ≠ some []

/-- The same class; the tables of members have the same entries. -/
structure Agrees (found c : ApiClass) : Prop where
  name : found.name = c.name
  since : found.since = c.since
  superClass : found.superClass = c.superClass
  interfaces : found.interfaces = c.interfaces
  methods : ∀ m, found.methods.get? m = c.methods.get? m
  fields : ∀ f, found.fields.get? f = c.fields.get? f

theorem DescribedBy.agrees {c : ApiClass} {entries : List Entry} (h : c.DescribedBy entries)
    (hnodup : c.interfaces.Nodup) (hoverloads : c.Overloaded) :
    (entries.foldl addEntry { name := c.name, since := c.since }).Agrees c := by
  have hinterfaces : ([] ++ entries.filterMap Entry.interface?).Nodup := by
    rw [h.interfaces]
    exact hnodup
  refine ⟨(header_addEntries entries _).1, (header_addEntries entries _).2, ?_, ?_, fun m => ?_, fun f => ?_⟩
  · rw [superClass_addEntries, h.superClass]
    cases c.superClass <;> rfl
  · exact (interfaces_addEntries hinterfaces).trans h.interfaces
  · rw [methods_addEntries, h.methods m]
    cases hm : c.methods.get? m with
    | none => rfl
    | some overloads =>
      have hne : overloads ≠ [] := fun hnil => hoverloads m (hnil ▸ hm)
      simp [hne]
  · rw [fields_addEntries, h.fields f]
    cases c.fields.get? f <;> rfl

end ApiClass

def ClassName.ofDotted? (name : String) : Option ClassName :=
  if h : isPlain name then some ⟨name, h⟩ else none

theorem ClassName.ofDotted?_of_isPlain {name : String} (h : isPlain name = true) :
    ofDotted? name = some ⟨name, h⟩ := dif_pos h

/-- An overload, written with integers for its parameters. -/
def Entry.ofOverload? (name : String) (m : ApiMethod) : Option Entry :=
  if h : '(' ∉ name.toList then
    some (.method name h (List.replicate m.arity (.primitive .int))
      ((m.returns.bind ClassName.ofDotted?).map .object) m.since)
  else none

namespace ApiClass

/-- What can be written of a class: its names have none of the signs of class files, its
levels are those that an input can name, and its fields are known by their level only. -/
structure Writable (c : ApiClass) : Prop where
  name : isPlain c.name = true
  since : c.since ≤ Level.greatest
  superClass : ∀ s ∈ c.superClass, isPlain s = true
  interfaces : ∀ i ∈ c.interfaces, isPlain i = true
  nodup : c.interfaces.Nodup
  methods : ∀ m, ∀ overloads ∈ c.methods.get? m, '(' ∉ m.toList ∧
    ∀ o ∈ overloads, o.since ≤ Level.greatest ∧ ∀ r ∈ o.returns, isPlain r = true
  fields : ∀ f, ∀ v ∈ c.fields.get? f, v.since ≤ Level.greatest ∧ v = { since := v.since }

/-- The entries of a class: its supertypes, its overloads and its fields. -/
def entries (c : ApiClass) : List Entry :=
  c.superClass.toList.filterMap (fun s => (ClassName.ofDotted? s).map .extend) ++
    c.interfaces.filterMap (fun i => (ClassName.ofDotted? i).map .implement) ++
    c.methods.keys.dedup.flatMap (fun m =>
      ((c.methods.get? m).getD []).filterMap (Entry.ofOverload? m)) ++
    c.fields.keys.dedup.flatMap (fun f => (c.fields.get? f).toList.map fun v => .field f v.since)

theorem overload?_ofOverload? {name : String} (hname : '(' ∉ name.toList) {o : ApiMethod}
    (hreturns : ∀ r ∈ o.returns, isPlain r = true) :
    (Entry.ofOverload? name o).bind (Entry.overload? name) = some o := by
  obtain ⟨arity, since, returns⟩ := o
  cases returns with
  | none => simp [Entry.ofOverload?, hname, Entry.overload?, resultName?]
  | some r =>
    have hr := ClassName.ofDotted?_of_isPlain (hreturns r rfl)
    simp [Entry.ofOverload?, hname, Entry.overload?, resultName?, hr]

/-- What the entries of a class say, part by part. -/
theorem filterMap_entries {β : Type} (q : Entry → Option β) (c : ApiClass) : c.entries.filterMap q =
    c.superClass.toList.filterMap (fun s => (ClassName.ofDotted? s).bind fun n => q (.extend n)) ++
      c.interfaces.filterMap (fun i => (ClassName.ofDotted? i).bind fun n => q (.implement n)) ++
      c.methods.keys.dedup.flatMap (fun m =>
        ((c.methods.get? m).getD []).filterMap fun o => (Entry.ofOverload? m o).bind q) ++
      c.fields.keys.dedup.flatMap (fun f =>
        (c.fields.get? f).toList.filterMap fun v => q (.field f v.since)) := by
  simp only [entries, List.filterMap_append, List.filterMap_filterMap, List.filterMap_flatMap,
    List.filterMap_map, Option.bind_map, Function.comp_def]

theorem filterMap_dotted {names : List String} (h : ∀ s ∈ names, isPlain s = true) :
    names.filterMap (fun s => (ClassName.ofDotted? s).bind fun n => some n.dotted) = names := by
  have hsome : ∀ s ∈ names, ((ClassName.ofDotted? s).bind fun n => some n.dotted) = some s :=
    fun s hs => by rw [ClassName.ofDotted?_of_isPlain (h s hs), Option.bind_some]
  exact (List.filterMap_congr hsome).trans List.filterMap_some

/-- An overload says nothing but its method. -/
theorem filterMap_ofOverload?_eq_nil {β : Type} {q : Entry → Option β} {m : String}
    (hq : ∀ plain params result since, q (.method m plain params result since) = none)
    (overloads : List ApiMethod) :
    overloads.filterMap (fun o => (Entry.ofOverload? m o).bind q) = [] := by
  refine List.filterMap_eq_nil_iff.mpr fun o _ => ?_
  by_cases hm : '(' ∉ m.toList
  · rw [Entry.ofOverload?, dif_pos hm, Option.bind_some, hq]
  · rw [Entry.ofOverload?, dif_neg hm, Option.bind_none]

/-- The entries of the overloads say the overloads of each name. -/
theorem Writable.overloads_eq {c : ApiClass} (h : c.Writable) (m : String) :
    c.methods.keys.dedup.flatMap (fun k => ((c.methods.get? k).getD []).filterMap
      fun o => (Entry.ofOverload? k o).bind (Entry.overload? m)) = (c.methods.get? m).getD [] := by
  refine (c.methods.flatMap_keys_eq (k := m) (List.nodup_dedup _) (fun _ => List.mem_dedup.mpr)
    (fun k hk => ?_) fun hm => by simp [hm]).trans ?_
  · exact filterMap_ofOverload?_eq_nil (fun _ _ _ _ => if_neg hk) _
  · cases hm : c.methods.get? m with
    | none => rfl
    | some overloads =>
      obtain ⟨hname, hoverloads⟩ := h.methods m overloads hm
      exact (List.filterMap_congr fun o ho =>
        overload?_ofOverload? hname (hoverloads o ho).2).trans List.filterMap_some

theorem Writable.fields_eq {c : ApiClass} (h : c.Writable) (f : String) :
    c.fields.keys.dedup.flatMap (fun k => (c.fields.get? k).toList.filterMap
      fun v => Entry.field? f (.field k v.since)) = (c.fields.get? f).toList := by
  refine (c.fields.flatMap_keys_eq (k := f) (List.nodup_dedup _) (fun _ => List.mem_dedup.mpr)
    (fun k hk => ?_) fun hf => by simp [hf]).trans ?_
  · exact List.filterMap_eq_nil_iff.mpr fun _ _ => if_neg hk
  · cases hf : c.fields.get? f with
    | none => rfl
    | some v =>
      have hv := (h.fields f v hf).2
      simp [Entry.field?, ← hv]

theorem Writable.describedBy {c : ApiClass} (h : c.Writable) : c.DescribedBy c.entries := by
  have hsuper : ∀ s ∈ c.superClass.toList, isPlain s = true := fun s hs =>
    h.superClass s (Option.mem_toList.mp hs)
  refine ⟨?_, ?_, fun m => ?_, fun f => ?_⟩
  · have hmethods : ∀ m overloads, List.filterMap
        (fun o => (Entry.ofOverload? m o).bind Entry.superClass?) overloads = [] :=
      fun m => filterMap_ofOverload?_eq_nil fun _ _ _ _ => rfl
    simp [filterMap_entries, Entry.superClass?, hmethods, filterMap_dotted hsuper]
  · have hmethods : ∀ m overloads, List.filterMap
        (fun o => (Entry.ofOverload? m o).bind Entry.interface?) overloads = [] :=
      fun m => filterMap_ofOverload?_eq_nil fun _ _ _ _ => rfl
    simp [filterMap_entries, Entry.interface?, hmethods, filterMap_dotted h.interfaces]
  · rw [filterMap_entries, h.overloads_eq]
    simp [Entry.overload?]
  · have hmethods : ∀ m overloads, List.filterMap
        (fun o => (Entry.ofOverload? m o).bind (Entry.field? f)) overloads = [] :=
      fun m => filterMap_ofOverload?_eq_nil fun _ _ _ _ => rfl
    rw [filterMap_entries, h.fields_eq]
    simp [Entry.field?, hmethods]

end ApiClass

/-- The events in a class that say nothing: texts, ends of elements, and elements that are
marked as removed. -/
inductive Idle : Event → Prop where
  | text (raw : List Char) : Idle (.text raw)
  | other : Idle .other
  | close (name : String) : Idle (.close name)
  | start {tag : Tag} (h : (tag.value? "removed").isSome) : Idle (.start tag)
  | empty {tag : Tag} (h : (tag.value? "removed").isSome) : Idle (.empty tag)

/-- The events in a class of the level that say these entries, each with an element of its
own, and between them any that say nothing. -/
inductive Content (level : Level) : List Event → List Entry → Prop where
  | nil : Content level [] []
  | idle {e : Event} {events : List Event} {entries : List Entry} (he : Idle e)
      (h : Content level events entries) : Content level (e :: events) entries
  | start {tag : Tag} {e : Entry} {events : List Event} {entries : List Entry}
      (he : e.WrittenAs tag level) (h : Content level events entries) :
      Content level (.start tag :: events) (e :: entries)
  | empty {tag : Tag} {e : Entry} {events : List Event} {entries : List Entry}
      (he : e.WrittenAs tag level) (h : Content level events entries) :
      Content level (.empty tag :: events) (e :: entries)

theorem Idle.readEvent_eq {e : Event} (h : Idle e) (c : ApiClass) : c.readEvent e = c := by
  have hremoved : ∀ {tag : Tag}, (tag.value? "removed").isSome → c.readTag tag = c := by
    intro tag htag
    obtain ⟨level, hlevel⟩ := Option.isSome_iff_exists.mp htag
    rw [ApiClass.readTag, hlevel]
    cases tag.value? "name" <;> rfl
  cases h with
  | text raw => rfl
  | other => rfl
  | close name => rfl
  | start htag => exact hremoved htag
  | empty htag => exact hremoved htag

theorem Content.foldl_readEvent {level : Level} {events : List Event} {entries : List Entry}
    (h : Content level events entries) {c : ApiClass} (hc : c.since = level) :
    events.foldl ApiClass.readEvent c = entries.foldl ApiClass.addEntry c := by
  induction h generalizing c with
  | nil => rfl
  | idle he h ih => rw [List.foldl_cons, he.readEvent_eq, ih hc]
  | @start tag e events entries he h ih | @empty tag e events entries he h ih =>
    have hread : c.readTag tag = c.addEntry e := ApiClass.readTag_eq_addEntry (hc ▸ he)
    rw [List.foldl_cons, List.foldl_cons, ApiClass.readEvent, hread]
    exact ih ((c.header_addEntry e).2.trans hc)

namespace Database

/-- The events of an element say a class: its tag gives the name and the level, which may
be left out if it is the first, and its content gives the rest. -/
inductive WritesClass (c : ApiClass) : List Event → Prop where
  | intro {tag : Tag} {n : ClassName} {content element : List Event} {entries : List Entry}
      (htag : tag.name = "class") (hname : tag.value? "name" = some (String.ofList n.internal))
      (hdotted : n.dotted = c.name) (hsince : WritesLevel (tag.value? "since") c.since 1)
      (helement : ClassElement tag content element) (hcontent : Content c.since content entries)
      (hentries : c.DescribedBy entries) : WritesClass c element

/-- The events say these classes, one after the other. -/
inductive Writes : List ApiClass → List Event → Prop where
  | nil {outside : List Event} (h : ∀ e ∈ outside, e.bounds "class" = false) : Writes [] outside
  | cons {outside element events : List Event} {c : ApiClass} {classes : List ApiClass}
      (houtside : ∀ e ∈ outside, e.bounds "class" = false) (hc : WritesClass c element)
      (h : Writes classes events) : Writes (c :: classes) (outside ++ element ++ events)

/-- The events of a written class are read as the class. -/
theorem WritesClass.ofEvents_eq {c : ApiClass} {element : List Event} (h : WritesClass c element)
    (hnodup : c.interfaces.Nodup) (hoverloads : c.Overloaded) (before after : List Event) :
    ∃ found : ApiClass, found.Agrees c ∧
      ofEvents (before ++ element ++ after) = ofEvents before ++ found :: ofEvents after := by
  obtain @⟨tag, n, content, _, entries, htag, hname, hdotted, hsince, helement, hcontent, hentries⟩ := h
  have hclass : ApiClass.ofTag tag (String.ofList n.internal) = { name := c.name, since := c.since } := by
    rw [ApiClass.ofTag, n.dottedName_internal, hdotted, sinceOf?, hsince.read]
  have hread := hcontent.foldl_readEvent (c := { name := c.name, since := c.since }) rfl
  refine ⟨_, hentries.agrees hnodup hoverloads, ?_⟩
  rw [ofEvents_element htag hname helement, hclass, hread]

theorem Writes.forall₂_ofEvents {classes : List ApiClass} {events : List Event}
    (h : Writes classes events) (hnodup : ∀ c ∈ classes, c.interfaces.Nodup)
    (hoverloads : ∀ c ∈ classes, c.Overloaded) :
    List.Forall₂ ApiClass.Agrees (ofEvents events) classes := by
  induction h with
  | nil houtside => rw [ofEvents_outside houtside]; exact .nil
  | cons houtside hc h ih =>
    obtain ⟨hfirst, hrest⟩ := List.forall_mem_cons.mp hnodup
    obtain ⟨hfirst', hrest'⟩ := List.forall_mem_cons.mp hoverloads
    obtain ⟨found, hagrees, hevents⟩ := hc.ofEvents_eq hfirst hfirst' _ _
    rw [hevents, ofEvents_outside houtside, List.nil_append]
    exact .cons hagrees (ih hrest hrest')

/-- Classes with plain names and distinct interfaces, of whose method names each has an
overload, can be said by entries, and whatever text says them, with any types for the
parameters of each overload, with levels written or implied, and with removed members
between, is read as the same classes in their order. -/
theorem read_written {classes : List ApiClass} (hclasses : ∀ c ∈ classes, c.Writable)
    (hoverloads : ∀ c ∈ classes, c.Overloaded) :
    (∀ c ∈ classes, c.DescribedBy c.entries) ∧
      ∀ text, (Markup.read text.toList).faulty = false → Writes classes (eventsOf text) →
        ∃ found, read text = .ok found ∧ List.Forall₂ ApiClass.Agrees found classes := by
  refine ⟨fun c hc => (hclasses c hc).describedBy, fun text hclean hwrites => ?_⟩
  have hnodup : ∀ c ∈ classes, c.interfaces.Nodup := fun c hc => (hclasses c hc).nodup
  exact ⟨_, read_eq_ok.mpr ⟨hclean, rfl⟩, hwrites.forall₂_ofEvents hnodup hoverloads⟩

/-- A database with arrays and classes in a signature, a removed method, and levels that
are written and left out. -/
def sampleText : String :=
  "<api><class name=\"p/A\" since=\"3\"><extends name=\"p/B\"/><method name=\"x()V\" removed=\"9\"/>" ++
    "<method name=\"f(ILp/B;[[J)Lp/A;\" since=\"11\"/><field name=\"K\"></field></class>" ++
    "<class name=\"p/B\"/></api>"

def firstClass : ApiClass :=
  { name := "p.A", since := 3, superClass := some "p.B"
    methods := ⟨[("f", [⟨3, 11, some "p.A"⟩])]⟩, fields := ⟨[("K", { since := 3 })]⟩ }

def secondClass : ApiClass := { name := "p.B", since := 1 }

def firstName : ClassName := ⟨"p.A", by decide +kernel⟩

def secondName : ClassName := ⟨"p.B", by decide +kernel⟩

def firstEntries : List Entry :=
  [.extend secondName, .method "f" (by decide +kernel)
      [.primitive .int, .object secondName, .array (.array (.primitive .long))] (some (.object firstName)) 11,
    .field "K" 3]

theorem describedBy_firstEntries : firstClass.DescribedBy firstEntries where
  superClass := rfl
  interfaces := rfl
  methods := by
    intro m
    by_cases hm : "f" = m
    · subst hm
      decide +kernel
    · simp [firstEntries, firstClass, Entry.overload?, Table.get?, Table.lookup, hm, Ne.symm hm]
  fields := by
    intro f
    by_cases hf : "K" = f
    · subst hf
      decide +kernel
    · simp [firstEntries, firstClass, Entry.field?, Table.get?, Table.lookup, hf, Ne.symm hf]

def firstTag : Tag := ⟨"class", " name=\"p/A\" since=\"3\"".toList⟩

def secondTag : Tag := ⟨"class", " name=\"p/B\"".toList⟩

def firstContent : List Event :=
  [.empty ⟨"extends", " name=\"p/B\"".toList⟩,
    .empty ⟨"method", " name=\"x()V\" removed=\"9\"".toList⟩,
    .empty ⟨"method", " name=\"f(ILp/B;[[J)Lp/A;\" since=\"11\"".toList⟩,
    .start ⟨"field", " name=\"K\"".toList⟩, .close "field"]

theorem content_firstEntries : Content 3 firstContent firstEntries := by
  refine .empty ⟨rfl, by decide +kernel, by decide +kernel, fun l hl => nomatch hl⟩ ?_
  refine .idle (.empty (by decide +kernel)) ?_
  refine .empty ⟨rfl, by decide +kernel, by decide +kernel, fun l hl => ?_⟩ ?_
  · cases hl
    exact .inl ⟨by decide +kernel, by decide⟩
  refine .start ⟨rfl, by decide +kernel, by decide +kernel, fun l hl => ?_⟩ (.idle (.close _) .nil)
  cases hl
  exact .inr ⟨by decide +kernel, rfl⟩

theorem writable_firstClass : firstClass.Writable where
  name := by decide +kernel
  since := by decide
  superClass := by decide +kernel
  interfaces := by decide
  nodup := by decide
  methods := by
    intro m overloads hm
    have hlookup : Table.lookup m [("f", [(⟨3, 11, some "p.A"⟩ : ApiMethod)])] = some overloads := hm
    have hmethod : m = "f" ∧ [(⟨3, 11, some "p.A"⟩ : ApiMethod)] = overloads := by
      simpa [Table.lookup] using hlookup
    obtain ⟨rfl, rfl⟩ := hmethod
    decide +kernel
  fields := by
    intro f v hf
    have hlookup : Table.lookup f [("K", ({ since := 3 } : ApiField))] = some v := hf
    have hfield : f = "K" ∧ ({ since := 3 } : ApiField) = v := by
      simpa [Table.lookup] using hlookup
    obtain ⟨rfl, rfl⟩ := hfield
    decide

theorem writable_secondClass : secondClass.Writable where
  name := by decide +kernel
  since := by decide
  superClass := by decide
  interfaces := by decide
  nodup := by decide
  methods := fun _ _ h => nomatch h
  fields := fun _ _ h => nomatch h

theorem overloaded_firstClass : firstClass.Overloaded := by
  intro m hm
  have hlookup : Table.lookup m [("f", [(⟨3, 11, some "p.A"⟩ : ApiMethod)])] = some [] := hm
  simp [Table.lookup] at hlookup

theorem read_written_sample :
    ∃ found, read sampleText = .ok found ∧ List.Forall₂ ApiClass.Agrees found [firstClass, secondClass] := by
  have hclasses : ∀ c ∈ [firstClass, secondClass], c.Writable :=
    List.forall_mem_cons.mpr ⟨writable_firstClass, List.forall_mem_singleton.mpr writable_secondClass⟩
  have hfirstElement : ClassElement firstTag firstContent (.start firstTag :: (firstContent ++ [.close "class"])) :=
    .full (by decide +kernel)
  have hfirst : WritesClass firstClass _ := .intro rfl (n := firstName) (by decide +kernel) rfl
    (.inl ⟨by decide +kernel, by decide⟩) hfirstElement content_firstEntries describedBy_firstEntries
  have hsecondElement : ClassElement secondTag [] [.empty secondTag] := .closed
  have hsecond : WritesClass secondClass _ := .intro rfl (n := secondName) (by decide +kernel) rfl
    (.inr ⟨by decide +kernel, rfl⟩) hsecondElement .nil ⟨rfl, rfl, fun _ => rfl, fun _ => rfl⟩
  -- the characters of the literals are taken as they are: decoding their bytes is slow
  have hread : ∃ cs, sampleText.toList = cs ∧ (Markup.read cs).faulty = false ∧
      (Markup.read cs).events.map (·.event) =
        [.start ⟨"api", []⟩] ++ (.start firstTag :: (firstContent ++ [.close "class"])) ++
          ([] ++ [.empty secondTag] ++ [.close "api"]) :=
    ⟨_, Text.toList_append_eq (Text.toList_append_eq String.toList_ofList String.toList_ofList)
      String.toList_ofList, by decide +kernel⟩
  obtain ⟨_, rfl, hclean, hevents⟩ := hread
  have hoverloads : ∀ c ∈ [firstClass, secondClass], c.Overloaded :=
    List.forall_mem_cons.mpr ⟨overloaded_firstClass, List.forall_mem_singleton.mpr nofun⟩
  refine (read_written hclasses hoverloads).2 sampleText hclean ?_
  rw [eventsOf, hevents]
  exact .cons (by decide +kernel) hfirst (.cons (by decide) hsecond (.nil (by decide +kernel)))

/-- A class with a method name that has no overload. -/
def barrenClass : ApiClass := { secondClass with methods := ⟨[("m", [])]⟩ }

theorem writable_barrenClass : barrenClass.Writable where
  name := by decide +kernel
  since := by decide
  superClass := by decide
  interfaces := by decide
  nodup := by decide
  methods := by
    intro m overloads hm
    have hlookup : Table.lookup m [("m", ([] : List ApiMethod))] = some overloads := hm
    have hmethod : m = "m" ∧ [] = overloads := by simpa [Table.lookup] using hlookup
    obtain ⟨rfl, rfl⟩ := hmethod
    decide +kernel
  fields := fun _ _ h => nomatch h

/-- The text says all that can be said of the class, and is read as a class without the name. -/
theorem barrenClass_not_read :
    barrenClass.Writable ∧ (Markup.read "<class name=\"p/B\"/>".toList).faulty = false ∧
      Writes [barrenClass] (eventsOf "<class name=\"p/B\"/>") ∧
        ∀ found, read "<class name=\"p/B\"/>" = .ok found →
          ¬ List.Forall₂ ApiClass.Agrees found [barrenClass] := by
  have hread : ∃ cs, "<class name=\"p/B\"/>".toList = cs ∧ (Markup.read cs).faulty = false ∧
      (Markup.read cs).events.map (·.event) = [] ++ [.empty secondTag] ++ [] :=
    ⟨_, String.toList_ofList, by decide +kernel⟩
  obtain ⟨_, rfl, hclean, hevents⟩ := hread
  have hmethods (m : String) : [] = (barrenClass.methods.get? m).getD [] := by
    change [] = (Table.lookup m [("m", [])]).getD []
    by_cases hm : m = "m" <;> simp [Table.lookup, hm]
  have hclass : WritesClass barrenClass [.empty secondTag] := .intro rfl (n := secondName)
    (by decide +kernel) rfl (.inr ⟨by decide +kernel, rfl⟩) .closed .nil
    ⟨rfl, rfl, hmethods, fun _ => rfl⟩
  refine ⟨writable_barrenClass, hclean, ?_, fun found hfound hagrees => ?_⟩
  · rw [eventsOf, hevents]
    exact .cons (List.forall_mem_nil _) hclass (.nil (List.forall_mem_nil _))
  · have hlost : found.map (·.methods.get? "m") = [none] := by
      rw [(read_eq_ok.mp hfound).2, eventsOf, hevents]
      decide +kernel
    cases hagrees with
    | cons hfirst hrest =>
      have hkept : some [] = none := (hfirst.methods "m").symm.trans (List.cons.inj hlost).1
      cases hkept

end Database

end LevelGuard.Platform
