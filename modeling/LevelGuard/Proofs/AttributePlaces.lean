import LevelGuard.Data.Basic
import LevelGuard.Resource.Document

/-!
# Where attributes are found

A start tag is a name and attributes in a row; an attribute is a name, an equals sign and a
quoted value, with blanks in front of it and perhaps around the equals sign. Its place is the
stretch from its name to the closing quote.

The search for the place of an attribute does not take the tag apart. It looks for the first
hit: the name after a blank and before an equals sign. Names, blanks and quotes give no hit
before the attribute itself, whatever the order of the attributes, so the search is right
unless the value of an earlier attribute holds one. Such a value is a decoy, and it always
draws the search away from the attribute.
-/
namespace LevelGuard

namespace Text

theorem byteLength_pos {cs : List Char} (h : cs ≠ []) : 0 < byteLength cs := by
  obtain ⟨c, cs, rfl⟩ := List.exists_cons_of_ne_nil h
  exact Nat.add_pos_left c.utf8Size_pos _

theorem dropBytes?_append (cs ds : List Char) :
    dropBytes? (byteLength cs) (cs ++ ds) = some ds := by
  induction cs with
  | nil => simp [byteLength, dropBytes?]
  | cons c cs ih =>
    obtain ⟨n, hn⟩ := Nat.exists_eq_add_one.mpr (byteLength_pos (List.cons_ne_nil c cs))
    have hsize : c.utf8Size + byteLength cs = n + 1 := hn
    rw [hn, List.cons_append, dropBytes?, if_pos (by omega), ← hsize, Nat.add_sub_cancel_left, ih]

theorem takeBytes?_append (cs ds : List Char) :
    takeBytes? (byteLength cs) (cs ++ ds) = some cs := by
  induction cs with
  | nil => simp [byteLength, takeBytes?]
  | cons c cs ih =>
    obtain ⟨n, hn⟩ := Nat.exists_eq_add_one.mpr (byteLength_pos (List.cons_ne_nil c cs))
    have hsize : c.utf8Size + byteLength cs = n + 1 := hn
    rw [hn, List.cons_append, takeBytes?, if_pos (by omega), ← hsize, Nat.add_sub_cancel_left, ih,
      Option.map_some]

theorem slice?_append (cs ds es : List Char) :
    slice? (byteLength cs) (byteLength cs + byteLength ds) (cs ++ (ds ++ es)) = some ds := by
  rw [slice?, if_pos (Nat.le_add_right _ _), dropBytes?_append, Option.bind_some,
    Nat.add_sub_cancel_left, takeBytes?_append]

end Text

namespace Resource

def isTagChar (c : Char) : Bool := !Text.isBlank c && c != '=' && c != '"' && c != '\''

/-- A name of a tag or of an attribute. -/
structure IsName (name : List Char) : Prop where
  ne_nil : name ≠ []
  chars : ∀ c ∈ name, isTagChar c = true

instance (name : List Char) : Decidable (IsName name) :=
  decidable_of_iff (name ≠ [] ∧ name.all isTagChar = true)
    ⟨fun h => ⟨h.1, List.all_eq_true.mp h.2⟩, fun h => ⟨h.1, List.all_eq_true.mpr h.2⟩⟩

structure WrittenAttribute where
  /-- The blanks in front of the name. -/
  lead : List Char
  name : List Char
  /-- The blanks on the two sides of the equals sign. -/
  before : List Char
  after : List Char
  quote : Char
  value : List Char
  lead_ne_nil : lead ≠ []
  lead_blank : Text.Blank lead
  isName : IsName name
  before_blank : Text.Blank before
  after_blank : Text.Blank after
  quote_mark : quote = '"' ∨ quote = '\''
  quote_notMem : quote ∉ value

namespace WrittenAttribute

/-- What stands between the name and the value. -/
def link (a : WrittenAttribute) : List Char := a.before ++ '=' :: (a.after ++ [a.quote])

/-- From the name to the closing quote. -/
def body (a : WrittenAttribute) : List Char := a.name ++ (a.link ++ (a.value ++ [a.quote]))

def text (a : WrittenAttribute) : List Char := a.lead ++ a.body

end WrittenAttribute

/-- A start tag, with whatever follows its last attribute. -/
structure StartTag where
  name : List Char
  attributes : List WrittenAttribute
  tail : List Char
  isName : IsName name
  distinct : (attributes.map (·.name)).Nodup

namespace StartTag

def text (T : StartTag) : List Char :=
  '<' :: (T.name ++ (T.attributes.flatMap (·.text) ++ T.tail))

/-- The text ahead of the name of the attribute `a` that the attributes `pre` precede. -/
def ahead (T : StartTag) (pre : List WrittenAttribute) (a : WrittenAttribute) : List Char :=
  '<' :: T.name ++ (pre.flatMap (·.text) ++ a.lead)

theorem text_eq {T : StartTag} {pre post : List WrittenAttribute} {a : WrittenAttribute}
    (h : T.attributes = pre ++ a :: post) :
    T.text = T.ahead pre a ++ (a.body ++ (post.flatMap (·.text) ++ T.tail)) := by
  simp [text, ahead, h, WrittenAttribute.text]

theorem name_ne_of_mem {T : StartTag} {pre post : List WrittenAttribute} {a b : WrittenAttribute}
    (h : T.attributes = pre ++ a :: post) (hb : b ∈ pre) : b.name ≠ a.name := by
  have hdistinct := T.distinct
  rw [h, List.map_append, List.nodup_append] at hdistinct
  exact hdistinct.2.2 _ (List.mem_map_of_mem hb) _ (by simp)

end StartTag

theorem isTagChar_of_isBlank {c : Char} (h : Text.isBlank c = true) : isTagChar c = false := by
  simp [isTagChar, h]

theorem IsName.notMem {name : List Char} (h : IsName name) {c : Char} (hc : isTagChar c = false) :
    c ∉ name := by
  intro hmem
  rw [h.chars c hmem] at hc
  exact Bool.false_ne_true hc.symm

namespace WrittenAttribute

theorem not_isTagChar_quote (a : WrittenAttribute) : isTagChar a.quote = false := by
  rcases a.quote_mark with h | h <;> rw [h] <;> decide

theorem not_isBlank_quote (a : WrittenAttribute) : Text.isBlank a.quote = false := by
  rcases a.quote_mark with h | h <;> rw [h] <;> decide

theorem quote_ne_equals (a : WrittenAttribute) : a.quote ≠ '=' := by
  rcases a.quote_mark with h | h <;> rw [h] <;> decide

theorem not_isTagChar_of_mem_link (a : WrittenAttribute) {c : Char}
    (hc : c ∈ a.link) : isTagChar c = false := by
  simp only [link, List.mem_append, List.mem_cons, List.not_mem_nil, or_false] at hc
  rcases hc with hc | rfl | hc | rfl
  · exact isTagChar_of_isBlank (a.before_blank c hc)
  · decide
  · exact isTagChar_of_isBlank (a.after_blank c hc)
  · exact a.not_isTagChar_quote

end WrittenAttribute

/-- An equals sign follows, perhaps after blanks. -/
def Assigned (rest : List Char) : Prop := ∃ after, Text.trimStart rest = '=' :: after

theorem Assigned.not_isTagChar_head {rest : List Char} (h : Assigned rest) :
    ∀ c ∈ rest.head?, isTagChar c = false := by
  obtain ⟨after, hafter⟩ := h
  intro c hc
  obtain ⟨rest, rfl⟩ := List.head?_eq_some_iff.mp hc
  by_cases hblank : Text.isBlank c = true
  · exact isTagChar_of_isBlank hblank
  · rw [Text.trimStart, List.dropWhile_cons_of_neg hblank] at hafter
    rw [(List.cons.inj hafter).1]
    decide

/-- Up to a character that is neither, the blanks and the equals sign are met. -/
theorem Assigned.of_append {d tail : List Char} {c : Char} (hblank : Text.isBlank c = false)
    (heq : c ≠ '=') (h : Assigned (d ++ c :: tail)) :
    ∃ w v, d = w ++ '=' :: v ∧ Text.Blank w := by
  obtain ⟨w, v, rfl, hw, hv⟩ := exists_run Text.isBlank d
  obtain ⟨after, hafter⟩ := h
  rw [Text.trimStart, List.append_assoc, dropWhile_append_eq hw] at hafter
  · cases v with
    | nil => exact absurd (List.cons.inj hafter).1 heq
    | cons e v => exact ⟨w, v, by rw [(List.cons.inj hafter).1], hw⟩
  · cases v with
    | nil => simpa using hblank
    | cons e v => simpa using hv

theorem assigned_of_blank {w v : List Char} (hw : Text.Blank w) : Assigned (w ++ '=' :: v) :=
  ⟨v, dropWhile_append_eq hw (by simp; decide)⟩

theorem rangeAt?_of_not_assigned {rest : List Char} (h : ¬Assigned rest) (start offset : Nat) :
    rangeAt? start offset rest = none := by
  unfold rangeAt?
  dsimp only
  split
  · next after htrim => exact absurd ⟨after, htrim⟩ h
  · rfl

theorem Assigned.exists_rangeAt? {rest : List Char} (h : Assigned rest) (start offset : Nat) :
    ∃ found, rangeAt? start offset rest = some found := by
  obtain ⟨after, hafter⟩ := h
  simp only [rangeAt?, hafter]
  split
  · exact ⟨_, rfl⟩
  · split
    · exact ⟨_, rfl⟩
    · split <;> exact ⟨_, rfl⟩

theorem start_of_rangeAt? {start offset first last : Nat} {rest : List Char}
    (h : rangeAt? start offset rest = some (.range first last)) : first = start := by
  unfold rangeAt? at h
  dsimp only at h
  split at h
  · split at h
    · simp at h
    · split at h
      · simp at h
      · split at h
        · exact ((Found.range.inj (Option.some.inj h)).1).symm
        · simp at h
  · simp at h

theorem findText?_singleton {c : Char} {cs : List Char} (hc : c ∉ cs) (offset : Nat)
    (tail : List Char) :
    findText? [c] offset (cs ++ c :: tail) = some (offset + Text.byteLength cs) := by
  induction cs generalizing offset with
  | nil => simp [findText?, Text.stripStart?, Text.byteLength]
  | cons d cs ih =>
    obtain ⟨hne, hcs⟩ := List.ne_and_not_mem_of_not_mem_cons hc
    simp [findText?, Text.stripStart?, hne, ih hcs, Text.byteLength, Nat.add_assoc]

/-- Behind its name, an attribute is found up to its closing quote. -/
theorem rangeAt?_attribute (a : WrittenAttribute) (start : Nat) (tail : List Char) :
    rangeAt? start (start + Text.byteLength a.name) (a.link ++ (a.value ++ a.quote :: tail)) =
      some (.range start (start + Text.byteLength a.body)) := by
  have hlink : Text.trimStart (a.link ++ (a.value ++ a.quote :: tail)) =
      '=' :: (a.after ++ a.quote :: (a.value ++ a.quote :: tail)) := by
    rw [WrittenAttribute.link, Text.trimStart, List.append_assoc,
      dropWhile_append_eq a.before_blank (by simp; decide)]
    simp
  have hvalue : Text.trimStart (a.after ++ a.quote :: (a.value ++ a.quote :: tail)) =
      a.quote :: (a.value ++ a.quote :: tail) :=
    dropWhile_append_eq a.after_blank (by simpa using a.not_isBlank_quote)
  have hsize : a.quote.utf8Size = 1 := by
    rcases a.quote_mark with h | h <;> rw [h] <;> decide
  have hequals : ('=' : Char).utf8Size = 1 := by decide
  simp only [rangeAt?, hlink, hvalue, hsize, Nat.lt_irrefl, if_false,
    findText?_singleton a.quote_notMem, Option.some.injEq, Found.range.injEq, true_and]
  simp only [WrittenAttribute.body, WrittenAttribute.link, Text.byteLength_append,
    Text.byteLength, hsize, hequals]
  omega

/-- The last character read, after `previous`. -/
def lastSeen (previous : Option Char) : List Char → Option Char
  | [] => previous
  | c :: cs => lastSeen (some c) cs

theorem lastSeen_append (previous : Option Char) (cs ds : List Char) :
    lastSeen previous (cs ++ ds) = lastSeen (lastSeen previous cs) ds := by
  induction cs generalizing previous with
  | nil => rfl
  | cons c cs ih => exact ih (some c)

theorem lastSeen_concat (previous : Option Char) (cs : List Char) (c : Char) :
    lastSeen previous (cs ++ [c]) = some c := lastSeen_append previous cs [c]

/-- The text begins with the name, a blank stands before it, and an equals sign follows in
`rest`. -/
structure Hit (name : List Char) (previous : Option Char) (cs rest : List Char) : Prop where
  eq : cs = name ++ rest
  blank : previous.any Text.isBlank = true
  assigned : Assigned rest

/-- Before a hit, either nothing was read or a blank was read last. -/
theorem Hit.blank_before {name u cs rest : List Char} {previous : Option Char}
    (h : Hit name (lastSeen previous u) cs rest) :
    u = [] ∧ previous.any Text.isBlank = true ∨ ∃ v c, u = v ++ [c] ∧ Text.isBlank c = true := by
  have hblank := h.blank
  rcases List.eq_nil_or_concat u with rfl | ⟨v, c, rfl⟩
  · exact .inl ⟨rfl, hblank⟩
  · rw [List.concat_eq_append, lastSeen_concat] at hblank
    exact .inr ⟨v, c, List.concat_eq_append, hblank⟩

/-- No hit begins inside `seg`, which `previous` precedes and `tail` follows. -/
def Clear (name : List Char) (previous : Option Char) (seg tail : List Char) : Prop :=
  ∀ u v rest, seg = u ++ v → v ≠ [] → ¬Hit name (lastSeen previous u) (v ++ tail) rest

section Search

variable {name u tail rest : List Char} {previous : Option Char}

theorem rangeFrom_of_hit (hname : IsName name) (hhit : Hit name previous tail rest)
    (offset : Nat) :
    rangeAt? offset (offset + Text.byteLength name) rest =
      some (rangeFrom name 0 previous offset tail) := by
  obtain ⟨found, hfound⟩ := hhit.assigned.exists_rangeAt? offset (offset + Text.byteLength name)
  obtain ⟨c, cs, rfl⟩ : ∃ c cs, tail = c :: cs :=
    List.exists_cons_of_ne_nil (by simp [hhit.eq, hname.ne_nil])
  have hstrip : Text.stripStart? name (c :: cs) = some rest :=
    Text.stripStart?_eq_some.mpr hhit.eq
  simp only [rangeFrom, hstrip, hhit.blank, if_true, hfound]

theorem rangeFrom_of_not_hit {c : Char} (hnot : ∀ rest, ¬Hit name previous (c :: tail) rest)
    (offset : Nat) :
    ∃ skip, (skip = 0 ∨ skip = name.length - 1 ∧ name <+: c :: tail) ∧
      rangeFrom name 0 previous offset (c :: tail) =
        rangeFrom name skip (some c) (offset + c.utf8Size) tail := by
  rw [rangeFrom]
  cases hstrip : Text.stripStart? name (c :: tail) with
  | none => exact ⟨0, .inl rfl, rfl⟩
  | some rest =>
    have heq : c :: tail = name ++ rest := Text.stripStart?_eq_some.mp hstrip
    have hnone : (if previous.any Text.isBlank = true then
        rangeAt? offset (offset + Text.byteLength name) rest else none) = none := by
      split
      · next hblank => exact rangeAt?_of_not_assigned (fun h => hnot rest ⟨heq, hblank, h⟩) _ _
      · rfl
    exact ⟨name.length - 1, .inr ⟨rfl, rest, heq.symm⟩, by simp only [hnone]⟩

/-- An occurrence of the name that begins before a hit ends before it, since a name has no
blank and one stands before the hit. -/
theorem length_le_of_hit (hname : IsName name) (hu : u ≠ [])
    (hhit : Hit name (lastSeen previous u) tail rest) (hbegins : name <+: u ++ tail) :
    name.length ≤ u.length := by
  refine Nat.le_of_not_lt fun hlong => ?_
  obtain ⟨more, rfl⟩ : u <+: name :=
    List.prefix_of_prefix_length_le ⟨tail, rfl⟩ hbegins (Nat.le_of_lt hlong)
  obtain ⟨hnil, -⟩ | ⟨v, d, rfl, hblank⟩ := hhit.blank_before
  · exact hu hnil
  · exact hname.notMem (isTagChar_of_isBlank hblank) (by simp)

/-- If there is a hit after `u`, what the search finds is found at a hit, and it is that one or
one that begins inside `u`. -/
theorem exists_hit (hname : IsName name) {skip : Nat}
    (hskip : skip ≤ u.length) (hhit : Hit name (lastSeen previous u) tail rest) (offset : Nat) :
    ∃ u₁ u₂ rest₁, u = u₁ ++ u₂ ∧ Hit name (lastSeen previous u₁) (u₂ ++ tail) rest₁ ∧
      rangeAt? (offset + Text.byteLength u₁)
          (offset + Text.byteLength u₁ + Text.byteLength name) rest₁ =
        some (rangeFrom name skip previous offset (u ++ tail)) := by
  induction u generalizing skip previous offset with
  | nil =>
    obtain rfl : skip = 0 := Nat.le_zero.mp hskip
    exact ⟨[], [], rest, rfl, hhit, rangeFrom_of_hit hname hhit offset⟩
  | cons c u ih =>
    -- what is found in the rest of `u` is found in `c :: u`
    have later : ∀ skip ≤ u.length, ∃ u₁ u₂ rest₁, c :: u = u₁ ++ u₂ ∧
        Hit name (lastSeen previous u₁) (u₂ ++ tail) rest₁ ∧
        rangeAt? (offset + Text.byteLength u₁)
            (offset + Text.byteLength u₁ + Text.byteLength name) rest₁ =
          some (rangeFrom name skip (some c) (offset + c.utf8Size) (u ++ tail)) := by
      intro skip hle
      obtain ⟨u₁, u₂, rest₁, rfl, hit₁, hfound⟩ := ih hle hhit (offset + c.utf8Size)
      refine ⟨c :: u₁, u₂, rest₁, rfl, hit₁, ?_⟩
      simpa only [Text.byteLength, Nat.add_assoc] using hfound
    cases skip with
    | succ skip => exact later skip (Nat.le_of_succ_le_succ hskip)
    | zero =>
      by_cases hhere : ∃ rest₁, Hit name previous (c :: (u ++ tail)) rest₁
      · obtain ⟨rest₁, hit₁⟩ := hhere
        exact ⟨[], c :: u, rest₁, rfl, hit₁, rangeFrom_of_hit hname hit₁ offset⟩
      · obtain ⟨skip, hcases, hstep⟩ := rangeFrom_of_not_hit (not_exists.mp hhere) offset
        rw [List.cons_append, hstep]
        refine later skip ?_
        obtain rfl | ⟨rfl, hbegins⟩ := hcases
        · exact Nat.zero_le _
        · have hlen := length_le_of_hit hname (List.cons_ne_nil c u) hhit hbegins
          rw [List.length_cons] at hlen
          omega

/-- Where no hit begins in `u`, the search goes on to the hit after it. -/
theorem rangeFrom_of_clear (hname : IsName name)
    (hclear : Clear name previous u tail) (hhit : Hit name (lastSeen previous u) tail rest)
    (offset : Nat) :
    some (rangeFrom name 0 previous offset (u ++ tail)) =
      rangeAt? (offset + Text.byteLength u)
        (offset + Text.byteLength u + Text.byteLength name) rest := by
  obtain ⟨u₁, u₂, rest₁, rfl, hit₁, hfound⟩ :=
    exists_hit hname (Nat.zero_le _) hhit offset
  obtain rfl : u₂ = [] := Decidable.byContradiction fun hne => hclear u₁ u₂ rest₁ rfl hne hit₁
  obtain rfl : rest = rest₁ := List.append_cancel_left (hhit.eq.symm.trans hit₁.eq)
  rw [List.append_nil] at hfound ⊢
  exact hfound.symm

/-- The search does not pass a hit. -/
theorem start_le_of_hit (hname : IsName name)
    (hhit : Hit name (lastSeen previous u) tail rest) {offset first last : Nat}
    (hfound : rangeFrom name 0 previous offset (u ++ tail) = .range first last) :
    first ≤ offset + Text.byteLength u := by
  obtain ⟨u₁, u₂, rest₁, rfl, -, h⟩ := exists_hit hname (Nat.zero_le _) hhit offset
  rw [hfound] at h
  rw [start_of_rangeAt? h, Text.byteLength_append]
  omega

theorem Clear.append {seg seg' : List Char} (h : Clear name previous seg (seg' ++ tail))
    (h' : Clear name (lastSeen previous seg) seg' tail) :
    Clear name previous (seg ++ seg') tail := by
  intro u v rest heq hv hit
  obtain ⟨m, rfl, rfl⟩ | ⟨m, rfl, rfl⟩ := List.append_eq_append_iff.mp heq
  · exact h' m v rest rfl hv (lastSeen_append previous seg m ▸ hit)
  · by_cases hm : m = []
    · subst hm
      rw [List.append_nil] at h'
      exact h' [] seg' rest rfl hv hit
    · rw [List.append_assoc] at hit
      exact h u m rest rfl hm hit

theorem clear_of_not_isTagChar (hname : IsName name)
    {seg : List Char} (hseg : ∀ c ∈ seg, isTagChar c = false) (previous : Option Char)
    (tail : List Char) : Clear name previous seg tail := by
  rintro u v rest rfl hv hit
  obtain ⟨c, v, rfl⟩ := List.exists_cons_of_ne_nil hv
  obtain ⟨d, name, rfl⟩ := List.exists_cons_of_ne_nil hname.ne_nil
  obtain rfl : c = d := (List.cons.inj hit.eq).1
  exact hname.notMem (hseg c (by simp)) (by simp)

/-- At the start of a text a hit needs a blank. -/
theorem clear_of_not_isBlank {seg : List Char} (hseg : ∀ c ∈ seg, Text.isBlank c = false)
    (tail : List Char) : Clear name none seg tail := by
  rintro u v rest rfl - hit
  obtain ⟨-, hblank⟩ | ⟨u, c, rfl, hblank⟩ := hit.blank_before
  · exact Bool.false_ne_true hblank
  · rw [hseg c (by simp)] at hblank
    exact Bool.false_ne_true hblank

/-- Another name that is assigned to is no hit, and none begins inside it. -/
theorem clear_name (hname : IsName name) {other : List Char}
    (hother : IsName other) (hne : other ≠ name) (htail : Assigned tail)
    (previous : Option Char) : Clear name previous other tail := by
  rintro u v rest rfl - hit
  obtain ⟨rfl, -⟩ | ⟨u, c, rfl, hblank⟩ := hit.blank_before
  · refine hne ?_
    calc v = (v ++ tail).takeWhile isTagChar :=
          (takeWhile_append_eq hother.chars htail.not_isTagChar_head).symm
      _ = (name ++ rest).takeWhile isTagChar := by rw [hit.eq]
      _ = name := takeWhile_append_eq hname.chars hit.assigned.not_isTagChar_head
  · exact hother.notMem (isTagChar_of_isBlank hblank) (by simp)

end Search

/-- The value holds the name after a blank and before an equals sign. -/
def Decoy (name value : List Char) : Prop :=
  ∃ u c w v, value = u ++ c :: (name ++ (w ++ '=' :: v)) ∧ Text.isBlank c = true ∧ Text.Blank w

namespace WrittenAttribute

theorem assigned_link (a : WrittenAttribute) (tail : List Char) : Assigned (a.link ++ tail) := by
  have h := assigned_of_blank a.before_blank (v := a.after ++ a.quote :: tail)
  simpa [link] using h

theorem lastSeen_link (a : WrittenAttribute) (previous : Option Char) :
    lastSeen previous a.link = some a.quote := by
  have h := lastSeen_concat previous (a.before ++ '=' :: a.after) a.quote
  simpa [link] using h

/-- In a value, only decoys are hits. -/
theorem clear_value (a : WrittenAttribute) {name : List Char}
    (hname : IsName name) (hdecoy : ¬Decoy name a.value) (tail : List Char) :
    Clear name (some a.quote) a.value (a.quote :: tail) := by
  intro u v rest hvalue hv hit
  obtain ⟨-, hblank⟩ | ⟨u, c, rfl, hblank⟩ := hit.blank_before
  · have hquote : Text.isBlank a.quote = true := hblank
    rw [a.not_isBlank_quote] at hquote
    exact Bool.false_ne_true hquote
  · obtain ⟨m, hm, hrest⟩ | ⟨m, rfl, rfl⟩ := List.append_eq_append_iff.mp hit.eq
    · cases m with
      | nil =>
        obtain rfl : rest = a.quote :: tail := hrest.symm
        obtain ⟨w, z, hnil, -⟩ :=
          Assigned.of_append a.not_isBlank_quote a.quote_ne_equals (d := []) hit.assigned
        simp at hnil
      | cons d m =>
        -- the closing quote would belong to the name
        refine hname.notMem a.not_isTagChar_quote ?_
        rw [hm, (List.cons.inj hrest).1]
        simp
    · obtain ⟨w, z, rfl, hw⟩ :=
        Assigned.of_append a.not_isBlank_quote a.quote_ne_equals hit.assigned
      exact hdecoy ⟨u, c, w, z, by simpa using hvalue, hblank, hw⟩

theorem clear_text (b : WrittenAttribute) {name : List Char} (hname : IsName name)
    (hne : b.name ≠ name) (hdecoy : ¬Decoy name b.value) (previous : Option Char) (tail : List Char) :
    Clear name previous b.text tail := by
  have plain : ∀ {seg : List Char}, (∀ c ∈ seg, isTagChar c = false) →
      ∀ previous tail, Clear name previous seg tail := clear_of_not_isTagChar hname
  refine (plain (fun c hc => isTagChar_of_isBlank (b.lead_blank c hc)) _ _).append ?_
  refine (clear_name hname b.isName hne ?_ _).append ?_
  · rw [List.append_assoc]
    exact b.assigned_link _
  · refine (plain (fun c => b.not_isTagChar_of_mem_link) _ _).append ?_
    rw [lastSeen_link]
    refine (b.clear_value hname hdecoy tail).append (plain ?_ _ _)
    simpa using b.not_isTagChar_quote

end WrittenAttribute

theorem clear_attributes {name : List Char} (hname : IsName name) {bs : List WrittenAttribute}
    (hne : ∀ b ∈ bs, b.name ≠ name) (hdecoy : ∀ b ∈ bs, ¬Decoy name b.value)
    (previous : Option Char) (tail : List Char) :
    Clear name previous (bs.flatMap (·.text)) tail := by
  induction bs generalizing previous with
  | nil => exact clear_of_not_isTagChar hname (by simp) _ _
  | cons b bs ih =>
    obtain ⟨hb, hbs⟩ := List.forall_mem_cons.mp hne
    obtain ⟨hdecoyb, hdecoybs⟩ := List.forall_mem_cons.mp hdecoy
    rw [List.flatMap_cons]
    exact (b.clear_text hname hb hdecoyb _ _).append (ih hbs hdecoybs _)

namespace StartTag

variable {T : StartTag} {pre post : List WrittenAttribute} {a b : WrittenAttribute}

theorem clear_ahead (h : T.attributes = pre ++ a :: post)
    (hdecoy : ∀ b ∈ pre, ¬Decoy a.name b.value) (tail : List Char) :
    Clear a.name none (T.ahead pre a) tail := by
  refine (clear_of_not_isBlank ?_ _).append (.append (clear_attributes a.isName
    (fun b hb => name_ne_of_mem h hb) hdecoy _ _) ?_)
  · refine List.forall_mem_cons.mpr ⟨by decide, fun c hc => ?_⟩
    exact Bool.eq_false_iff.mpr fun hblank => T.isName.notMem (isTagChar_of_isBlank hblank) hc
  · exact clear_of_not_isTagChar a.isName
      (fun c hc => isTagChar_of_isBlank (a.lead_blank c hc)) _ _

theorem hit_body (T : StartTag) (pre : List WrittenAttribute) (a : WrittenAttribute)
    (tail : List Char) :
    Hit a.name (lastSeen none (T.ahead pre a)) (a.body ++ tail)
      (a.link ++ (a.value ++ a.quote :: tail)) where
  eq := by simp [WrittenAttribute.body]
  blank := by
    obtain hnil | ⟨lead, c, hlead⟩ := List.eq_nil_or_concat a.lead
    · exact absurd hnil a.lead_ne_nil
    · rw [List.concat_eq_append] at hlead
      rw [ahead, hlead, ← List.append_assoc, ← List.append_assoc, lastSeen_concat]
      exact a.lead_blank c (by simp [hlead])
  assigned := a.assigned_link _

theorem ahead_append (T : StartTag) (pre mid : List WrittenAttribute) (b a : WrittenAttribute) :
    T.ahead (pre ++ b :: mid) a =
      T.ahead pre b ++ (b.body ++ (mid.flatMap (·.text) ++ a.lead)) := by
  simp [ahead, WrittenAttribute.text]

/-- A decoy is met before the attribute. -/
theorem start_lt_of_decoy (h : T.attributes = pre ++ a :: post) (hb : b ∈ pre)
    (hdecoy : Decoy a.name b.value) {first last : Nat}
    (hfound : attributeRange T.text (String.ofList a.name) = .range first last) :
    first < Text.byteLength (T.ahead pre a) := by
  obtain ⟨pre, mid, rfl⟩ := List.append_of_mem hb
  obtain ⟨u, c, w, v, hvalue, hblank, hw⟩ := hdecoy
  obtain ⟨lead, more, hahead⟩ : ∃ lead more, T.ahead (pre ++ b :: mid) a =
      (lead ++ [c]) ++ (a.name ++ (w ++ '=' :: more)) := by
    refine ⟨T.ahead pre b ++ (b.name ++ (b.link ++ u)),
      v ++ b.quote :: (mid.flatMap (·.text) ++ a.lead), ?_⟩
    simp [ahead_append, WrittenAttribute.body, hvalue]
  have htext : T.text = (lead ++ [c]) ++ (a.name ++ (w ++ '=' ::
      (more ++ (a.body ++ (post.flatMap (·.text) ++ T.tail))))) := by
    simp [text_eq h, hahead]
  rw [attributeRange, String.toList_ofList, htext] at hfound
  have hle := start_le_of_hit a.isName
    ⟨rfl, by rw [lastSeen_concat]; exact hblank, assigned_of_blank hw⟩ hfound
  have hpos : 0 < Text.byteLength a.name := Text.byteLength_pos a.isName.ne_nil
  rw [hahead, Text.byteLength_append, Text.byteLength_append a.name]
  omega

end StartTag

/-- The place of an attribute is where its text stands in the tag, and the search finds it if
and only if no value of an earlier attribute is a decoy for its name. -/
theorem attributeRange_eq_place_iff (T : StartTag) (pre post : List WrittenAttribute)
    (a : WrittenAttribute) (h : T.attributes = pre ++ a :: post) :
    Text.slice? (Text.byteLength (T.ahead pre a))
        (Text.byteLength (T.ahead pre a) + Text.byteLength a.body) T.text = some a.body ∧
      (attributeRange T.text (String.ofList a.name) =
          .range (Text.byteLength (T.ahead pre a))
            (Text.byteLength (T.ahead pre a) + Text.byteLength a.body) ↔
        ∀ b ∈ pre, ¬Decoy a.name b.value) := by
  have htext := StartTag.text_eq h
  refine ⟨htext ▸ Text.slice?_append _ _ _, fun hfound b hb hdecoy => ?_, fun hdecoy => ?_⟩
  · exact Nat.lt_irrefl _ (StartTag.start_lt_of_decoy h hb hdecoy hfound)
  · have hfound := rangeFrom_of_clear a.isName
      (StartTag.clear_ahead h hdecoy _)
      (T.hit_body pre a (post.flatMap (·.text) ++ T.tail)) 0
    rw [Nat.zero_add, rangeAt?_attribute, ← htext] at hfound
    rw [attributeRange, String.toList_ofList, Option.some.inj hfound]

/-- An attribute with the same blanks on both sides of the equals sign. -/
def spaced (name blanks value : List Char) (hname : IsName name) (hblanks : Text.Blank blanks)
    (hvalue : '"' ∉ value) : WrittenAttribute where
  lead := [' ']
  name := name
  before := blanks
  after := blanks
  quote := '"'
  value := value
  lead_ne_nil := by decide
  lead_blank := by decide
  isName := hname
  before_blank := hblanks
  after_blank := hblanks
  quote_mark := .inl rfl
  quote_notMem := hvalue

/-- A tag with the attributes `x`, which has the given value, and `b`. -/
def pairTag (blanks value : List Char) (hblanks : Text.Blank blanks) (hvalue : '"' ∉ value) :
    StartTag where
  name := ['a']
  attributes :=
    [spaced ['x'] blanks value (by decide) hblanks hvalue,
      spaced ['b'] blanks ['2'] (by decide) hblanks (by decide)]
  tail := ['/', '>']
  isName := by decide
  distinct := by simp [spaced]

/-- In the value of `x` stand another name that ends alike, the name before a quote and the
name after a quote, none of which is a decoy. -/
def nearMissTag : StartTag :=
  pairTag ['\n', ' '] "é xb=1 b 'b=' b".toList (by decide) (by decide +kernel)

theorem attributeRange_eq_place_iff_nearMiss :
    nearMissTag.text = "<a x\n =\n \"é xb=1 b 'b=' b\" b\n =\n \"2\"/>".toList ∧
      attributeRange nearMissTag.text "b" = .range 28 37 ∧
      ∀ b ∈ nearMissTag.attributes.take 1, ¬Decoy ['b'] b.value := by
  refine ⟨by decide +kernel, by decide +kernel, ?_⟩
  exact (attributeRange_eq_place_iff nearMissTag [spaced ['x'] _ _ _ _ _] []
    (spaced ['b'] _ _ _ _ _) rfl).2.mp (by decide +kernel)

def decoyTag : StartTag := pairTag [] " b='1'".toList (by decide) (by decide +kernel)

def wideDecoyTag : StartTag := pairTag [] " b=é".toList (by decide) (by decide +kernel)

/-- A decoy is taken for the attribute, and the search fails where a character of several bytes
is taken for the quote of its value. -/
theorem attributeRange_decoyTag :
    decoyTag.text = "<a x=\" b='1'\" b=\"2\"/>".toList ∧
      attributeRange decoyTag.text "b" = .range 7 12 ∧
      Text.slice? 14 19 decoyTag.text = some "b=\"2\"".toList ∧
      wideDecoyTag.text = "<a x=\" b=é\" b=\"2\"/>".toList ∧
      attributeRange wideDecoyTag.text "b" = .split := by
  decide +kernel

end Resource
end LevelGuard
