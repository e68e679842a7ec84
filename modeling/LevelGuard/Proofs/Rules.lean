import LevelGuard.Data.Basic
import LevelGuard.Java.Read
import LevelGuard.Proofs.Outlines

/-!
# What rules of the grammar read

The words of a source have no dot in them and begin with no digit, and its tokens follow
each other in the text. A rule reads tokens from a cursor, so the types in what it reads
begin at or after the place of the cursor, and those in what the next rule reads begin
later. Here it is said what the ways to combine rules make of this: while a rule of the
grammar is followed line by line, the types that have been read so far are listed in the
order of the text, all of them before the cursor.
-/
namespace LevelGuard.Java

/-- A text as words have it. -/
structure IsWord (text : String) : Prop where
  ne_empty : text ≠ ""
  noDot : '.' ∉ text.toList
  noDigit : ∀ c ∈ text.toList.head?, c.isDigit = false

/-- A word has the text of one, and every token ends after it begins. -/
structure Token.Proper (t : Token) : Prop where
  word : t.kind = .word → IsWord t.text
  long : t.start.byte < t.stop.byte

/-- A type has a word for its name or none, and its member types have words. -/
structure Head.Proper (h : Head) : Prop where
  name : h.name = "" ∨ IsWord h.name
  members : ∀ n ∈ h.members, IsWord n

namespace Lexeme

theorem startsWord_eq_false {c : Char} (h : c = '.' ∨ c.isDigit = true) : startsWord c = false := by
  have hall : ∀ n < 58, (Char.ofNat n = '.' ∨ (Char.ofNat n).isDigit = true) →
      startsWord (Char.ofNat n) = false := by decide +kernel
  have hlt : c.toNat < 58 := h.elim (fun hdot => hdot ▸ by decide) fun hdigit =>
    Nat.lt_succ_of_le (Text.toNat_of_isDigit hdigit).2
  have hc := hall c.toNat hlt
  rw [Char.ofNat_toNat] at hc
  exact hc h

theorem inWord_dot : inWord '.' = false := by decide +kernel

theorem number?_ne_word {cs : List Char} {n : Nat} : number? cs ≠ some (.word, n) := by
  unfold number?
  split
  · split <;> simp
  · simp
  · simp

theorem isWord_cons {c : Char} {rest : List Char} (hc : startsWord c = true)
    (hrest : ∀ d ∈ rest, inWord d = true) : IsWord (String.ofList (c :: rest)) := by
  have hstart : ¬ (c = '.' ∨ c.isDigit = true) := fun h => by simp [startsWord_eq_false h] at hc
  obtain ⟨hdot, hdigit⟩ := not_or.mp hstart
  refine ⟨fun h => ?_, ?_, ?_⟩
  · simpa using congrArg String.toList h
  · rw [String.toList_ofList, List.mem_cons]
    rintro (h | h)
    · exact hdot h.symm
    · simpa [inWord_dot] using hrest '.' h
  · rw [String.toList_ofList]
    rintro d hd
    rw [← Option.some.inj hd]
    exact Bool.eq_false_iff.mpr hdigit

theorem isWord_of_token? {cs : List Char} {n : Nat} (h : token? cs = some (.word, n)) :
    IsWord (String.ofList (cs.take n)) := by
  unfold token? at h
  split at h
  · cases h
  · next rest => cases hrest : characterRest? false rest <;> simp [hrest] at h
  · next c rest _ =>
    split at h
    · next hc =>
      simp only [Option.some.injEq, Prod.mk.injEq, true_and] at h
      have htext : (c :: rest).take n = c :: rest.takeWhile inWord := by
        rw [← h, List.take_succ_cons,
          ← List.prefix_iff_eq_take.mp (List.takeWhile_prefix inWord)]
      rw [htext]
      exact isWord_cons hc (List.all_eq_true.mp List.all_takeWhile)
    · split at h
      · next t ht => exact absurd (ht.trans h) number?_ne_word
      · cases hmark : punctuation.longest? (c :: rest) <;> simp [hmark] at h

/-- Nothing is matched by no characters. -/
def Positive (a : Lexeme) : Prop := ∀ cs, ∀ n ∈ a cs, 0 < n

theorem positive_one (p : Char → Bool) : Positive (one p) := by
  intro cs n hn
  unfold one at hn
  split at hn
  · cases hn
  · split at hn
    · rw [List.mem_singleton.mp hn]
      exact Nat.one_pos
    · cases hn

theorem Positive.seq {a : Lexeme} (h : Positive a) (b : Lexeme) : Positive (seq a b) := by
  intro cs n hn
  obtain ⟨m, hm, hn⟩ := List.mem_flatMap.mp hn
  obtain ⟨k, -, rfl⟩ := List.mem_map.mp hn
  exact Nat.add_pos_left (h cs m hm) k

theorem Positive.all {a : Lexeme} (h : Positive a) (as : List Lexeme) : Positive (all (a :: as)) :=
  h.seq _

theorem positive_anyOf {forms : List Lexeme} (h : ∀ a ∈ forms, Positive a) :
    Positive (anyOf forms) := by
  intro cs n hn
  obtain ⟨a, ha, hn⟩ := List.mem_flatMap.mp hn
  exact h a ha cs n hn

theorem lt_of_mem_moreDigits (p : Char → Bool) (k : Nat) (cs : List Char) :
    ∀ n ∈ moreDigits p k cs, k < n := by
  fun_induction moreDigits p k cs with
  | case1 k d cs _ ih =>
    refine List.forall_mem_cons.mpr ⟨by omega, fun n hn => ?_⟩
    have := ih n hn
    omega
  | case2 => exact nofun
  | case3 k c cs _ _ ih =>
    refine List.forall_mem_cons.mpr ⟨by omega, fun n hn => ?_⟩
    have := ih n hn
    omega
  | case4 => exact nofun
  | case5 => exact nofun

theorem positive_digits (p : Char → Bool) : Positive (digits p) := by
  intro cs n hn
  unfold digits at hn
  split at hn
  · cases hn
  · split at hn
    · rcases List.mem_cons.mp hn with rfl | hn
      · exact Nat.one_pos
      · exact Nat.lt_trans Nat.one_pos (lt_of_mem_moreDigits p 1 _ n hn)
    · cases hn

theorem positive_count : Positive count := by
  intro cs n hn
  unfold count at hn
  split at hn
  · rw [List.mem_singleton.mp hn]
    exact Nat.one_pos
  · split at hn
    · obtain ⟨m, -, rfl⟩ := List.mem_map.mp hn
      exact Nat.succ_pos m
    · cases hn
  · cases hn

theorem positive_radix (letters : String) : Positive (radix letters) := (positive_one _).seq _

theorem positive_integer : Positive integer := by
  refine positive_anyOf ?_
  simp only [List.forall_mem_cons]
  exact ⟨positive_count.seq _, (positive_radix _).all _, (positive_one _).all _,
    (positive_radix _).all _, (positive_radix _).all _, nofun⟩

theorem positive_float : Positive float := by
  refine positive_anyOf ?_
  simp only [List.forall_mem_cons]
  exact ⟨(positive_digits _).all _, (positive_one _).all _, positive_count.all _,
    positive_count.all _, (positive_radix _).all _, nofun⟩

theorem positive_punctuation : Positive punctuation := by
  refine positive_anyOf (List.forall_mem_map.mpr fun m hm => ?_)
  have hmarks : ∀ m ∈ marks, m.toList ≠ [] := by decide
  cases htext : m.toList with
  | nil => exact absurd htext (hmarks m hm)
  | cons c cs => exact (positive_one _).all _

theorem Positive.longest? {a : Lexeme} (h : Positive a) {cs : List Char} {n : Nat}
    (hn : a.longest? cs = some n) : 0 < n := h cs n (List.max?_mem hn)

theorem number?_pos {cs : List Char} {kind : TokenKind} {n : Nat}
    (h : number? cs = some (kind, n)) : 0 < n := by
  unfold number? at h
  split at h
  · next a b ha hb =>
    split at h
    · cases h
      exact positive_float.longest? hb
    · cases h
      exact positive_integer.longest? ha
  · next a ha _ =>
    cases h
    exact positive_integer.longest? ha
  · obtain ⟨m, hm, heq⟩ := Option.map_eq_some_iff.mp h
    cases heq
    exact positive_float.longest? hm

theorem token?_pos {cs : List Char} {kind : TokenKind} {n : Nat}
    (h : token? cs = some (kind, n)) : 0 < n := by
  unfold token? at h
  split at h
  · cases h
  · obtain ⟨m, -, heq⟩ := Option.map_eq_some_iff.mp h
    cases heq
    exact Nat.succ_pos m
  · split at h
    · cases h
      exact Nat.succ_pos _
    · split at h
      · next t ht =>
        cases h
        exact number?_pos ht
      · obtain ⟨m, hm, heq⟩ := Option.map_eq_some_iff.mp h
        cases heq
        exact positive_punctuation.longest? hm

end Lexeme

/-- A piece that is a token is read as one of code, or is a quote or a brace. -/
theorem Piece.token?_or_mark {regions : List Region} {cs : List Char} {p : Piece} {kind : TokenKind}
    (h : next? regions cs = some p) (hkind : p.kind = some kind) :
    Lexeme.token? cs = some (kind, p.size) ∨ kind ≠ .word ∧ 0 < p.size := by
  have hmark : ∀ (size : Nat) (k : TokenKind) (rs : List Region), k ≠ .word → 0 < size →
      some (⟨size, some k, rs⟩ : Piece) = some p →
      Lexeme.token? cs = some (kind, p.size) ∨ kind ≠ .word ∧ 0 < p.size := by
    intro size k rs hword hsize heq
    cases heq
    cases hkind
    exact .inr ⟨hword, hsize⟩
  unfold next? at h
  split at h
  · cases h
  · unfold inCode? at h
    split at h
    · cases h
      cases hkind
    · split at h
      · exact hmark 3 .quote _ (by decide) (by decide) h
      · exact hmark 1 .quote _ (by decide) (by decide) h
      · exact hmark 1 .punctuation _ (by decide) (by decide) h
      · exact hmark 1 .punctuation _ (by decide) (by decide) h
      · exact hmark 1 .punctuation _ (by decide) (by decide) h
      · obtain ⟨⟨k, n⟩, htoken, rfl⟩ := Option.map_eq_some_iff.mp h
        cases hkind
        exact .inl htoken
  · unfold inString? at h
    split at h
    · exact hmark 1 .quote _ (by decide) (by decide) h
    · exact hmark 2 .punctuation _ (by decide) (by decide) h
    · obtain ⟨n, -, rfl⟩ := Option.map_eq_some_iff.mp h
      cases hkind
    · obtain ⟨n, -, rfl⟩ := Option.map_eq_some_iff.mp h
      cases hkind
  · unfold inTextBlock? at h
    split at h
    · exact hmark 3 .quote _ (by decide) (by decide) h
    · cases h
      cases hkind
    · exact hmark 2 .punctuation _ (by decide) (by decide) h
    · split at h
      · cases h
      · cases h
        cases hkind
    · obtain ⟨n, -, rfl⟩ := Option.map_eq_some_iff.mp h
      cases hkind

namespace Mark

theorem byte_le_skip (n : Nat) (m : Mark) : m.byte ≤ (m.skip n).byte := by
  induction n generalizing m with
  | zero => exact Nat.le_refl _
  | succ n ih =>
    unfold skip
    split
    · exact Nat.le_refl _
    · refine Nat.le_trans ?_ (ih _)
      split
      · exact Nat.le_succ m.byte
      · exact Nat.le_add_right m.byte _

theorem byte_lt_skip {n : Nat} {m : Mark} (hn : 0 < n) (hm : m.ahead ≠ []) :
    m.byte < (m.skip n).byte := by
  obtain ⟨n, rfl⟩ := Nat.exists_eq_succ_of_ne_zero (Nat.ne_of_gt hn)
  unfold skip
  split
  · next hnil => exact absurd hnil hm
  · next c cs _ =>
    refine Nat.lt_of_lt_of_le ?_ (byte_le_skip n _)
    split
    · exact Nat.lt_succ_self m.byte
    · exact Nat.lt_add_of_pos_right c.utf8Size_pos

end Mark

namespace Token

/-- One token ends before the other begins. -/
def Before (a b : Token) : Prop := a.stop.byte ≤ b.start.byte

theorem proper_of_next? {regions : List Region} {m : Mark} {p : Piece} {kind : TokenKind}
    (h : Piece.next? regions m.ahead = some p) (hkind : p.kind = some kind) (hm : m.ahead ≠ []) :
    Token.Proper ⟨kind, String.ofList (m.ahead.take p.size), m, m.skip p.size⟩ := by
  rcases Piece.token?_or_mark h hkind with htoken | ⟨hword, hsize⟩
  · refine ⟨fun hword => ?_, Mark.byte_lt_skip (Lexeme.token?_pos htoken) hm⟩
    have hword : kind = .word := hword
    rw [hword] at htoken
    exact Lexeme.isWord_of_token? htoken
  · exact ⟨fun h => absurd h hword, Mark.byte_lt_skip hsize hm⟩

/-- The tokens from a place on are proper and follow each other. -/
theorem inOrder_of_readFrom? {bound : Nat} {regions : List Region} {m : Mark} {tokens : List Token}
    (h : readFrom? bound regions m = some tokens) :
    (∀ t ∈ tokens, t.Proper ∧ m.byte ≤ t.start.byte) ∧ tokens.Pairwise Before := by
  induction bound generalizing regions m tokens with
  | zero => cases h
  | succ bound ih =>
    rw [readFrom?] at h
    split at h
    · cases h
      exact ⟨nofun, .nil⟩
    · next hahead =>
      rw [List.isEmpty_iff] at hahead
      obtain ⟨p, hp, h⟩ := Option.bind_eq_some_iff.mp h
      have hskip := Mark.byte_le_skip p.size m
      dsimp only at h
      split at h
      · obtain ⟨hproper, horder⟩ := ih h
        exact ⟨fun t ht => ⟨(hproper t ht).1, Nat.le_trans hskip (hproper t ht).2⟩, horder⟩
      · next kind hkind =>
        obtain ⟨rest, hrest, rfl⟩ := Option.map_eq_some_iff.mp h
        obtain ⟨hproper, horder⟩ := ih hrest
        have hfirst := proper_of_next? hp hkind hahead
        refine ⟨List.forall_mem_cons.mpr ⟨⟨hfirst, Nat.le_refl _⟩, fun t ht => ?_⟩, ?_⟩
        · exact ⟨(hproper t ht).1, Nat.le_trans hskip (hproper t ht).2⟩
        · exact List.pairwise_cons.mpr ⟨fun t ht => (hproper t ht).2, horder⟩

end Token

namespace Cursor

/-- The place of the next token, or where the last one ends. -/
def byte (s : Cursor) : Nat :=
  match s.rest with
  | [] => s.last.byte
  | t :: _ => t.start.byte

/-- The tokens that are left are proper and follow each other, and the types that have been
read begin one after the other, before the cursor or at most `slack` beyond it. -/
structure After (slack : Nat) (heads : List Head) (s : Cursor) : Prop where
  tokens : ∀ t ∈ s.rest, t.Proper
  ordered : s.rest.Pairwise Token.Before
  heads_lt : heads.Pairwise fun a b => a.start < b.start
  before : ∀ h ∈ heads, h.start < s.byte + slack
  proper : ∀ h ∈ heads, h.Proper

variable {slack : Nat} {heads : List Head} {s : Cursor}

theorem After.sublist {heads' : List Head} (h : s.After slack heads) (hsub : heads'.Sublist heads) :
    s.After slack heads' where
  tokens := h.tokens
  ordered := h.ordered
  heads_lt := h.heads_lt.sublist hsub
  before a ha := h.before a (hsub.subset ha)
  proper a ha := h.proper a (hsub.subset ha)

theorem After.slacken {slack' : Nat} (h : s.After slack heads) (hle : slack ≤ slack') :
    s.After slack' heads where
  tokens := h.tokens
  ordered := h.ordered
  heads_lt := h.heads_lt
  before a ha := Nat.lt_of_lt_of_le (h.before a ha) (Nat.add_le_add_left hle _)
  proper := h.proper

/-- A type that begins at the cursor comes after all types before it. -/
theorem After.begin (h : s.After 0 heads) : s.After 1 (heads ++ [⟨s.byte, "", []⟩]) where
  tokens := h.tokens
  ordered := h.ordered
  heads_lt := by
    refine List.pairwise_append.mpr ⟨h.heads_lt, List.pairwise_singleton _ _, fun a ha b hb => ?_⟩
    rw [List.mem_singleton.mp hb]
    exact h.before a ha
  before := by
    refine List.forall_mem_append.mpr ⟨fun a ha => Nat.lt_succ_of_lt (h.before a ha), ?_⟩
    exact List.forall_mem_singleton.mpr (Nat.lt_succ_self _)
  proper := List.forall_mem_append.mpr
    ⟨h.proper, List.forall_mem_singleton.mpr ⟨.inl rfl, nofun⟩⟩

/-- A type can be told more of, once more of it has been read. -/
theorem After.rename {before after : List Head} {a b : Head} (h : s.After slack (before ++ a :: after))
    (hstart : b.start = a.start) (hb : b.Proper) : s.After slack (before ++ b :: after) := by
  have hpairwise := h.heads_lt
  have hbefore := h.before
  have hproper := h.proper
  simp only [List.pairwise_append, List.pairwise_cons, List.forall_mem_cons,
    List.forall_mem_append] at hpairwise hbefore hproper
  refine ⟨h.tokens, h.ordered, ?_, ?_, ?_⟩
  · simp only [List.pairwise_append, List.pairwise_cons, List.forall_mem_cons, hstart]
    exact hpairwise
  · simp only [List.forall_mem_append, List.forall_mem_cons, hstart]
    exact hbefore
  · simp only [List.forall_mem_append, List.forall_mem_cons]
    exact ⟨hproper.1, hb, hproper.2.2⟩

theorem After.take {t : Token} {ts : List Token} {left : Nat} {last : Mark}
    (h : (⟨t :: ts, left, last⟩ : Cursor).After 1 heads) :
    (⟨ts, left - 1, t.stop⟩ : Cursor).After 0 heads := by
  obtain ⟨ht, hts⟩ := List.forall_mem_cons.mp h.tokens
  obtain ⟨hfirst, hrest⟩ := List.pairwise_cons.mp h.ordered
  have hbyte : t.start.byte < (⟨ts, left - 1, t.stop⟩ : Cursor).byte := by
    cases ts with
    | nil => exact ht.long
    | cons u us => exact Nat.lt_of_lt_of_le ht.long (hfirst u List.mem_cons_self)
  refine ⟨hts, hrest, h.heads_lt, fun a ha => ?_, h.proper⟩
  have hlt : a.start < t.start.byte + 1 := h.before a ha
  omega

end Cursor

namespace Rule

theorem exists_of_bind {α β : Type} {p : Rule α} {f : α → Rule β} {s : Cursor} {r : β × Cursor}
    (h : (p >>= f) s = some r) : ∃ a t, p s = some (a, t) ∧ f a t = some r := by
  change (p s).bind (fun r => f r.1 r.2) = some r at h
  obtain ⟨⟨a, t⟩, ha, hf⟩ := Option.bind_eq_some_iff.mp h
  exact ⟨a, t, ha, hf⟩

/-- After types of which the last ones are `xs`, the rule yields what fits, in the sense of
`Q`, into the types that it puts in place of `xs`. It starts with the cursor at most `j`
behind the types and leaves it at most `k` behind. -/
def Reads {α : Type} (j k : Nat) (xs : List Head) (Q : α → List Head → Prop) (p : Rule α) : Prop :=
  ∀ ys s, s.After j (ys ++ xs) → ∀ a s', p s = some (a, s') → ∃ zs, Q a zs ∧ s'.After k (ys ++ zs)

/-- The rule adds types into which fits what it yields. -/
abbrev Yields {α : Type} (Q : α → List Head → Prop) (p : Rule α) : Prop := Reads 0 0 [] Q p

/-- The same, where the rule reads a token before any type. -/
abbrev Opens {α : Type} (Q : α → List Head → Prop) (p : Rule α) : Prop := Reads 1 0 [] Q p

/-- What the rule yields does not matter. -/
abbrev Keeps {α : Type} (p : Rule α) : Prop := Yields (fun _ _ => True) p

/-- The items of a list fit into types one after the other. -/
def All {α : Type} (Q : α → List Head → Prop) : List α → List Head → Prop
  | [], _ => True
  | a :: as, zs => ∃ xs ys, (xs ++ ys).Sublist zs ∧ Q a xs ∧ All Q as ys

abbrev YieldsAll {α : Type} (Q : α → List Head → Prop) (p : Rule (List α)) : Prop := Yields (All Q) p

namespace All

variable {α β : Type} {P : α → List Head → Prop} {Q : β → List Head → Prop} {as bs : List α}
  {xs ys zs : List Head}

theorem cons {a : α} (h : P a xs) (h' : All P as ys) : All P (a :: as) (xs ++ ys) :=
  ⟨xs, ys, .refl _, h, h'⟩

theorem mono (h : All P as xs) (hsub : xs.Sublist ys) : All P as ys := by
  cases as with
  | nil => trivial
  | cons a as =>
    obtain ⟨xs, xs', hxs, ha, has⟩ := h
    exact ⟨xs, xs', hxs.trans hsub, ha, has⟩

theorem singleton {a : α} (h : P a xs) : All P [a] xs :=
  ⟨xs, [], (List.append_nil xs).symm ▸ .refl xs, h, trivial⟩

theorem append (h : All P as xs) (h' : All P bs ys) : All P (as ++ bs) (xs ++ ys) := by
  induction as generalizing xs with
  | nil => exact h'.mono (List.sublist_append_right xs ys)
  | cons a as ih =>
    obtain ⟨xs', ys', hsub, ha, has⟩ := h
    refine ⟨xs', ys' ++ ys, ?_, ha, ih has⟩
    rw [← List.append_assoc]
    exact hsub.append_right ys

theorem map {f : α → β} (hf : ∀ a zs, P a zs → Q (f a) zs) (h : All P as zs) : All Q (as.map f) zs := by
  induction as generalizing zs with
  | nil => trivial
  | cons a as ih =>
    obtain ⟨xs, ys, hsub, ha, has⟩ := h
    exact ⟨xs, ys, hsub, hf a xs ha, ih has⟩

theorem flatten {ass : List (List α)} (h : All (All P) ass zs) : All P ass.flatten zs := by
  induction ass generalizing zs with
  | nil => trivial
  | cons as ass ih =>
    obtain ⟨xs, ys, hsub, has, hass⟩ := h
    rw [List.flatten_cons]
    exact (has.append (ih hass)).mono hsub

theorem filterMap_id {os : List (Option α)} (h : All (fun o zs => ∀ a ∈ o, P a zs) os zs) :
    All P (os.filterMap id) zs := by
  induction os generalizing zs with
  | nil => trivial
  | cons o os ih =>
    obtain ⟨xs, ys, hsub, ho, hos⟩ := h
    cases o with
    | none => exact (ih hos).mono ((List.sublist_append_right xs ys).trans hsub)
    | some a => exact ⟨xs, ys, hsub, ho a rfl, ih hos⟩

theorem getD {o : Option (List α)} (h : ∀ as ∈ o, All P as zs) : All P (o.getD []) zs := by
  cases o with
  | none => trivial
  | some as => exact h as rfl

theorem toList {o : Option α} (h : ∀ a ∈ o, P a zs) : All P o.toList zs := by
  cases o with
  | none => trivial
  | some a => exact .singleton (h a rfl)

end All

namespace Reads

variable {α β : Type} {j k l : Nat} {xs : List Head} {P Q : α → List Head → Prop}
  {R : β → List Head → Prop} {p q : Rule α} {r : Rule β} {f : α → Rule β}

theorem pure {a : α} (h : P a xs) : Reads j j xs P (Pure.pure a : Rule α) := by
  intro ys s hs b s' heq
  cases heq
  exact ⟨xs, h, hs⟩

theorem failure : Reads j k xs P (Alternative.failure : Rule α) := nofun

/-- A rule that goes on where another stopped, with all that has been read so far. -/
theorem trans (h : Reads j k xs P p) (hf : ∀ a zs, P a zs → Reads k l zs R (f a)) :
    Reads j l xs R (p >>= f) := by
  intro ys s hs b s' heq
  obtain ⟨a, t, ha, hb⟩ := exists_of_bind heq
  obtain ⟨zs, hP, ht⟩ := h ys s hs a t ha
  exact hf a zs hP ys t ht b s' hb

/-- What has been read before a rule stays before what it reads. -/
theorem frame (h : Reads j k [] P p) :
    Reads j k xs (fun a zs => ∃ ys, P a ys ∧ zs = xs ++ ys) p := by
  intro ys s hs a s' heq
  obtain ⟨zs, hP, hs'⟩ := h (ys ++ xs) s (by rwa [List.append_nil]) a s' heq
  rw [List.append_assoc] at hs'
  exact ⟨xs ++ zs, ⟨zs, hP, rfl⟩, hs'⟩

theorem bind (h : Reads j k [] P p) (hf : ∀ a zs, P a zs → Reads k l (xs ++ zs) R (f a)) :
    Reads j l xs R (p >>= f) := by
  refine h.frame.trans fun a zs ha => ?_
  obtain ⟨ys, hP, rfl⟩ := ha
  exact hf a ys hP

/-- Types that have been read may be left out. -/
theorem forget {ys : List Head} (h : Reads j k xs P p) (hsub : xs.Sublist ys) : Reads j k ys P p :=
  fun ys' s hs => h ys' s (hs.sublist (hsub.append_left ys'))

/-- What is known of the result of a rule, whose types are left out. -/
theorem learn (h : Reads j k [] P p) (hf : ∀ a zs, P a zs → Reads k l xs R (f a)) :
    Reads j l xs R (p >>= f) :=
  h.bind fun a zs ha => (hf a zs ha).forget (List.sublist_append_left xs zs)

theorem skip (h : Reads j k [] P p) (hf : ∀ a, Reads k l xs R (f a)) : Reads j l xs R (p >>= f) :=
  h.learn fun a _ _ => hf a

theorem mono (h : Reads j k xs P p) (hle : ∀ a zs, P a zs → Q a zs) : Reads j k xs Q p := by
  intro ys s hs a s' heq
  obtain ⟨zs, ha, hs'⟩ := h ys s hs a s' heq
  exact ⟨zs, hle a zs ha, hs'⟩

theorem keeps (h : Yields P p) : Keeps p := h.mono fun _ _ _ => trivial

theorem slacken {j' k' : Nat} (h : Reads j k xs P p) (hj : j' ≤ j) (hk : k ≤ k') :
    Reads j' k' xs P p := by
  intro ys s hs a s' heq
  obtain ⟨zs, ha, hs'⟩ := h ys s (hs.slacken hj) a s' heq
  exact ⟨zs, ha, hs'.slacken hk⟩

theorem yields (h : Opens P p) : Yields P p := h.slacken (Nat.zero_le 1) (Nat.le_refl 0)

theorem begin {f : Mark → Rule β} (hf : ∀ m : Mark, Reads 1 k [⟨m.byte, "", []⟩] R (f m)) :
    Reads 0 k [] R (here >>= f) := by
  intro ys s hs b s' heq
  rw [List.append_nil] at hs
  obtain ⟨rest, left, last⟩ := s
  cases rest with
  | nil => exact hf last ys _ hs.begin b s' heq
  | cons t ts => exact hf t.start ys _ hs.begin b s' heq

/-- A type that is told more of when it has been read. -/
theorem pure_named {placed : Head} {a : α} (named : Head) (hstart : named.start = placed.start)
    (hproper : named.Proper) (ha : P a (named :: xs)) :
    Reads j j (placed :: xs) P (Pure.pure a : Rule α) := by
  intro ys s hs b s' heq
  cases heq
  exact ⟨named :: xs, ha, hs.rename hstart hproper⟩

theorem orElse (h : Reads j k xs P p) (h' : Reads j k xs P q) : Reads j k xs P (p <|> q) := by
  intro ys s hs a s' heq
  change (p s <|> q s) = some (a, s') at heq
  cases hp : p s with
  | none =>
    rw [hp] at heq
    exact h' ys s hs a s' heq
  | some r =>
    rw [hp] at heq
    exact h ys s hs a s' (hp.trans heq)

theorem ite {c : Prop} [Decidable c] (h : c → Reads j k xs P p) (h' : ¬ c → Reads j k xs P q) :
    Reads j k xs P (if c then p else q) := by
  split
  · next hc => exact h hc
  · next hc => exact h' hc

theorem guard {c : Prop} [Decidable c] (h : Reads j k xs R r) :
    Reads j k xs R (if c then (Alternative.failure : Rule α) >>= f else r) :=
  .ite (fun _ => (failure (P := fun _ _ => False) (k := k)).learn fun _ _ hfalse => hfalse.elim) fun _ => h

theorem opt (h : Reads j j [] P p) : Reads j j [] (fun o zs => ∀ a ∈ o, P a zs) (Rule.opt p) := by
  intro ys s hs o s' heq
  unfold Rule.opt at heq
  cases hp : p s with
  | none =>
    rw [hp] at heq
    cases heq
    exact ⟨[], nofun, hs⟩
  | some r =>
    rw [hp] at heq
    cases heq
    obtain ⟨zs, ha, hs'⟩ := h ys s hs r.1 r.2 hp
    exact ⟨zs, fun b hb => Option.some.inj hb ▸ ha, hs'⟩

/-- A rule that may go on with what has been read. -/
theorem opt_trans {f : Option α → Rule β} (h : Reads j j xs P p) (hnone : Reads j k xs R (f none))
    (hsome : ∀ a zs, P a zs → Reads j k zs R (f (some a))) : Reads j k xs R (Rule.opt p >>= f) := by
  intro ys s hs b s' heq
  obtain ⟨o, t, ho, hb⟩ := exists_of_bind heq
  unfold Rule.opt at ho
  cases hp : p s with
  | none =>
    rw [hp] at ho
    cases ho
    exact hnone ys s hs b s' hb
  | some r =>
    rw [hp] at ho
    cases ho
    obtain ⟨zs, ha, hs'⟩ := h ys s hs r.1 r.2 hp
    exact hsome r.1 zs ha ys r.2 hs' b s' hb

theorem manyUpTo (h : Reads j j [] P p) (bound : Nat) : Reads j j [] (All P) (Rule.manyUpTo p bound) := by
  induction bound with
  | zero => exact .pure trivial
  | succ bound ih =>
    refine h.opt.bind fun o xs ho => ?_
    cases o with
    | none => exact .pure trivial
    | some a => exact ih.bind fun as ys has => .pure (.cons (ho a rfl) has)

end Reads

/-- What is asked of the cursor itself leaves it as it is. -/
theorem reads_get {j : Nat} : Reads j j [] (fun _ _ => True) (get : Rule Cursor) := by
  intro ys s hs a s' heq
  cases heq
  exact ⟨[], trivial, hs⟩

namespace Reads

variable {α : Type} {j : Nat} {P : α → List Head → Prop} {p : Rule α}

theorem many (h : Reads j j [] P p) : Reads j j [] (All P) (Rule.many p) :=
  reads_get.skip fun _ => h.manyUpTo _

theorem many1 (h : Reads j j [] P p) : Reads j j [] (All P) (Rule.many1 p) :=
  h.bind fun _ _ ha => h.many.bind fun _ _ has => .pure (.cons ha has)

end Reads

theorem opens_take : Opens (fun t _ => t.Proper) take := by
  intro ys s hs a s' heq
  obtain ⟨rest, left, last⟩ := s
  cases rest with
  | nil => cases heq
  | cons t ts =>
    cases heq
    exact ⟨[], hs.tokens _ List.mem_cons_self, hs.take⟩

theorem opens_satisfy (p : Token → Bool) : Opens (fun t _ => t.Proper ∧ p t = true) (satisfy p) :=
  opens_take.learn fun _ _ ht => .ite (fun hp => .pure ⟨ht, hp⟩) fun _ => .failure

theorem opens_mark (text : String) : Opens (fun _ _ => True) (mark text) :=
  (opens_satisfy _).mono fun _ _ _ => trivial

theorem keeps_take : Keeps take := opens_take.yields.keeps

theorem keeps_satisfy (p : Token → Bool) : Keeps (satisfy p) := (opens_satisfy p).yields.keeps

theorem keeps_mark (text : String) : Keeps (mark text) := keeps_satisfy _

theorem keeps_keyword (word : String) : Keeps (keyword word) := keeps_satisfy _

theorem yields_anyWord : Yields (fun t _ => IsWord t.text) anyWord :=
  (opens_satisfy _).yields.mono fun _ _ ht => ht.1.word (of_decide_eq_true ht.2)

theorem keeps_nameBut (taken : List String) : Keeps (nameBut taken) := keeps_satisfy _

section Ahead

variable {j : Nat}

theorem reads_ahead : Reads j j [] (fun _ _ => True) ahead := reads_get.skip fun _ => .pure trivial

theorem reads_isAhead (p : Token → Bool) : Reads j j [] (fun _ _ => True) (isAhead p) :=
  reads_ahead.skip fun
    | some _ => .pure trivial
    | none => .pure trivial

theorem reads_here : Reads j j [] (fun _ _ => True) here := by
  refine reads_get.skip fun s => ?_
  split
  · exact .pure trivial
  · exact .pure trivial

theorem reads_spanFrom (start : Mark) :
    Reads j j [] (fun span _ => span.startByte = start.byte) (spanFrom start) :=
  reads_get.skip fun _ => .pure rfl

theorem reads_textFrom (start : Mark) : Reads j j [] (fun _ _ => True) (textFrom start) :=
  reads_get.skip fun _ => .pure trivial

end Ahead

namespace Reads

variable {α : Type} {P : α → List Head → Prop} {p : Rule α}

theorem sepBy1 (h : Yields P p) (separator : String) : YieldsAll P (Rule.sepBy1 separator p) :=
  h.bind fun _ _ ha => ((keeps_mark separator).skip fun _ => h).many.bind fun _ _ has =>
    .pure (.cons ha has)

theorem sepBy (h : Yields P p) (separator : String) : YieldsAll P (Rule.sepBy separator p) :=
  (h.sepBy1 separator).orElse (.pure trivial)

theorem between (h : Yields P p) (opening closing : String) : Opens P (Rule.between opening closing p) :=
  (opens_mark opening).skip fun _ => h.bind fun _ _ ha => (keeps_mark closing).skip fun _ => .pure ha

end Reads

end Rule

end LevelGuard.Java
