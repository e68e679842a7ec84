import LevelGuard.Data.Basic
import LevelGuard.Permission.Parse

/-!
# The grammar of permission expressions

A text is an expression if it splits into tokens, by longest match and with blanks around
them, that the grammar derives:

    disjunction := conjunction ('||' conjunction)*
    conjunction := exclusion ('&&' exclusion)*
    exclusion   := primary ('^' primary)*
    primary     := NAME | '(' disjunction ')'

Reading a text succeeds exactly then, and gives the tree of the derivation. A rule that
reads off the front of the tokens stops before a token that cannot continue it, and with
this said, what it reads and what the grammar derives are the same: one statement about
chains of operands, used for three rules, and one about parentheses.
-/
namespace LevelGuard

namespace Permission

namespace Token

/-- A name begins with a letter or an underscore and goes on with letters, digits,
underscores and points. All marks are tokens. -/
def Proper : Token → Prop
  | .name text => ∃ c cs, text.toList = c :: cs ∧ isNameStart c = true ∧
      ∀ d ∈ cs, isNameChar d = true
  | _ => True

/-- No longer token begins the text that the token and the rest make. -/
def Longest (t : Token) (rest : List Char) : Prop :=
  ∀ t' : Token, t'.Proper → t'.text.toList <+: t.text.toList ++ rest →
    t'.text.toList.length ≤ t.text.toList.length

/-- A text consists of the tokens, each the longest at its place, and of blanks. -/
inductive Splits : List Char → List Token → Prop
  | nil {blanks : List Char} (hblank : ∀ c ∈ blanks, Text.isBlank c = true) : Splits blanks []
  | cons {blanks rest : List Char} {t : Token} {ts : List Token}
      (hblank : ∀ c ∈ blanks, Text.isBlank c = true) (proper : t.Proper)
      (longest : t.Longest rest) (tail : Splits rest ts) :
      Splits (blanks ++ (t.text.toList ++ rest)) (t :: ts)

theorem isNameStart_iff {c : Char} : isNameStart c = true ↔
    (65 ≤ c.toNat ∧ c.toNat ≤ 90 ∨ 97 ≤ c.toNat ∧ c.toNat ≤ 122) ∨ c = '_' := by
  have halpha : c.isAlpha = (decide (c.val ≥ 'A'.val ∧ c.val ≤ 'Z'.val) ||
      (decide (c.val ≥ 'a'.val) && decide (c.val ≤ 'z'.val))) := rfl
  simp only [isNameStart, halpha, Bool.or_eq_true, beq_iff_eq, Bool.and_eq_true,
    decide_eq_true_eq, UInt32.le_iff_toNat_le, ge_iff_le]
  exact Iff.rfl

theorem isBlank_of_isNameStart {c : Char} (h : isNameStart c = true) : Text.isBlank c = false := by
  rcases isNameStart_iff.mp h with h | rfl
  · simp only [Text.isBlank, Bool.or_eq_false_iff, Bool.and_eq_false_iff, beq_eq_false_iff_ne,
      decide_eq_false_iff_not]
    omega
  · decide

variable {t t' : Token} {c : Char} {cs rest : List Char} {ts : List Token}

/-- A token begins with a character that is not blank. -/
theorem Proper.exists_text (h : t.Proper) : ∃ c cs, t.text.toList = c :: cs ∧
    Text.isBlank c = false := by
  cases t with
  | name text =>
    obtain ⟨c, cs, htext, hstart, -⟩ := h
    exact ⟨c, cs, htext, isBlank_of_isNameStart hstart⟩
  | _ => exact ⟨_, _, rfl, by decide⟩

/-- The longest run of characters that go on a name. -/
theorem prefix_takeWhile {p : Char → Bool} {run : List Char} (h : run <+: cs)
    (hrun : ∀ d ∈ run, p d = true) : run <+: cs.takeWhile p := by
  obtain ⟨tail, rfl⟩ := h
  rw [List.takeWhile_append_of_pos hrun]
  exact List.prefix_append ..

theorem longest_mark (hmark : ∀ text, t ≠ .name text) : t.Longest rest := by
  intro t' hproper hprefix
  cases t' with
  | name text =>
    obtain ⟨c, cs, htext, hstart, -⟩ := hproper
    rw [Token.text, htext] at hprefix
    cases t with
    | name text => exact absurd rfl (hmark text)
    | _ =>
      obtain ⟨rfl, -⟩ := List.cons_prefix_cons.mp hprefix
      exact absurd hstart (by decide)
  | _ =>
    cases t with
    | name text => exact absurd rfl (hmark text)
    | _ => simp_all [text]

theorem longest_name (hstart : isNameStart c = true) (hcs : ∀ d ∈ cs, isNameChar d = true)
    (hrest : ∀ d, rest.head? = some d → isNameChar d = false) :
    (name (String.ofList (c :: cs))).Longest rest := by
  intro t' hproper hprefix
  simp only [text, String.toList_ofList, List.length_cons, List.cons_append] at hprefix ⊢
  cases t' with
  | name text =>
    obtain ⟨c', cs', htext, -, hcs'⟩ := hproper
    rw [htext] at hprefix ⊢
    have hrun := prefix_takeWhile (List.cons_prefix_cons.mp hprefix).2 hcs'
    rw [takeWhile_append_eq hcs hrest] at hrun
    exact Nat.succ_le_succ hrun.length_le
  | _ =>
    obtain ⟨rfl, -⟩ := List.cons_prefix_cons.mp hprefix
    exact absurd hstart (by decide)

/-- A name that could be longer is not the longest. -/
theorem Longest.head? {text : String} (hproper : (name text).Proper)
    (h : (name text).Longest rest) : ∀ d, rest.head? = some d → isNameChar d = false := by
  intro d hd
  obtain ⟨c, cs, htext, hstart, hcs⟩ := hproper
  obtain ⟨rest, rfl⟩ : ∃ tail, rest = d :: tail := by
    cases rest with
    | nil => nomatch hd
    | cons e tail => exact ⟨tail, by rw [Option.some.inj hd]⟩
  refine Bool.eq_false_iff.mpr fun hname => ?_
  have hlonger : (name (String.ofList (c :: (cs ++ [d])))).Proper := by
    refine ⟨c, cs ++ [d], String.toList_ofList, hstart, fun x hx => ?_⟩
    rcases List.mem_append.mp hx with hx | hx
    · exact hcs x hx
    · exact List.mem_singleton.mp hx ▸ hname
  have hle := h _ hlonger (by simp [Token.text, htext])
  simp only [Token.text, htext, String.toList_ofList, List.length_cons, List.length_append,
    List.length_nil] at hle
  omega

theorem of_next? (h : next? cs = some (t, rest)) :
    t.Proper ∧ t.Longest rest ∧ cs = t.text.toList ++ rest := by
  unfold next? at h
  split at h
  case h_6 c cs _ _ _ _ _ =>
    obtain ⟨hstart, h⟩ := Option.ite_none_right_eq_some.mp h
    cases h
    have hrun : ∀ d ∈ cs.takeWhile isNameChar, isNameChar d = true :=
      List.all_eq_true.mp List.all_takeWhile
    refine ⟨⟨c, _, String.toList_ofList, hstart, hrun⟩, longest_name hstart hrun ?_, ?_⟩
    · intro d hd
      have hnot := List.head?_dropWhile_not isNameChar cs
      rw [hd] at hnot
      exact hnot
    · simp [text]
  case h_7 => nomatch h
  all_goals
    cases h
    exact ⟨trivial, longest_mark nofun, rfl⟩

theorem next?_of_isNameStart (h : isNameStart c = true) (cs : List Char) :
    next? (c :: cs) =
      some (.name (String.ofList (c :: cs.takeWhile isNameChar)), cs.dropWhile isNameChar) := by
  unfold next?
  split
  case h_6 hcons =>
    cases hcons
    exact if_pos h
  case h_7 hcons => nomatch hcons
  all_goals
    next hcons =>
    cases hcons
    exact absurd h (by decide)

theorem next?_text (hproper : t.Proper) (h : t.Longest rest) :
    next? (t.text.toList ++ rest) = some (t, rest) := by
  cases t with
  | name text =>
    have hrest := h.head? hproper
    obtain ⟨c, cs, htext, hstart, hcs⟩ := hproper
    rw [Token.text, htext, List.cons_append, next?_of_isNameStart hstart,
      takeWhile_append_eq hcs hrest, dropWhile_append_eq hcs hrest, ← htext,
      String.ofList_toList]
  | _ => rfl

theorem trimStart_text (hproper : t.Proper) {blanks : List Char}
    (hblank : ∀ c ∈ blanks, Text.isBlank c = true) (rest : List Char) :
    Text.trimStart (blanks ++ (t.text.toList ++ rest)) = t.text.toList ++ rest := by
  obtain ⟨c, cs, htext, hc⟩ := hproper.exists_text
  refine dropWhile_append_eq hblank ?_
  rw [htext]
  rintro _ ⟨⟩
  exact hc

/-- What is left when the blanks in front are taken off. -/
theorem exists_blanks (cs : List Char) : ∃ blanks, cs = blanks ++ Text.trimStart cs ∧
    ∀ c ∈ blanks, Text.isBlank c = true :=
  ⟨cs.takeWhile Text.isBlank, (List.takeWhile_append_dropWhile ..).symm,
    List.all_eq_true.mp List.all_takeWhile⟩

/-- A text splits if nothing but blanks is in it, or else a token and a text that splits. -/
theorem splits_iff : Splits cs ts ↔ Text.trimStart cs = [] ∧ ts = [] ∨
    ∃ t rest ts', next? (Text.trimStart cs) = some (t, rest) ∧ Splits rest ts' ∧ ts = t :: ts' := by
  constructor
  · intro h
    cases h with
    | nil hblank =>
      refine .inl ⟨?_, rfl⟩
      have hall : (cs ++ []).dropWhile Text.isBlank = [].dropWhile Text.isBlank :=
        List.dropWhile_append_of_pos hblank
      rwa [List.append_nil] at hall
    | cons hblank proper longest tail =>
      refine .inr ⟨_, _, _, ?_, tail, rfl⟩
      rw [trimStart_text proper hblank, next?_text proper longest]
  · obtain ⟨blanks, hcs, hblank⟩ := exists_blanks cs
    rintro (⟨hnone, rfl⟩ | ⟨t, rest, ts', hnext, htail, rfl⟩)
    · rw [hcs, hnone, List.append_nil]
      exact .nil hblank
    · obtain ⟨proper, longest, htext⟩ := of_next? hnext
      rw [hcs, htext]
      exact .cons hblank proper longest htail

theorem readAll_succ_eq_ok_iff {input : String} {bound : Nat} :
    readAll input (bound + 1) cs = .ok ts ↔ Text.trimStart cs = [] ∧ ts = [] ∨
      ∃ t rest ts', next? (Text.trimStart cs) = some (t, rest) ∧
        readAll input bound rest = .ok ts' ∧ ts = t :: ts' := by
  rw [readAll]
  cases hcs : Text.trimStart cs with
  | nil => simp [next?, eq_comm]
  | cons c rest =>
    cases hnext : next? (c :: rest) with
    | none => simp [hnext]
    | some next =>
      obtain ⟨t, tail⟩ := next
      cases htail : readAll input bound tail with
      | error e => simp [hnext, htail]
      | ok ts' =>
        simp only [hnext, htail, Except.ok.injEq, reduceCtorEq, false_and, false_or]
        constructor
        · rintro rfl
          exact ⟨t, tail, ts', rfl, htail, rfl⟩
        · rintro ⟨_, _, ts₁, ⟨⟩, hread, rfl⟩
          rw [Except.ok.inj (htail.symm.trans hread)]

/-- The tokens that are read are those that the text splits into. -/
theorem readAll_eq_ok_iff {input : String} {bound : Nat} (h : cs.length ≤ bound) :
    readAll input bound cs = .ok ts ↔ Splits cs ts := by
  induction bound generalizing cs ts with
  | zero =>
    obtain rfl : cs = [] := List.eq_nil_of_length_eq_zero (Nat.le_zero.mp h)
    rw [readAll, splits_iff]
    simp [Text.trimStart, next?, eq_comm]
  | succ bound ih =>
    rw [readAll_succ_eq_ok_iff, splits_iff]
    refine or_congr_right (exists_congr fun t => exists_congr fun rest =>
      exists_congr fun ts' => ?_)
    refine and_congr_right fun hnext => and_congr_left fun _ => ih ?_
    obtain ⟨blanks, hcs, -⟩ := exists_blanks cs
    obtain ⟨proper, -, htext⟩ := of_next? hnext
    obtain ⟨c, tail, hc, -⟩ := proper.exists_text
    have hlength := congrArg List.length hcs
    simp only [htext, hc, List.length_append, List.length_cons] at hlength
    omega

end Token

namespace Expr

/-- The rules of the grammar. -/
inductive Phrase where
  | disjunction
  | conjunction
  | exclusion
  | primary

mutual

/-- The tokens are a phrase with the tree. -/
inductive Derives : Phrase → List Token → Expr → Prop
  | one_disjunct {ts : List Token} {e : Expr} (h : Operands .or .conjunction ts e []) :
      Derives .disjunction ts e
  | disjunction {ts : List Token} {e e' : Expr} {es : List Expr}
      (h : Operands .or .conjunction ts e (e' :: es)) :
      Derives .disjunction ts (.anyOf (e :: e' :: es))
  | one_conjunct {ts : List Token} {e : Expr} (h : Operands .and .exclusion ts e []) :
      Derives .conjunction ts e
  | conjunction {ts : List Token} {e e' : Expr} {es : List Expr}
      (h : Operands .and .exclusion ts e (e' :: es)) :
      Derives .conjunction ts (.allOf (e :: e' :: es))
  | exclusion {ts : List Token} {e : Expr} {es : List Expr} (h : Operands .xor .primary ts e es) :
      Derives .exclusion ts (es.foldl .xor e)
  | name (text : String) : Derives .primary [.name text] (.single text)
  | parentheses {ts : List Token} {e : Expr} (h : Derives .disjunction ts e) :
      Derives .primary (.opening :: (ts ++ [.closing])) e

/-- The tokens are phrases with the mark between them, the first of which has the tree `e`
and the others the trees `es`. -/
inductive Operands : Token → Phrase → List Token → Expr → List Expr → Prop
  | one {op : Token} {p : Phrase} {ts : List Token} {e : Expr} (h : Derives p ts e) :
      Operands op p ts e []
  | more {op : Token} {p : Phrase} {ts rest : List Token} {e e' : Expr} {es : List Expr}
      (h : Derives p ts e) (hrest : Operands op p rest e' es) :
      Operands op p (ts ++ op :: rest) e (e' :: es)

end

section Grammar

variable {p q : Phrase} {op : Token} {ops ts rest : List Token} {e : Expr} {es : List Expr}

theorem Operands.ne_nil (hp : ∀ ts e, Derives p ts e → ts ≠ []) (h : Operands op p ts e es) :
    ts ≠ [] := by
  cases h with
  | one h => exact hp _ _ h
  | more => simp

theorem Derives.ne_nil (h : Derives p ts e) : ts ≠ [] := by
  have hprimary : ∀ ts e, Derives .primary ts e → ts ≠ [] := by
    intro ts e h
    cases h <;> simp
  have hexclusion : ∀ ts e, Derives .exclusion ts e → ts ≠ [] := by
    rintro ts _ ⟨⟩
    next h => exact h.ne_nil hprimary
  have hconjunction : ∀ ts e, Derives .conjunction ts e → ts ≠ [] := by
    rintro ts _ ⟨⟩
    all_goals next h => exact h.ne_nil hexclusion
  cases p with
  | primary => exact hprimary ts e h
  | exclusion => exact hexclusion ts e h
  | conjunction => exact hconjunction ts e h
  | disjunction =>
    cases h
    all_goals next h => exact h.ne_nil hconjunction

theorem derives_exclusion_iff : Derives .exclusion ts e ↔
    ∃ first others, Operands .xor .primary ts first others ∧ e = others.foldl .xor first := by
  constructor
  · rintro ⟨⟩
    next h => exact ⟨_, _, h, rfl⟩
  · rintro ⟨first, others, h, rfl⟩
    exact .exclusion h

theorem derives_conjunction_iff : Derives .conjunction ts e ↔
    ∃ first others, Operands .and .exclusion ts first others ∧ e = gather .allOf first others := by
  constructor
  · rintro ⟨⟩
    all_goals next h => exact ⟨_, _, h, rfl⟩
  · rintro ⟨first, _ | ⟨second, others⟩, h, rfl⟩
    · exact .one_conjunct h
    · exact .conjunction h

theorem derives_disjunction_iff : Derives .disjunction ts e ↔
    ∃ first others, Operands .or .conjunction ts first others ∧ e = gather .anyOf first others := by
  constructor
  · rintro ⟨⟩
    all_goals next h => exact ⟨_, _, h, rfl⟩
  · rintro ⟨first, _ | ⟨second, others⟩, h, rfl⟩
    · exact .one_disjunct h
    · exact .disjunction h

/-- What is left begins with none of the marks. -/
def Stops (ops rest : List Token) : Prop := ∀ t, rest.head? = some t → t ∉ ops

/-- Off the front of fewer than `bound` tokens the rule reads exactly the phrases that are
followed by none of the marks. -/
def Recognizes (bound : Nat) (p : Phrase) (ops : List Token) (rule : Rule Expr) : Prop :=
  ∀ ts, ts.length < bound → ∀ e rest, rule ts = .ok (e, rest) ↔
    ∃ used, ts = used ++ rest ∧ Derives p used e ∧ Stops ops rest

variable {bound : Nat} {operand : Rule Expr}

/-- One operand is read, and then either there is no mark or the others are. -/
theorem operands_succ_eq_ok_iff {n : Nat} : operands op operand (n + 1) ts = .ok ((e, es), rest) ↔
    ∃ mid, operand ts = .ok (e, mid) ∧
      (es = [] ∧ rest = mid ∧ Stops [op] mid ∨
        ∃ tail e' es', mid = op :: tail ∧ es = e' :: es' ∧
          operands op operand n tail = .ok ((e', es'), rest)) := by
  rw [operands]
  constructor
  · intro h
    obtain ⟨⟨first, mid⟩, hfirst, h⟩ := exists_of_bind_eq_ok h
    cases mid with
    | nil =>
      cases h
      exact ⟨[], hfirst, .inl ⟨rfl, rfl, nofun⟩⟩
    | cons t tail =>
      dsimp only at h
      split at h
      · next hop =>
        obtain ⟨⟨⟨e', es'⟩, rest'⟩, htail, h⟩ := exists_of_bind_eq_ok h
        cases h
        exact ⟨_, hfirst, .inr ⟨tail, e', es', by rw [hop], rfl, htail⟩⟩
      · next hop =>
        cases h
        refine ⟨_, hfirst, .inl ⟨rfl, rfl, ?_⟩⟩
        rintro _ ⟨⟩
        simpa using hop
  · rintro ⟨mid, hfirst, ⟨rfl, rfl, hstop⟩ | ⟨tail, e', es', rfl, rfl, htail⟩⟩
    · rw [hfirst]
      cases rest with
      | nil => rfl
      | cons t tail =>
        have hop : t ≠ op := by simpa using hstop t rfl
        change (if t = op then _ else _) = _
        rw [if_neg hop]
        rfl
    · rw [hfirst]
      change (if op = op then _ else _) = _
      rw [if_pos rfl, htail]
      rfl

theorem stops_cons : Stops (op :: ops) rest ↔ Stops [op] rest ∧ Stops ops rest := by
  simp only [Stops, List.mem_cons, List.not_mem_nil, or_false, not_or]
  exact ⟨fun h => ⟨fun t ht => (h t ht).1, fun t ht => (h t ht).2⟩,
    fun h t ht => ⟨h.1 t ht, h.2 t ht⟩⟩

/-- If operands are read as they are derived, so are chains of them. -/
theorem Recognizes.operands (h : Recognizes bound p ops operand) (hop : op ∉ ops) {n : Nat}
    (hn : ts.length ≤ n) (hbound : ts.length < bound) :
    operands op operand n ts = .ok ((e, es), rest) ↔
      ∃ used, ts = used ++ rest ∧ Operands op p used e es ∧ Stops (op :: ops) rest := by
  induction n generalizing ts e es with
  | zero =>
    obtain rfl : ts = [] := List.eq_nil_of_length_eq_zero (Nat.le_zero.mp hn)
    constructor
    · intro hread
      obtain ⟨⟨first, mid⟩, hfirst, -⟩ := exists_of_bind_eq_ok hread
      obtain ⟨used, hused, hderives, -⟩ := (h [] hbound first mid).mp hfirst
      exact absurd (List.append_eq_nil_iff.mp hused.symm).1 hderives.ne_nil
    · rintro ⟨used, hused, hoperands, -⟩
      exact absurd (List.append_eq_nil_iff.mp hused.symm).1
        (hoperands.ne_nil fun _ _ => Derives.ne_nil)
  | succ n ih =>
    rw [operands_succ_eq_ok_iff]
    constructor
    · rintro ⟨mid, hfirst, hmid⟩
      obtain ⟨used, rfl, hused, hstop⟩ := (h ts hbound e mid).mp hfirst
      rcases hmid with ⟨rfl, rfl, hmark⟩ | ⟨tail, e', es', rfl, rfl, htail⟩
      · exact ⟨used, rfl, .one hused, stops_cons.mpr ⟨hmark, hstop⟩⟩
      · simp only [List.length_append, List.length_cons] at hn hbound
        obtain ⟨others, rfl, hothers, hrest⟩ := (ih (by omega) (by omega)).mp htail
        exact ⟨used ++ op :: others, by simp, .more hused hothers, hrest⟩
    · rintro ⟨used, rfl, hused, hstop⟩
      cases hused with
      | one hused =>
        obtain ⟨hmark, hrest⟩ := stops_cons.mp hstop
        exact ⟨rest, (h _ hbound e rest).mpr ⟨used, rfl, hused, hrest⟩, .inl ⟨rfl, rfl, hmark⟩⟩
      | @more _ _ first others _ e' es' hfirst hothers =>
        have hmark : Stops ops (op :: (others ++ rest)) := by
          rintro _ ⟨⟩
          exact hop
        refine ⟨op :: (others ++ rest), ?_, .inr ⟨others ++ rest, e', es', rfl, rfl, ?_⟩⟩
        · exact (h _ hbound e _).mpr ⟨first, by simp, hfirst, hmark⟩
        · simp only [List.length_append, List.length_cons] at hn hbound
          exact (ih (by simp; omega) (by simp; omega)).mpr ⟨others, rfl, hothers, hstop⟩

theorem Recognizes.chain (h : Recognizes bound p ops operand) (hop : op ∉ ops)
    {join : Expr → List Expr → Expr}
    (hq : ∀ {ts e}, Derives q ts e ↔
      ∃ first others, Operands op p ts first others ∧ e = join first others) :
    Recognizes bound q (op :: ops) (chain op join operand) := by
  intro ts hbound e rest
  constructor
  · intro hread
    obtain ⟨⟨⟨first, others⟩, tail⟩, hoperands, hjoin⟩ := exists_of_bind_eq_ok hread
    cases hjoin
    obtain ⟨used, hused, hderives, hstop⟩ := (h.operands hop (Nat.le_refl _) hbound).mp hoperands
    exact ⟨used, hused, hq.mpr ⟨first, others, hderives, rfl⟩, hstop⟩
  · rintro ⟨used, hused, hderives, hstop⟩
    obtain ⟨first, others, hoperands, rfl⟩ := hq.mp hderives
    rw [Expr.chain, (h.operands hop (Nat.le_refl _) hbound).mpr ⟨used, hused, hoperands, hstop⟩]
    rfl

/-- A name is read, and what is inside of parentheses up to the next closing one. -/
theorem Recognizes.primary {inner : Rule Expr} (h : Recognizes bound .disjunction ops inner)
    (hops : .closing ∉ ops) (input : String) :
    Recognizes (bound + 1) .primary [] (primary input inner) := by
  intro ts hbound e rest
  have hclosing : Stops ops (.closing :: rest) := by
    rintro _ ⟨⟩
    exact hops
  constructor
  · intro hread
    unfold Expr.primary at hread
    split at hread
    · next tail =>
      obtain ⟨⟨e', mid⟩, hinner, hread⟩ := exists_of_bind_eq_ok hread
      split at hread
      · next hmid =>
        cases hmid
        cases hread
        obtain ⟨used, rfl, hderives, -⟩ := (h tail (by simpa using hbound) _ _).mp hinner
        exact ⟨_, by simp, .parentheses hderives, nofun⟩
      · nomatch hread
    · next text tail =>
      cases hread
      exact ⟨[.name text], rfl, .name text, nofun⟩
    · nomatch hread
    · nomatch hread
  · rintro ⟨used, rfl, hderives, -⟩
    cases hderives with
    | name text => rfl
    | @parentheses used _ hderives =>
      have hinner : inner (used ++ .closing :: rest) = .ok (e, .closing :: rest) := by
        refine (h _ ?_ _ _).mpr ⟨used, rfl, hderives, hclosing⟩
        simp only [List.length_append, List.length_cons, List.length_nil] at hbound ⊢
        omega
      rw [List.cons_append, List.append_assoc, List.singleton_append, Expr.primary, hinner]
      rfl

end Grammar

/-- Deeper than a text can nest its parentheses, all disjunctions are read. -/
theorem recognizes_disjunction (input : String) (depth : Nat) :
    Recognizes depth .disjunction [.or, .and, .xor] (disjunction input depth) := by
  induction depth with
  | zero => exact fun ts hbound => absurd hbound (Nat.not_lt_zero _)
  | succ depth ih =>
    have hprimary := ih.primary (by decide) input
    have hexclusion : Recognizes _ .exclusion [.xor] (exclusion input (disjunction input depth)) :=
      hprimary.chain (by decide) derives_exclusion_iff
    have hconjunction :
        Recognizes _ .conjunction [.and, .xor] (conjunction input (disjunction input depth)) :=
      hexclusion.chain (by decide) derives_conjunction_iff
    exact hconjunction.chain (by decide) derives_disjunction_iff

/-- A text is read exactly if it splits into the tokens of a disjunction, with its tree. -/
theorem parse_eq_ok_iff {input : String} {e : Expr} : parse input = .ok e ↔
    ∃ ts, Token.Splits input.toList ts ∧ Derives .disjunction ts e := by
  have hlength : input.toList.length ≤ input.length :=
    Nat.le_of_eq String.length_toList
  unfold parse
  constructor
  · intro h
    obtain ⟨ts, hts, h⟩ := exists_of_bind_eq_ok h
    split at h
    · nomatch h
    · obtain ⟨⟨e', rest⟩, hread, h⟩ := exists_of_bind_eq_ok h
      split at h
      · next heq =>
        cases heq
        cases h
        obtain ⟨used, hused, hderives, -⟩ :=
          (recognizes_disjunction input _ ts (Nat.lt_succ_self _) _ _).mp hread
        rw [List.append_nil] at hused
        exact ⟨ts, (Token.readAll_eq_ok_iff hlength).mp hts, hused ▸ hderives⟩
      · nomatch h
      · nomatch h
  · rintro ⟨ts, hsplits, hderives⟩
    have hread : disjunction input (ts.length + 1) ts = .ok (e, []) :=
      (recognizes_disjunction input _ ts (Nat.lt_succ_self _) _ _).mpr
        ⟨ts, (List.append_nil ts).symm, hderives, nofun⟩
    rw [(Token.readAll_eq_ok_iff hlength).mpr hsplits]
    change (if ts.isEmpty = true then _ else _) = _
    rw [if_neg (by simpa using hderives.ne_nil), hread]
    rfl

/-- Of the three marks `^` binds closest and associates to the left. -/
example : (parse " a^b ^c||d&& (e)").toOption =
    some (.anyOf [.xor (.xor (.single "a") (.single "b")) (.single "c"),
      .allOf [.single "d", .single "e"]]) := by
  decide +kernel

/-- Parts in parentheses with a mark between them. -/
def enclosed (op : Token) (parts : List String) : String :=
  "(" ++ Text.joinWith (" " ++ op.text ++ " ") parts ++ ")"

mutual
def source : Expr → String
  | .single name => name
  | .allOf parts => enclosed .and (sources parts)
  | .anyOf parts => enclosed .or (sources parts)
  | .xor a b => enclosed .xor [source a, source b]
  | .conditional inner => source inner

def sources : List Expr → List String
  | [] => []
  | e :: es => source e :: sources es
end

/-- What can be written: names, and nodes with two parts or more. -/
inductive Writable : Expr → Prop
  | single {name : String} (hname : (Token.name name).Proper) : Writable (.single name)
  | allOf {parts : List Expr} (hlength : 2 ≤ parts.length) (hparts : ∀ e ∈ parts, Writable e) :
      Writable (.allOf parts)
  | anyOf {parts : List Expr} (hlength : 2 ≤ parts.length) (hparts : ∀ e ∈ parts, Writable e) :
      Writable (.anyOf parts)
  | xor {a b : Expr} (ha : Writable a) (hb : Writable b) : Writable (.xor a b)

end Expr

namespace Token

variable {rest : List Char} {ts : List Token}

theorem Splits.blank (h : Splits rest ts) : Splits (' ' :: rest) ts := by
  have hskip : Text.trimStart (' ' :: rest) = Text.trimStart rest := rfl
  rw [splits_iff] at h ⊢
  rwa [hskip]

theorem Splits.token {t : Token} (h : Splits rest ts) (hproper : t.Proper)
    (hlongest : t.Longest rest) : Splits (t.text.toList ++ rest) (t :: ts) := by
  rw [← List.nil_append (_ ++ rest)]
  exact .cons nofun hproper hlongest h

theorem Splits.mark (h : Splits rest ts) (op : Token) (hop : ∀ text, op ≠ .name text) :
    Splits (op.text.toList ++ rest) (op :: ts) := by
  refine h.token ?_ (longest_mark hop)
  cases op with
  | name text => exact absurd rfl (hop text)
  | _ => trivial

/-- The text is made of the tokens wherever no name could go on after it. -/
def Spells (text : List Char) (ts : List Token) : Prop :=
  ∀ rest ts', (∀ c, rest.head? = some c → isNameChar c = false) → Splits rest ts' →
    Splits (text ++ rest) (ts ++ ts')

theorem spells_name {text : String} (h : (name text).Proper) : Spells text.toList [.name text] := by
  intro rest ts' hrest htail
  have hlongest : (name text).Longest rest := by
    obtain ⟨c, cs, htext, hstart, hcs⟩ := h
    have := longest_name hstart hcs hrest
    rwa [← htext, String.ofList_toList] at this
  exact htail.token h hlongest

variable {a b : List Char} {us : List Token}

theorem Spells.append_mark (ha : Spells a ts) (hb : Spells b us) {op : Token}
    (hop : ∀ text, op ≠ .name text) :
    Spells (a ++ (' ' :: (op.text.toList ++ ' ' :: b))) (ts ++ op :: us) := by
  intro rest ts' hrest htail
  have hmark : Splits (' ' :: (op.text.toList ++ ' ' :: (b ++ rest))) (op :: (us ++ ts')) :=
    ((hb rest ts' hrest htail).blank.mark op hop).blank
  have hall := ha _ _ (by rintro _ ⟨⟩; decide) hmark
  simpa using hall

theorem Spells.parentheses (ha : Spells a ts) :
    Spells ('(' :: (a ++ [')'])) (.opening :: (ts ++ [.closing])) := by
  intro rest ts' hrest htail
  have hclosing : Splits (')' :: rest) (.closing :: ts') := htail.mark .closing nofun
  have hinner := ha _ _ (by rintro _ ⟨⟩; decide) hclosing
  have hopening : Splits ('(' :: (a ++ ')' :: rest)) (.opening :: (ts ++ .closing :: ts')) :=
    hinner.mark .opening nofun
  simpa using hopening

end Token

namespace Expr

open Token

variable {ts : List Token} {e : Expr} {es : List Expr}

/-- The written form is a primary phrase with the tree of the expression. -/
def ReadsBack (e : Expr) : Prop := ∃ ts, Derives .primary ts e ∧ Spells e.source.toList ts

/-- Parts that read back are operands where marks are written between them. -/
theorem exists_operands (op : Token) (hop : ∀ text, op ≠ .name text) {p : Phrase}
    (hp : ∀ {ts e}, Derives .primary ts e → Derives p ts e) (he : e.ReadsBack)
    (hes : ∀ e ∈ es, e.ReadsBack) :
    ∃ ts, Operands op p ts e es ∧
      Spells (Text.joinWith (" " ++ op.text ++ " ") (sources (e :: es))).toList ts := by
  obtain ⟨ts, hderives, hspells⟩ := he
  induction es generalizing e ts with
  | nil => exact ⟨ts, .one (hp hderives), hspells⟩
  | cons e' es ih =>
    obtain ⟨ts', hderives', hspells'⟩ := hes e' List.mem_cons_self
    obtain ⟨us, hus, hrest⟩ :=
      ih (fun x hx => hes x (List.mem_cons_of_mem _ hx)) ts' hderives' hspells'
    refine ⟨ts ++ op :: us, .more (hp hderives) hus, ?_⟩
    have hall := hspells.append_mark hrest hop
    simpa [sources, Text.joinWith] using hall

theorem toList_enclosed (op : Token) (parts : List String) : (enclosed op parts).toList =
    '(' :: ((Text.joinWith (" " ++ op.text ++ " ") parts).toList ++ [')']) := by
  simp [enclosed]

theorem Derives.toExclusion (h : Derives .primary ts e) : Derives .exclusion ts e :=
  .exclusion (.one h)

theorem Derives.toConjunction (h : Derives .primary ts e) : Derives .conjunction ts e :=
  .one_conjunct (.one h.toExclusion)

theorem Derives.toDisjunction (h : Derives .conjunction ts e) : Derives .disjunction ts e :=
  .one_disjunct (.one h)

theorem exists_cons_cons {parts : List Expr} (h : 2 ≤ parts.length) :
    ∃ e e' es, parts = e :: e' :: es :=
  match parts, h with
  | e :: e' :: es, _ => ⟨e, e', es, rfl⟩

theorem readsBack_of_enclosed {op : Token} {parts : List String}
    (hsource : e.source = enclosed op parts) (hderives : Derives .disjunction ts e)
    (hspells : Spells (Text.joinWith (" " ++ op.text ++ " ") parts).toList ts) : e.ReadsBack := by
  refine ⟨_, .parentheses hderives, ?_⟩
  rw [hsource, toList_enclosed]
  exact hspells.parentheses

theorem Writable.readsBack (h : e.Writable) : e.ReadsBack := by
  induction h with
  | single hname => exact ⟨_, .name _, spells_name hname⟩
  | allOf hlength _ ih =>
    obtain ⟨e, e', es, rfl⟩ := exists_cons_cons hlength
    obtain ⟨ts, hderives, hspells⟩ := exists_operands .and nofun Derives.toExclusion
      (ih e List.mem_cons_self) fun x hx => ih x (List.mem_cons_of_mem _ hx)
    exact readsBack_of_enclosed (by rw [source]) (Derives.conjunction hderives).toDisjunction
      hspells
  | anyOf hlength _ ih =>
    obtain ⟨e, e', es, rfl⟩ := exists_cons_cons hlength
    obtain ⟨ts, hderives, hspells⟩ := exists_operands .or nofun Derives.toConjunction
      (ih e List.mem_cons_self) fun x hx => ih x (List.mem_cons_of_mem _ hx)
    exact readsBack_of_enclosed (by rw [source]) (.disjunction hderives) hspells
  | @xor a b _ _ iha ihb =>
    have hothers : ∀ e ∈ [b], e.ReadsBack := by
      intro e he
      exact List.mem_singleton.mp he ▸ ihb
    obtain ⟨ts, hderives, hspells⟩ := exists_operands .xor nofun id iha hothers
    have hexclusion : Derives .exclusion ts (.xor a b) := .exclusion hderives
    exact readsBack_of_enclosed (by rw [source]; rfl)
      (Derives.one_conjunct (.one hexclusion)).toDisjunction hspells

/-- A text is read exactly if it splits, by longest match and apart from blanks, into tokens
that the grammar derives, and the result is the tree of the derivation. So what can be
written with all parentheses is read back. -/
theorem parse_accepts_grammar :
    (∀ (input : String) (e : Expr), parse input = .ok e ↔
      ∃ ts, Token.Splits input.toList ts ∧ Derives .disjunction ts e) ∧
    ∀ e : Expr, e.Writable → parse e.source = .ok e := by
  refine ⟨fun input e => parse_eq_ok_iff, fun e he => parse_eq_ok_iff.mpr ?_⟩
  obtain ⟨ts, hderives, hspells⟩ := he.readsBack
  have hsplits := hspells [] [] nofun (.nil nofun)
  rw [List.append_nil, List.append_nil] at hsplits
  exact ⟨ts, hsplits, hderives.toConjunction.toDisjunction⟩

/-- Names, a pair and nodes of two, written with all parentheses. -/
def nestedSample : Expr :=
  .anyOf [.allOf [.single "A", .xor (.single "B.c") (.single "_d")], .single "E"]

theorem parse_accepts_grammar_nested : nestedSample.source = "((A && (B.c ^ _d)) || E)" ∧
    parse nestedSample.source = .ok nestedSample := by
  have hA : (Expr.single "A").Writable := .single ⟨'A', [], rfl, rfl, nofun⟩
  have hB : (Expr.single "B.c").Writable := .single ⟨'B', ['.', 'c'], rfl, rfl,
    List.forall_mem_cons.mpr ⟨rfl, List.forall_mem_singleton.mpr rfl⟩⟩
  have hd : (Expr.single "_d").Writable := .single ⟨'_', ['d'], rfl, rfl,
    List.forall_mem_singleton.mpr rfl⟩
  have hE : (Expr.single "E").Writable := .single ⟨'E', [], rfl, rfl, nofun⟩
  have hinner : (Expr.allOf [.single "A", .xor (.single "B.c") (.single "_d")]).Writable :=
    .allOf (by decide) (List.forall_mem_cons.mpr ⟨hA, List.forall_mem_singleton.mpr (.xor hB hd)⟩)
  have houter : nestedSample.Writable :=
    .anyOf (by decide) (List.forall_mem_cons.mpr ⟨hinner, List.forall_mem_singleton.mpr hE⟩)
  exact ⟨by decide, parse_accepts_grammar.2 nestedSample houter⟩

end Expr
end Permission
end LevelGuard
