import LevelGuard.Proofs.Conditions
import LevelGuard.Proofs.DeviceStates

/-!
# What conditions evaluate to

The value of a condition at a moment of a run, told from its syntax and without guards. An
operand of a comparison is a number if it is a literal, names the device's level, a release
of the platform or an outcome of permission checks, or checks a permission; the connectives
evaluate from the left and stop early. What else a program may compute is left open.

Recognition is truthful: the guard of a condition can have every value that the condition
evaluates to, and it has the value of the condition where nothing in it is unknown.
-/
namespace LevelGuard

namespace Text

theorem endsWith_iff {s tail : String} : endsWith s tail = true ↔ ∃ lead, s = lead ++ tail := by
  rw [endsWith, stripEnd?, Option.isSome_map, Option.isSome_iff_exists]
  constructor
  · rintro ⟨rest, hrest⟩
    refine ⟨String.ofList rest.reverse, ?_⟩
    have hs := congrArg List.reverse (stripStart?_eq_some.mp hrest)
    apply String.ext
    simpa using hs
  · rintro ⟨lead, rfl⟩
    exact ⟨lead.toList.reverse, stripStart?_eq_some.mpr (by simp)⟩

end Text

/-- No part of the guard is unknown. -/
inductive Guard.Known : Guard → Prop
  | atLeast (v : Level) : Known (.atLeast v)
  | atMost (v : Level) : Known (.atMost v)
  | exactly (v : Level) : Known (.exactly v)
  | held (p : String) : Known (.held p)
  | excluded (e : String) : Known (.excluded e)
  | and {parts : List Guard} : (∀ g ∈ parts, Known g) → Known (.and parts)
  | or {parts : List Guard} : (∀ g ∈ parts, Known g) → Known (.or parts)
  | not {g : Guard} : Known g → Known (.not g)

namespace Guard

theorem Known.of_negate {g : Guard} (h : g.negate.Known) : g.Known := by
  cases g with
  | not inner => exact .not h
  | unknown => cases h
  | _ =>
    cases h with
    | not h => exact h

/-- Both operands of a connective are recognised if nothing in them is unknown. -/
theorem Known.pair {l r : Option Guard}
    (h : ∀ g ∈ [l.getD .unknown, r.getD .unknown], g.Known) :
    ∃ gl gr, l = some gl ∧ r = some gr ∧ gl.Known ∧ gr.Known := by
  obtain ⟨hl, hr⟩ := List.forall_mem_cons.mp h
  cases l with
  | none => cases hl
  | some gl =>
    cases r with
    | none => cases List.forall_mem_singleton.mp hr
    | some gr => exact ⟨gl, gr, rfl, rfl, hl, List.forall_mem_singleton.mp hr⟩

theorem evalAll_congr {leaf : Guard → Leaves → Bool} {gs : List Guard}
    (h : ∀ g ∈ gs, ∀ u u', g.eval leaf u = g.eval leaf u') (u u' : Leaves) (position : Nat) :
    evalAll leaf u position gs = evalAll leaf u' position gs := by
  induction gs generalizing position with
  | nil => rfl
  | cons g gs ih =>
    obtain ⟨hg, hgs⟩ := List.forall_mem_cons.mp h
    rw [evalAll, evalAll, hg _ (u'.inside position), ih hgs]

theorem evalSome_congr {leaf : Guard → Leaves → Bool} {gs : List Guard}
    (h : ∀ g ∈ gs, ∀ u u', g.eval leaf u = g.eval leaf u') (u u' : Leaves) (position : Nat) :
    evalSome leaf u position gs = evalSome leaf u' position gs := by
  induction gs generalizing position with
  | nil => rfl
  | cons g gs ih =>
    obtain ⟨hg, hgs⟩ := List.forall_mem_cons.mp h
    rw [evalSome, evalSome, hg _ (u'.inside position), ih hgs]

/-- The value of a guard does not depend on leaves that it does not have. -/
theorem Known.value_eq {s : DeviceState} {g : Guard} (h : g.Known) (u u' : Leaves) :
    g.value s u = g.value s u' := by
  unfold value
  induction h generalizing u u' with
  | atLeast | atMost | exactly | held | excluded => rfl
  | not _ ih => exact congrArg (!·) (ih _ _)
  | and _ ih => exact evalAll_congr ih u u' 0
  | or _ ih => exact evalSome_congr ih u u' 0

variable {s : DeviceState}

theorem exists_value_negate {g : Guard} {t : Bool} (h : ∃ u, g.value s u = t) :
    ∃ u, g.negate.value s u = !t :=
  exists_eval_negate (fun _ => rfl) h

/-- The values of the leaves of two parts are independent. -/
theorem exists_values {g h : Guard} {x y : Bool} (hg : ∃ u, g.value s u = x)
    (hh : ∃ u, h.value s u = y) :
    (∃ u, (Guard.and [g, h]).value s u = (x && y)) ∧
      ∃ u, (Guard.or [g, h]).value s u = (x || y) := by
  obtain ⟨u, rfl⟩ := hg
  obtain ⟨u', rfl⟩ := hh
  let both : Leaves := fun place =>
    match place with
    | 0 :: place => u place
    | _ :: place => u' place
    | [] => false
  have hleft : both.inside 0 = u := rfl
  have hright : both.inside (0 + 1) = u' := rfl
  refine ⟨⟨both, ?_⟩, both, ?_⟩
  · simp only [value, eval, evalAll, hleft, hright, Bool.and_true]
  · simp only [value, eval, evalSome, hleft, hright, Bool.or_false]

end Guard

namespace Flow

open Java Recognizer

/-- The device's level, by its simple name where that is imported, or as a member of a class
with the name that it has on the platform. -/
def Recognizer.Accesses (R : Recognizer) (e : Expr) : Prop :=
  ∃ path, e.dottedName? = some path ∧ (path = "SDK_INT" ∧ R.levelImported = true ∨
    path = "VERSION.SDK_INT" ∨ ∃ lead, path = lead ++ ".VERSION.SDK_INT")

/-- The symbolic name of a release, alone or as a member of the class of version codes. -/
inductive NamesRelease : Expr → Level → Prop where
  | simple {s : Span} {n : String} {v : Level} :
      Platform.codenameLevel? n = some v → NamesRelease (.name s n) v
  | member {s : Span} {target : Expr} {owner n : String} {v : Level} :
      target.dottedName? = some owner →
      (owner = "VERSION_CODES" ∨ ∃ lead, owner = lead ++ ".VERSION_CODES") →
      Platform.codenameLevel? n = some v → NamesRelease (.fieldAccess s target n) v

/-- A call that checks a permission: the first that its arguments name. -/
inductive ChecksPermission : Expr → String → Prop where
  | call {s : Span} {target : Option Expr} {name permission : String} {before after : List Expr}
      {arg : Expr} : name ∈ permissionChecks → (∀ a ∈ before, permissionName? a = none) →
      permissionName? arg = some permission →
      ChecksPermission (.call s target name (before ++ arg :: after)) permission

/-- A device state at a moment of a run, and what may be computed there. -/
structure Moment extends DeviceState where
  /-- The values of the variables that can be read as conditions. -/
  reads : String → Bool
  /-- The number that an expression of no known meaning is, if it is one. -/
  number : Expr → Option Int
  /-- The truth value of an expression of no known meaning, if it has one. -/
  truth : Expr → Option Bool

namespace Moment

/-- A name that stands for a number. -/
inductive Names (M : Moment) (R : Recognizer) : Expr → Int → Prop where
  | level {e : Expr} : R.Accesses e → Names M R e M.level
  | release {e : Expr} {v : Level} : NamesRelease e v → Names M R e v
  | granted {e : Expr} : e.lastName? = some "PERMISSION_GRANTED" → Names M R e 0
  | denied {e : Expr} : e.lastName? = some "PERMISSION_DENIED" → Names M R e (-1)

/-- A number as it is written. -/
def IsNumeral : Expr → Prop
  | .literal .. | .unary _ .neg _ => True
  | _ => False

/-- The operand of a comparison is this number. -/
inductive Denotes (M : Moment) (R : Recognizer) : Expr → Int → Prop where
  | literal {s : Span} {n : Nat} : Denotes M R (.literal s (.int n)) n
  | neg {s : Span} {e : Expr} {k : Int} : Denotes M R e k → Denotes M R (.unary s .neg e) (-k)
  | named {e : Expr} {k : Int} : M.Names R e k → Denotes M R e k
  | check {e : Expr} {p : String} : ChecksPermission e p → Denotes M R e (outcome (M.granted p))
  | other {e : Expr} {k : Int} : ¬ IsNumeral e → (∀ k, ¬ M.Names R e k) →
      (∀ p, ¬ ChecksPermission e p) → M.number e = some k → Denotes M R e k

/-- The expression has a meaning as a condition. A comparison has one for numbers only. -/
def HasMeaning (M : Moment) (R : Recognizer) : Expr → Prop
  | .unary _ .not _ | .binary _ .and _ _ | .binary _ .or _ _ | .name .. | .conditional .. => True
  | .literal _ (.bool _) => True
  | .binary _ _ lhs rhs => ∃ m n, M.Denotes R lhs m ∧ M.Denotes R rhs n
  | _ => False

/-- The condition has this value. -/
inductive Evaluates (M : Moment) (R : Recognizer) : Expr → Bool → Prop where
  | not {s : Span} {e : Expr} {b : Bool} : Evaluates M R e b → Evaluates M R (.unary s .not e) (!b)
  | andFalse {s : Span} {lhs rhs : Expr} :
      Evaluates M R lhs false → Evaluates M R (.binary s .and lhs rhs) false
  | andTrue {s : Span} {lhs rhs : Expr} {b : Bool} : Evaluates M R lhs true →
      Evaluates M R rhs b → Evaluates M R (.binary s .and lhs rhs) b
  | orTrue {s : Span} {lhs rhs : Expr} :
      Evaluates M R lhs true → Evaluates M R (.binary s .or lhs rhs) true
  | orFalse {s : Span} {lhs rhs : Expr} {b : Bool} : Evaluates M R lhs false →
      Evaluates M R rhs b → Evaluates M R (.binary s .or lhs rhs) b
  | compare {s : Span} {op : BinaryOp} {lhs rhs : Expr} {m n : Int} {b : Bool} :
      M.Denotes R lhs m → M.Denotes R rhs n → compare? op m n = some b →
      Evaluates M R (.binary s op lhs rhs) b
  | reads {s : Span} {n : String} : Evaluates M R (.name s n) (M.reads n)
  | literal {s : Span} {b : Bool} : Evaluates M R (.literal s (.bool b)) b
  | conditional {s : Span} {cond yes no : Expr} {t b : Bool} : Evaluates M R cond t →
      Evaluates M R (if t then yes else no) b → Evaluates M R (.conditional s cond yes no) b
  | other {e : Expr} {b : Bool} : ¬ M.HasMeaning R e → M.truth e = some b → Evaluates M R e b

/-- The device has a level that there is, and each variable of the recogniser has a value of
its guard. -/
structure Faithful (M : Moment) (R : Recognizer) : Prop where
  level_pos : 1 ≤ M.level
  level_le : M.level ≤ 2147483647
  reads : ∀ n g, R.flags.get? n = some g → ∃ u, g.value M.toDeviceState u = M.reads n

variable {M : Moment} {R : Recognizer}

/-- The number that a name other than that of the level stands for. -/
def constant? (n : String) : Option Int :=
  if n = "PERMISSION_GRANTED" then some 0
  else if n = "PERMISSION_DENIED" then some (-1)
  else (Platform.codenameLevel? n).map Int.ofNat

def constantNames : List String :=
  "PERMISSION_GRANTED" :: "PERMISSION_DENIED" :: "CUR_DEVELOPMENT" :: Platform.releases

theorem mem_constantNames {n : String} {k : Int} (h : constant? n = some k) :
    n ∈ constantNames := by
  unfold constant? at h
  split at h
  · next hn => simp [constantNames, hn]
  split at h
  · next hn => simp [constantNames, hn]
  · obtain ⟨v, hv, -⟩ := Option.map_eq_some_iff.mp h
    unfold Platform.codenameLevel? at hv
    split at hv
    · next hn => simp [constantNames, hn]
    · obtain ⟨i, hi, -⟩ := Option.map_eq_some_iff.mp hv
      obtain ⟨hlt, hn, -⟩ := List.findIdx?_eq_some_iff_getElem.mp hi
      have hmem : n ∈ Platform.releases := by
        rw [← of_decide_eq_true hn]
        exact List.getElem_mem hlt
      simp [constantNames, hmem]

theorem constant?_of_codename {n : String} {v : Level} (h : Platform.codenameLevel? n = some v) :
    constant? n = some (v : Int) := by
  have hgranted : n ≠ "PERMISSION_GRANTED" := by
    rintro rfl
    have hnone : Platform.codenameLevel? "PERMISSION_GRANTED" = none := by decide +kernel
    exact absurd (hnone.symm.trans h) nofun
  have hdenied : n ≠ "PERMISSION_DENIED" := by
    rintro rfl
    have hnone : Platform.codenameLevel? "PERMISSION_DENIED" = none := by decide +kernel
    exact absurd (hnone.symm.trans h) nofun
  simp [constant?, hgranted, hdenied, h]

theorem not_suffix_of_mem_constantNames : ∀ n ∈ constantNames,
    ¬ n.toList <:+ "SDK_INT".toList ∧ ¬ "SDK_INT".toList <:+ n.toList := by
  decide +kernel

/-- The last name of a chain ends its text. -/
theorem dottedName?_of_lastName? {e : Expr} {n path : String} (hn : e.lastName? = some n)
    (hpath : e.dottedName? = some path) : n.toList <:+ path.toList := by
  cases e with
  | name s m =>
    cases hn
    cases hpath
    exact List.suffix_refl _
  | fieldAccess s target m =>
    cases hn
    obtain ⟨lead, -, rfl⟩ := Option.map_eq_some_iff.mp hpath
    exact ⟨(lead ++ ".").toList, by simp⟩
  | _ => cases hn

/-- No constant is the name of the device's level. -/
theorem not_accesses {e : Expr} {n : String} (hn : e.lastName? = some n) {k : Int}
    (hk : constant? n = some k) : ¬ R.Accesses e := by
  rintro ⟨path, hpath, h⟩
  have hsuffix : "SDK_INT".toList <:+ path.toList := by
    rcases h with ⟨rfl, -⟩ | rfl | ⟨lead, rfl⟩
    · exact List.suffix_refl _
    · decide
    · exact ⟨(lead ++ ".VERSION.").toList, by simp⟩
  have hconstant := not_suffix_of_mem_constantNames n (mem_constantNames hk)
  rcases List.suffix_or_suffix_of_suffix (dottedName?_of_lastName? hn hpath) hsuffix with h | h
  · exact hconstant.1 h
  · exact hconstant.2 h

/-- A name stands for the level or for a constant, never for both. -/
theorem Names.eq_level_or {e : Expr} {k : Int} (h : M.Names R e k) :
    R.Accesses e ∧ k = M.level ∨ ∃ n, e.lastName? = some n ∧ constant? n = some k := by
  cases h with
  | level h => exact .inl ⟨h, rfl⟩
  | release h =>
    cases h with
    | simple hv => exact .inr ⟨_, rfl, constant?_of_codename hv⟩
    | member _ _ hv => exact .inr ⟨_, rfl, constant?_of_codename hv⟩
  | granted h => exact .inr ⟨_, h, rfl⟩
  | denied h => exact .inr ⟨_, h, rfl⟩

theorem Names.unique {e : Expr} {m n : Int} (h : M.Names R e m) (h' : M.Names R e n) :
    m = n := by
  rcases h.eq_level_or with ⟨haccess, rfl⟩ | ⟨name, hname, hm⟩
  · rcases h'.eq_level_or with ⟨-, rfl⟩ | ⟨name, hname, hn⟩
    · rfl
    · exact absurd haccess (not_accesses hname hn)
  · rcases h'.eq_level_or with ⟨haccess, -⟩ | ⟨name', hname', hn⟩
    · exact absurd haccess (not_accesses hname hm)
    · cases hname.symm.trans hname'
      exact Option.some.inj (hm.symm.trans hn)

theorem Names.isName {e : Expr} {k : Int} (h : M.Names R e k) : e.lastName? ≠ none := by
  rcases h.eq_level_or with ⟨⟨path, hpath, -⟩, -⟩ | ⟨n, hn, -⟩
  · cases e with
    | name | fieldAccess => nofun
    | _ => cases hpath
  · rw [hn]
    nofun

theorem checksPermission_iff {s : Span} {target : Option Expr} {name p : String}
    {args : List Expr} : ChecksPermission (.call s target name args) p ↔
      name ∈ permissionChecks ∧ args.findSome? permissionName? = some p := by
  rw [List.findSome?_eq_some_iff]
  constructor
  · rintro ⟨hname, hbefore, harg⟩
    exact ⟨hname, _, _, _, rfl, harg, hbefore⟩
  · rintro ⟨hname, before, arg, after, rfl, harg, hbefore⟩
    exact .call hname hbefore harg

theorem checksPermission_unique {e : Expr} {p q : String} (h : ChecksPermission e p)
    (h' : ChecksPermission e q) : p = q := by
  cases e with
  | call s target name args =>
    have hp := (checksPermission_iff.mp h).2
    have hq := (checksPermission_iff.mp h').2
    exact Option.some.inj (hp.symm.trans hq)
  | _ => cases h

theorem Denotes.unique {e : Expr} {m n : Int} (h : M.Denotes R e m) (h' : M.Denotes R e n) :
    m = n := by
  induction h generalizing n with
  | literal =>
    cases h' with
    | literal => rfl
    | named h' => exact absurd rfl h'.isName
    | check h' => cases h'
    | other h' => exact absurd trivial h'
  | neg h ih =>
    cases h' with
    | neg h' => rw [ih h']
    | named h' => exact absurd rfl h'.isName
    | check h' => cases h'
    | other h' => exact absurd trivial h'
  | named h =>
    cases h' with
    | literal | neg => exact absurd rfl h.isName
    | named h' => exact h.unique h'
    | check h' =>
      cases h'
      exact absurd rfl h.isName
    | other _ h' => exact absurd h (h' _)
  | check h =>
    cases h' with
    | literal | neg => cases h
    | named h' =>
      cases h
      exact absurd rfl h'.isName
    | check h' => rw [checksPermission_unique h h']
    | other _ _ h' => exact absurd h (h' _)
  | other hnumeral hname hcheck hk =>
    cases h' with
    | literal | neg => exact absurd trivial hnumeral
    | named h' => exact absurd h' (hname _)
    | check h' => exact absurd h' (hcheck _)
    | other _ _ _ hk' => exact Option.some.inj (hk.symm.trans hk')

theorem denotes_of_readsLevel {e : Expr} (h : R.readsLevel e = true) : M.Denotes R e M.level := by
  refine .named (.level ?_)
  unfold readsLevel at h
  split at h
  · cases h
  · next hpath => exact ⟨_, hpath, .inl ⟨rfl, h⟩⟩
  · next path _ hpath =>
    refine ⟨path, hpath, .inr ?_⟩
    simpa [Text.endsWith_iff] using h

theorem denotes_of_intLiteral? {e : Expr} {k : Int} (h : e.intLiteral? = some k) :
    M.Denotes R e k := by
  induction e using Expr.intLiteral?.induct generalizing k with
  | case1 s n =>
    cases h
    exact .literal
  | case2 s operand ih =>
    obtain ⟨v, hv, rfl⟩ := Option.map_eq_some_iff.mp h
    exact .neg (ih hv)
  | case3 => simp_all [Expr.intLiteral?]

theorem denotes_of_levelConstant? {e : Expr} {v : Level} (h : levelConstant? e = some v) :
    M.Denotes R e v := by
  unfold levelConstant? at h
  split at h
  · next k hk =>
    split at h
    · next hrange =>
      cases h
      have hcast : ((k.toNat : Nat) : Int) = k := Int.toNat_of_nonneg hrange.1
      rw [hcast]
      exact denotes_of_intLiteral? hk
    · cases h
  · split at h
    · exact .named (.release (.simple h))
    · obtain ⟨owner, howner, h⟩ := Option.bind_eq_some_iff.mp h
      split at h
      · next hversion =>
        refine .named (.release (.member howner ?_ h))
        simpa [Text.endsWith_iff] using hversion
      · cases h
    · cases h

theorem denotes_of_grants? {e : Expr} {granted : Bool} (h : grants? e = some granted) :
    M.Denotes R e (outcome granted) := by
  unfold grants? at h
  split at h
  · next hname =>
    cases h
    exact .named (.granted hname)
  · next hname =>
    cases h
    exact .named (.denied hname)
  · split at h
    · next hk =>
      cases h
      exact denotes_of_intLiteral? hk
    · next hk =>
      cases h
      exact denotes_of_intLiteral? hk
    · cases h

/-- The operands are numbers, and the guard has the value of their comparison. -/
def Decides (M : Moment) (R : Recognizer) (op : BinaryOp) (lhs rhs : Expr) (g : Guard) : Prop :=
  ∃ m n t, M.Denotes R lhs m ∧ M.Denotes R rhs n ∧ compare? op m n = some t ∧
    ∀ u, g.value M.toDeviceState u = t

theorem Decides.flipped {op : BinaryOp} {lhs rhs : Expr} {g : Guard}
    (h : M.Decides R op.flipped rhs lhs g) : M.Decides R op lhs rhs g := by
  obtain ⟨m, n, t, hm, hn, ht, hvalue⟩ := h
  rw [compare?_flipped] at ht
  exact ⟨n, m, t, hn, hm, ht, hvalue⟩

theorem levelGuard?_decides (hM : M.Faithful R) {op : BinaryOp} {accessor level : Expr} {g : Guard}
    (hg : R.levelGuard? op accessor level = some g) : M.Decides R op accessor level g := by
  unfold levelGuard? at hg
  split at hg
  · next hreads =>
    obtain ⟨v, hv, hg⟩ := Option.bind_eq_some_iff.mp hg
    have hcompare : ∃ t, compare? op M.level v = some t := by
      cases op with
      | and | or | other => cases hg
      | _ => exact ⟨_, rfl⟩
    obtain ⟨t, ht⟩ := hcompare
    have hvalue : ∀ u, g.value M.toDeviceState u = g.holds M.toDevice u := fun u => by
      cases op <;> cases hg <;> rfl
    refine ⟨_, _, t, denotes_of_readsLevel hreads, denotes_of_levelConstant? hv, ht, fun u => ?_⟩
    rw [hvalue]
    exact comparisonGuard?_holds hM.level_pos hM.level_le hg ht u
  · cases hg

theorem permissionGuard?_decides {op : BinaryOp} {check status : Expr} {g : Guard}
    (hg : permissionGuard? op check status = some g) : M.Decides R op check status g := by
  unfold permissionGuard? at hg
  split at hg
  · split at hg
    · next hname =>
      obtain ⟨p, hp, hg⟩ := Option.bind_eq_some_iff.mp hg
      obtain ⟨granted, hgranted, hg⟩ := Option.bind_eq_some_iff.mp hg
      refine ⟨outcome (M.granted p), outcome granted, g.value M.toDeviceState fun _ => true,
        .check (checksPermission_iff.mpr ⟨List.contains_iff_mem.mp hname, hp⟩),
        denotes_of_grants? hgranted, ?_, fun u => ?_⟩
      · cases op <;> cases granted <;> cases hg <;>
          simp [compare?, outcome_eq_iff, Guard.value, Guard.eval, Guard.negate,
            DeviceState.leaf, Device.leaf]
      · cases op <;> cases granted <;> cases hg <;> rfl
    · cases hg
  · cases hg

theorem recognize?_decides (hM : M.Faithful R) {op : BinaryOp} (hand : op ≠ .and) (hor : op ≠ .or)
    {s : Span} {lhs rhs : Expr} {g : Guard} (hg : R.recognize? (.binary s op lhs rhs) = some g) :
    M.Decides R op lhs rhs g := by
  rw [recognize?_binary hand hor] at hg
  rcases Option.or_eq_some_iff.mp hg with hg | ⟨-, hg⟩
  · exact levelGuard?_decides hM hg
  rcases Option.or_eq_some_iff.mp hg with hg | ⟨-, hg⟩
  · exact (levelGuard?_decides hM hg).flipped
  rcases Option.or_eq_some_iff.mp hg with hg | ⟨-, hg⟩
  · exact permissionGuard?_decides hg
  · rw [← permissionGuard?_flipped] at hg
    exact (permissionGuard?_decides hg).flipped

theorem exists_value_getD {s : DeviceState} {b : Bool} (g : Option Guard)
    (h : ∀ g', g = some g' → ∃ u, g'.value s u = b) : ∃ u, (g.getD .unknown).value s u = b := by
  cases g with
  | none => exact ⟨fun _ => b, rfl⟩
  | some g => exact h g rfl

theorem Evaluates.of_decides {op : BinaryOp} (hand : op ≠ .and) (hor : op ≠ .or) {s : Span}
    {lhs rhs : Expr} {b : Bool} (h : M.Evaluates R (.binary s op lhs rhs) b) {g : Guard}
    (hg : M.Decides R op lhs rhs g) (u : Leaves) : g.value M.toDeviceState u = b := by
  obtain ⟨m, n, t, hm, hn, ht, hvalue⟩ := hg
  cases h with
  | andFalse | andTrue => exact absurd rfl hand
  | orTrue | orFalse => exact absurd rfl hor
  | compare hm' hn' hb =>
    rw [hm.unique hm', hn.unique hn', hb] at ht
    rw [hvalue, Option.some.inj ht]
  | other hmeaning =>
    refine absurd ?_ hmeaning
    cases op with
    | and => exact absurd rfl hand
    | or => exact absurd rfl hor
    | _ => exact ⟨m, n, hm, hn⟩

/-- The guard of a condition can have every value that the condition has. -/
theorem exists_value_of_evaluates (hM : M.Faithful R) {e : Expr} {g : Guard}
    (hg : R.recognize? e = some g) :
    ∀ b, M.Evaluates R e b → ∃ u, g.value M.toDeviceState u = b := by
  refine recognize?_induction ?not ?and ?or ?comparison ?name hg
  case not =>
    intro s operand g _ ih b h
    cases h with
    | not h => exact Guard.exists_value_negate (ih _ h)
    | other hmeaning => exact absurd trivial hmeaning
  case and =>
    intro s lhs rhs ihl ihr b h
    cases h with
    | andFalse h =>
      have hl := exists_value_getD _ fun g hg => ihl g hg _ h
      exact (Guard.exists_values hl ⟨fun _ => true, rfl⟩).1
    | andTrue h h' =>
      have hl := exists_value_getD _ fun g hg => ihl g hg _ h
      have hr := exists_value_getD _ fun g hg => ihr g hg _ h'
      exact (Guard.exists_values hl hr).1
    | compare _ _ hb => cases hb
    | other hmeaning => exact absurd trivial hmeaning
  case or =>
    intro s lhs rhs ihl ihr b h
    cases h with
    | orTrue h =>
      have hl := exists_value_getD _ fun g hg => ihl g hg _ h
      exact (Guard.exists_values hl ⟨fun _ => true, rfl⟩).2
    | orFalse h h' =>
      have hl := exists_value_getD _ fun g hg => ihl g hg _ h
      have hr := exists_value_getD _ fun g hg => ihr g hg _ h'
      exact (Guard.exists_values hl hr).2
    | compare _ _ hb => cases hb
    | other hmeaning => exact absurd trivial hmeaning
  case comparison =>
    intro s op lhs rhs g hand hor hg b h
    exact ⟨fun _ => true, h.of_decides hand hor (recognize?_decides hM hand hor hg) _⟩
  case name =>
    intro s n g hg b h
    cases h with
    | reads => exact hM.reads n g hg
    | other hmeaning => exact absurd trivial hmeaning

/-- A condition evaluates if nothing in its guard is unknown. -/
theorem exists_evaluates (hM : M.Faithful R) {e : Expr} {g : Guard}
    (hg : R.recognize? e = some g) : g.Known → ∃ b, M.Evaluates R e b := by
  refine recognize?_induction ?not ?and ?or ?comparison ?name hg
  case not =>
    intro s operand g _ ih hknown
    obtain ⟨b, hb⟩ := ih hknown.of_negate
    exact ⟨!b, .not hb⟩
  case and =>
    intro s lhs rhs ihl ihr hknown
    cases hknown with
    | and hparts =>
      obtain ⟨gl, gr, hgl, hgr, hl, hr⟩ := Guard.Known.pair hparts
      obtain ⟨b, hb⟩ := ihl gl hgl hl
      obtain ⟨b', hb'⟩ := ihr gr hgr hr
      cases b with
      | false => exact ⟨false, .andFalse hb⟩
      | true => exact ⟨b', .andTrue hb hb'⟩
  case or =>
    intro s lhs rhs ihl ihr hknown
    cases hknown with
    | or hparts =>
      obtain ⟨gl, gr, hgl, hgr, hl, hr⟩ := Guard.Known.pair hparts
      obtain ⟨b, hb⟩ := ihl gl hgl hl
      obtain ⟨b', hb'⟩ := ihr gr hgr hr
      cases b with
      | true => exact ⟨true, .orTrue hb⟩
      | false => exact ⟨b', .orFalse hb hb'⟩
  case comparison =>
    intro s op lhs rhs g hand hor hg _
    obtain ⟨m, n, t, hm, hn, ht, -⟩ := recognize?_decides hM hand hor hg
    exact ⟨t, .compare hm hn ht⟩
  case name => exact fun s n g _ _ => ⟨M.reads n, .reads⟩

/-- Recognition is truthful.

On a device with a level that there is, whatever a condition evaluates to is a value of the
guard that it is recognised as. If nothing in the guard is unknown, the condition evaluates to
the value of the guard and to no other. -/
theorem recognition_truthful (hM : M.Faithful R) {e : Expr} {g : Guard}
    (hg : R.recognize? e = some g) :
    (∀ b, M.Evaluates R e b → ∃ u, g.value M.toDeviceState u = b) ∧
      (g.Known → ∀ u b, M.Evaluates R e b ↔ g.value M.toDeviceState u = b) := by
  refine ⟨exists_value_of_evaluates hM hg, fun hknown u b => ?_⟩
  have hvalue : ∀ b, M.Evaluates R e b → g.value M.toDeviceState u = b := by
    intro b h
    obtain ⟨u', hu'⟩ := exists_value_of_evaluates hM hg b h
    rw [hknown.value_eq u u', hu']
  refine ⟨hvalue b, ?_⟩
  rintro rfl
  obtain ⟨b, hb⟩ := exists_evaluates hM hg hknown
  rwa [hvalue b hb]

/-- A device of level 24 that grants one permission. -/
def sample : Moment where
  level := 24
  granted := (· = "p.P")
  caught := fun _ => false
  reads := fun _ => false
  number := fun _ => none
  truth := fun _ => none

/-- A variable holds a check of a later level. -/
def sampleRecognizer : Recognizer := { flags := Table.empty.insert "recent" (.atLeast 30) }

theorem sample_faithful : sample.Faithful sampleRecognizer where
  level_pos := by decide
  level_le := by decide
  reads n g hg := by
    have hflag : (if n = "recent" then some (Guard.atLeast 30) else none) = some g := by
      simpa [sampleRecognizer] using hg
    obtain ⟨-, hflag⟩ := Option.ite_none_right_eq_some.mp hflag
    cases hflag
    exact ⟨fun _ => false, rfl⟩

/-- The variable, or a comparison of the level from the right and one of a check with a denial. -/
def sampleCondition : Expr :=
  .binary default .or (.name default "recent")
    (.binary default .and
      (.binary default .le (.name default "M")
        (.fieldAccess default (.name default "VERSION") "SDK_INT"))
      (.binary default .ne
        (.call default none "checkSelfPermission" [.this default, .literal default (.str "p.P")])
        (.fieldAccess default (.name default "PackageManager") "PERMISSION_DENIED")))

def sampleGuard : Guard := .or [.atLeast 30, .and [.atLeast 23, .held "p.P"]]

theorem sampleGuard_known : sampleGuard.Known := by
  refine .or (List.forall_mem_cons.mpr ⟨.atLeast 30, List.forall_mem_singleton.mpr (.and ?_)⟩)
  exact List.forall_mem_cons.mpr ⟨.atLeast 23, List.forall_mem_singleton.mpr (.held "p.P")⟩

theorem recognition_truthful_sample :
    sample.Evaluates sampleRecognizer sampleCondition true ∧
      ∃ u, (Guard.and [sampleGuard, .unknown]).value sample.toDeviceState u = false := by
  have hguard : sampleRecognizer.recognize? sampleCondition = some sampleGuard := rfl
  have htrue : sample.Evaluates sampleRecognizer sampleCondition true :=
    ((recognition_truthful sample_faithful hguard).2 sampleGuard_known (fun _ => false) true).mpr rfl
  -- The second operand is a variable of which nothing is known; it is false at the moment.
  have hfalse : sample.Evaluates sampleRecognizer
      (.binary default .and sampleCondition (.name default "other")) false := .andTrue htrue .reads
  exact ⟨htrue, (recognition_truthful sample_faithful rfl).1 false hfalse⟩

end Moment

end Flow
end LevelGuard
