/-!
# Tables

A table maps keys to values and lists its entries in the order in which their
keys first appeared. Writing an entry whose key is already there replaces the
value in place, so a key occurs at most once.
-/
namespace LevelGuard

/-- Entries in the order of first appearance. -/
structure Table (κ α : Type) where
  entries : List (κ × α) := []
  deriving Repr

namespace Table

variable {κ α : Type} [DecidableEq κ]

def empty : Table κ α := ⟨[]⟩

instance : Inhabited (Table κ α) := ⟨empty⟩

def keys (t : Table κ α) : List κ := t.entries.map Prod.fst

def values (t : Table κ α) : List α := t.entries.map Prod.snd

def size (t : Table κ α) : Nat := t.entries.length

def lookup (k : κ) : List (κ × α) → Option α
  | [] => none
  | (k', a) :: rest => if k = k' then some a else lookup k rest

/-- Replace the entry with the key, or add one at the end. -/
def write (k : κ) (a : α) : List (κ × α) → List (κ × α)
  | [] => [(k, a)]
  | (k', b) :: rest => if k = k' then (k, a) :: rest else (k', b) :: write k a rest

def get? (t : Table κ α) (k : κ) : Option α := lookup k t.entries

def contains (t : Table κ α) (k : κ) : Bool := (t.get? k).isSome

def insert (t : Table κ α) (k : κ) (a : α) : Table κ α := ⟨write k a t.entries⟩

def erase (t : Table κ α) (k : κ) : Table κ α := ⟨t.entries.filter fun e => e.1 ≠ k⟩

/-- Change the value at a key, if it is there. -/
def modify (t : Table κ α) (k : κ) (f : α → α) : Table κ α :=
  ⟨t.entries.map fun e => if e.1 = k then (e.1, f e.2) else e⟩

def insertAll (t : Table κ α) (entries : List (κ × α)) : Table κ α :=
  entries.foldl (fun t e => t.insert e.1 e.2) t

def ofList (entries : List (κ × α)) : Table κ α := empty.insertAll entries

theorem lookup_write (k k' : κ) (a : α) (l : List (κ × α)) :
    lookup k' (write k a l) = if k' = k then some a else lookup k' l := by
  induction l with
  | nil => by_cases h : k' = k <;> simp [write, lookup, h]
  | cons e rest ih =>
    obtain ⟨j, b⟩ := e
    by_cases hj : k = j
    · subst hj
      by_cases h : k' = k <;> simp [write, lookup, h]
    · by_cases h : k' = k
      · subst h
        simp [write, lookup, hj, ih]
      · by_cases h' : k' = j
        · subst h'
          simp [write, lookup, hj, h]
        · simp [write, lookup, hj, h, h', ih]

@[simp] theorem get?_insert (t : Table κ α) (k k' : κ) (a : α) :
    (t.insert k a).get? k' = if k' = k then some a else t.get? k' :=
  lookup_write k k' a t.entries

@[simp] theorem get?_empty (k : κ) : (empty : Table κ α).get? k = none := rfl

theorem isSome_lookup {k : κ} {l : List (κ × α)} :
    (lookup k l).isSome ↔ k ∈ l.map Prod.fst := by
  induction l with
  | nil => simp [lookup]
  | cons e rest ih => by_cases h : k = e.1 <;> simp [lookup, h, ih]

theorem mem_write {k : κ} {a : α} {e : κ × α} {l : List (κ × α)} (h : e ∈ write k a l) :
    e = (k, a) ∨ e ∈ l := by
  induction l with
  | nil => exact .inl (List.mem_singleton.mp h)
  | cons e' rest ih =>
    rw [write] at h
    split at h
    · exact (List.mem_cons.mp h).imp_right (List.mem_cons_of_mem _)
    · rcases List.mem_cons.mp h with rfl | h
      · exact .inr List.mem_cons_self
      · exact (ih h).imp_right (List.mem_cons_of_mem _)

theorem contains_iff_mem_keys {t : Table κ α} {k : κ} : t.contains k ↔ k ∈ t.keys := isSome_lookup

@[simp] theorem contains_insert {t : Table κ α} {k k' : κ} {a : α} :
    (t.insert k a).contains k' ↔ k' = k ∨ t.contains k' := by
  by_cases h : k' = k <;> simp [contains, h]

theorem contains_insertAll {t : Table κ α} {k : κ} {l : List (κ × α)} :
    (t.insertAll l).contains k ↔ k ∈ l.map Prod.fst ∨ t.contains k := by
  induction l generalizing t with
  | nil => simp [insertAll]
  | cons e rest ih =>
    change ((t.insert e.1 e.2).insertAll rest).contains k ↔ _
    rw [ih, contains_insert, List.map_cons, List.mem_cons]
    exact or_left_comm.trans or_assoc.symm

/-- What is found after entries were written is one of them or was there before. -/
theorem get?_insertAll {t : Table κ α} {k : κ} {a : α} {l : List (κ × α)}
    (h : (t.insertAll l).get? k = some a) : (k, a) ∈ l ∨ t.get? k = some a := by
  induction l generalizing t with
  | nil => exact .inr h
  | cons e rest ih =>
    rcases ih (t := t.insert e.1 e.2) h with h | h
    · exact .inl (List.mem_cons_of_mem _ h)
    · rw [get?_insert] at h
      split at h
      · next hk => cases h; exact .inl (hk ▸ List.mem_cons_self)
      · exact .inr h

theorem lookup_filter (p : κ → Bool) (k : κ) (l : List (κ × α)) :
    lookup k (l.filter fun e => p e.1) = if p k then lookup k l else none := by
  induction l with
  | nil => simp [lookup]
  | cons e rest ih =>
    by_cases hk : k = e.1
    · subst hk
      by_cases hp : p e.1 <;> simp [lookup, hp, ih]
    · by_cases hp : p e.1 <;> simp [lookup, hp, hk, ih]

theorem get?_erase (t : Table κ α) (k k' : κ) :
    (t.erase k).get? k' = if k' = k then none else t.get? k' := by
  refine (lookup_filter (fun j => decide (j ≠ k)) k' t.entries).trans ?_
  by_cases h : k' = k <;> simp [h, get?]

theorem get?_modify (t : Table κ α) (k k' : κ) (f : α → α) :
    (t.modify k f).get? k' = if k' = k then (t.get? k').map f else t.get? k' := by
  unfold modify get?
  dsimp only
  induction t.entries with
  | nil => simp [lookup]
  | cons e rest ih =>
    by_cases he : e.1 = k
    · by_cases hk : k' = k
      · simp [lookup, he, hk]
      · simpa [lookup, he, hk] using ih
    · by_cases hk : k' = e.1
      · simp [lookup, he, hk]
      · simpa [lookup, he, hk] using ih

theorem keys_insert (t : Table κ α) (k : κ) (a : α) :
    (t.insert k a).keys = if k ∈ t.keys then t.keys else t.keys ++ [k] := by
  unfold insert keys
  dsimp only
  induction t.entries with
  | nil => simp [write]
  | cons e rest ih =>
    obtain ⟨j, b⟩ := e
    by_cases hj : k = j
    · simp [write, hj]
    · rw [write, if_neg hj, List.map_cons, ih, List.map_cons]
      by_cases hk : k ∈ rest.map Prod.fst
      · rw [if_pos hk, if_pos (List.mem_cons_of_mem _ hk)]
      · rw [if_neg hk, if_neg (List.not_mem_cons_of_ne_of_not_mem hj hk), List.cons_append]

theorem nodup_keys_insert {t : Table κ α} (h : t.keys.Nodup) (k : κ) (a : α) :
    (t.insert k a).keys.Nodup := by
  rw [keys_insert]
  split
  · exact h
  · next hk =>
    refine List.nodup_append.mpr ⟨h, by simp, ?_⟩
    rintro j hj _ hk' rfl
    exact hk (List.mem_singleton.mp hk' ▸ hj)

/-- Where each key has one entry, the entry is what is found. -/
theorem lookup_eq_some_iff {l : List (κ × α)} (h : (l.map Prod.fst).Nodup) {k : κ} {a : α} :
    lookup k l = some a ↔ (k, a) ∈ l := by
  induction l with
  | nil => simp [lookup]
  | cons e rest ih =>
    obtain ⟨j, b⟩ := e
    obtain ⟨hj, hrest⟩ := List.nodup_cons.mp h
    by_cases hk : k = j
    · subst hk
      have hnot : (k, a) ∉ rest := fun hmem => hj (List.mem_map.mpr ⟨_, hmem, rfl⟩)
      simp [lookup, hnot, eq_comm]
    · simp [lookup, hk, ih hrest]

/-- The order of entries does not show in what is found. -/
theorem get?_perm {t t' : Table κ α} (hperm : t.entries.Perm t'.entries) (h : t.keys.Nodup) (k : κ) :
    t.get? k = t'.get? k := by
  have h' : t'.keys.Nodup := (hperm.map Prod.fst).nodup h
  refine Option.ext fun a => ?_
  exact (lookup_eq_some_iff h).trans (hperm.mem_iff.trans (lookup_eq_some_iff h').symm)

theorem lookup_append (k : κ) (l l' : List (κ × α)) :
    lookup k (l ++ l') = (lookup k l).or (lookup k l') := by
  induction l with
  | nil => rfl
  | cons e rest ih =>
    rw [List.cons_append, lookup, lookup, ih]
    split <;> rfl

/-- Of the entries that were written the last with the key is found. -/
theorem get?_insertAll_eq_or (t : Table κ α) (k : κ) (l : List (κ × α)) :
    (t.insertAll l).get? k = (lookup k l.reverse).or (t.get? k) := by
  induction l generalizing t with
  | nil => rfl
  | cons e rest ih =>
    change ((t.insert e.1 e.2).insertAll rest).get? k = _
    rw [ih, get?_insert, List.reverse_cons, lookup_append, Option.or_assoc]
    by_cases hk : k = e.1 <;> simp [lookup, hk]

theorem nodup_keys_insertAll {t : Table κ α} (h : t.keys.Nodup) (l : List (κ × α)) :
    (t.insertAll l).keys.Nodup := by
  induction l generalizing t with
  | nil => exact h
  | cons e rest ih => exact ih (nodup_keys_insert h e.1 e.2)

/-- A table written over another one is asked first. -/
theorem get?_insertAll_entries (t : Table κ α) {t' : Table κ α} (h : t'.keys.Nodup) (k : κ) :
    (t.insertAll t'.entries).get? k = (t'.get? k).or (t.get? k) := by
  have hreverse : t'.get? k = (⟨t'.entries.reverse⟩ : Table κ α).get? k :=
    get?_perm (List.reverse_perm _).symm h k
  rw [get?_insertAll_eq_or, hreverse]
  rfl

theorem lookup_eq_some_iff_first {k : κ} {a : α} {l : List (κ × α)} :
    lookup k l = some a ↔ ∃ before after, l = before ++ (k, a) :: after ∧ ∀ b, (k, b) ∉ before := by
  induction l with
  | nil => simp [lookup]
  | cons e rest ih =>
    obtain ⟨j, b⟩ := e
    by_cases hk : k = j
    · subst hk
      constructor
      · intro h
        rw [lookup, if_pos rfl] at h
        cases h
        exact ⟨[], rest, rfl, by simp⟩
      · rintro ⟨_ | ⟨e, before⟩, after, heq, hnot⟩
        · cases heq
          simp [lookup]
        · cases heq
          exact absurd List.mem_cons_self (hnot b)
    · rw [lookup, if_neg hk, ih]
      constructor
      · rintro ⟨before, after, rfl, hnot⟩
        exact ⟨(j, b) :: before, after, rfl, by simpa [hk] using hnot⟩
      · rintro ⟨_ | ⟨e, before⟩, after, heq, hnot⟩
        · cases heq
          exact absurd rfl hk
        · cases heq
          exact ⟨before, after, rfl, fun b hb => hnot b (List.mem_cons_of_mem _ hb)⟩

/-- Where only one key of a table has anything to say, it says all. -/
theorem flatMap_keys_eq {β : Type} (t : Table κ α) {keys : List κ} (hnodup : keys.Nodup)
    (hkeys : ∀ k ∈ t.keys, k ∈ keys) {g : κ → List β} {k : κ} (hother : ∀ j, j ≠ k → g j = [])
    (hout : t.get? k = none → g k = []) : keys.flatMap g = g k := by
  have hmem : k ∉ keys → g k = [] := fun hk =>
    hout (Option.not_isSome_iff_eq_none.mp fun h => hk (hkeys k (contains_iff_mem_keys.mp h)))
  clear hkeys
  induction keys with
  | nil => exact (hmem List.not_mem_nil).symm
  | cons j keys ih =>
    obtain ⟨hj, hnodup⟩ := List.nodup_cons.mp hnodup
    rw [List.flatMap_cons]
    by_cases hjk : j = k
    · have hrest : keys.flatMap g = [] := List.flatMap_eq_nil_iff.mpr fun i hi =>
        hother i fun heq => hj (hjk.trans heq.symm ▸ hi)
      rw [hrest, hjk, List.append_nil]
    · rw [hother j hjk, List.nil_append]
      exact ih hnodup fun hk => hmem fun h => (List.mem_cons.mp h).elim (Ne.symm hjk) hk

end Table
end LevelGuard
