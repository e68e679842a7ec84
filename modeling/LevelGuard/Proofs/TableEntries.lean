import LevelGuard.Data.Basic
import LevelGuard.Platform.Catalog

/-!
# What the entries of a permission table do

A table that is accepted is written into the catalog entry by entry, each under the symbol
that it names, so the last entry for a symbol is the one that is kept there. Every symbol
that an entry names is then declared. What a symbol demands is looked up under the symbol
itself, except for an enum case, which is looked up as a field. So an entry takes effect
unless it is for an enum case; that one is never asked for, and the case demands what is
kept for the field of its name.
-/
namespace LevelGuard.Platform

open Permission

/-- What an entry demands of a symbol, if it is the one that the entry names. -/
def PermissionEntry.demandOf? (e : PermissionEntry) (s : Symbol) : Option Requirement :=
  match e.toRequirement with
  | .ok (named, r) => if named = s then some r else none
  | .error _ => none

def lastDemand? (entries : List PermissionEntry) (s : Symbol) : Option Requirement :=
  entries.reverse.findSome? (·.demandOf? s)

theorem lastDemand?_cons (e : PermissionEntry) (entries : List PermissionEntry) (s : Symbol) :
    lastDemand? (e :: entries) s = (lastDemand? entries s).or (e.demandOf? s) := by
  rw [lastDemand?, List.reverse_cons, List.findSome?_append, List.findSome?_singleton]
  rfl

namespace PermissionEntry

variable {e : PermissionEntry} {s : Symbol} {r : Requirement}

theorem demandOf?_of_toRequirement (h : e.toRequirement = .ok (s, r)) (s' : Symbol) :
    e.demandOf? s' = if s = s' then some r else none := by
  rw [demandOf?, h]

/-- An entry is about the symbol that its text and its kind name. -/
theorem target_of_toRequirement (h : e.toRequirement = .ok (s, r)) : e.target = .ok s := by
  unfold toRequirement at h
  cases hread : e.requirement with
  | error reason =>
    rw [hread] at h
    nomatch h
  | ok named =>
    rw [hread] at h
    obtain rfl : named = (s, r) := Except.ok.inj h
    obtain ⟨symbol, hsymbol, hread⟩ := exists_of_bind_eq_ok hread
    obtain ⟨expr, -, hread⟩ := exists_of_bind_eq_ok hread
    obtain ⟨apis, -, hread⟩ := exists_of_bind_eq_ok hread
    rw [hsymbol, (Prod.mk.inj (Except.ok.inj hread)).1]

end PermissionEntry

namespace Catalog

variable {K K' : Catalog} {entries : List PermissionEntry} {t : PermissionTable} {s : Symbol}

theorem addEntries_cons {e : PermissionEntry} (h : K.addEntries (e :: entries) = .ok K') :
    ∃ s r, e.toRequirement = .ok (s, r) ∧
      ({ K with permissions := K.permissions.insert s r } : Catalog).addEntries entries =
        .ok K' := by
  obtain ⟨⟨s, r⟩, he, hrest⟩ := exists_of_bind_eq_ok h
  exact ⟨s, r, he, hrest⟩

/-- Under each symbol the last entry for it is kept, or what was there before. -/
theorem get?_permissions_addEntries (h : K.addEntries entries = .ok K') (s : Symbol) :
    K'.permissions.get? s = (lastDemand? entries s).or (K.permissions.get? s) := by
  induction entries generalizing K with
  | nil =>
    cases h
    rfl
  | cons e entries ih =>
    obtain ⟨named, r, he, hrest⟩ := addEntries_cons h
    rw [ih hrest, lastDemand?_cons, e.demandOf?_of_toRequirement he, Table.get?_insert,
      Option.or_assoc]
    by_cases hs : named = s
    · rw [if_pos hs, if_pos hs.symm, Option.some_or]
    · rw [if_neg hs, if_neg (Ne.symm hs), Option.none_or]

/-- All entries of a table that is accepted can be read. -/
theorem exists_toRequirement_of_mem (h : K.addEntries entries = .ok K') {e : PermissionEntry}
    (he : e ∈ entries) : ∃ s r, e.toRequirement = .ok (s, r) := by
  induction entries generalizing K with
  | nil => nomatch he
  | cons e' entries ih =>
    obtain ⟨named, r, he', hrest⟩ := addEntries_cons h
    rcases List.mem_cons.mp he with rfl | he
    · exact ⟨named, r, he'⟩
    · exact ih hrest he

/-- A symbol that an entry names has a last entry. -/
theorem exists_lastDemand? {e : PermissionEntry} (he : e ∈ entries) {r : Requirement}
    (hr : e.toRequirement = .ok (s, r)) : ∃ q, lastDemand? entries s = some q := by
  rw [← Option.isSome_iff_exists, lastDemand?, List.isSome_findSome?]
  refine List.any_eq_true.mpr ⟨e, List.mem_reverse.mpr he, ?_⟩
  rw [e.demandOf?_of_toRequirement hr, if_pos rfl, Option.isSome_some]

theorem addEntries_of_addTable (h : K.addTable t = .ok K') :
    ∃ K₁, K.addEntries t.permissions = .ok K₁ ∧ K'.permissions = K₁.permissions := by
  obtain ⟨K₁, hentries, hK⟩ := exists_of_bind_eq_ok h
  exact ⟨K₁, hentries, by rw [← Except.ok.inj hK]⟩

theorem permission_mem_demands {arity : Option Nat} {q : Requirement} :
    .permission q ∈ K.demands s arity ↔ K.permissions.get? (permissionKey s) = some q := by
  have hversion : .permission q ∉
      (((K.class? s.owner).bind (since? · s arity)).map Demand.version).toList := by
    cases (K.class? s.owner).bind (since? · s arity) <;> simp
  rw [demands, List.mem_append, or_iff_right hversion]
  simp

/-- A symbol that is kept in the table is declared, whatever its kind. -/
theorem declares_of_get? {r : Requirement} (h : K.permissions.get? s = some r) :
    K.declares s = true := by
  rw [declares, Table.contains, h, Option.isSome_some, Bool.true_or]

/-- After a table was accepted every symbol that one of its entries names is declared. It
demands the permission of the last entry for it and no other, unless it is an enum case. An
enum case demands the permission that the last entry for the field of its name gives, or
what was kept for that field before. -/
theorem table_entries_take_effect (h : K.addTable t = .ok K') {e : PermissionEntry}
    (he : e ∈ t.permissions) :
    ∃ s r, e.target = .ok s ∧ lastDemand? t.permissions s = some r ∧ K'.declares s = true ∧
      (s.kind ≠ .enumCase → ∀ arity q, .permission q ∈ K'.demands s arity ↔ q = r) ∧
      (s.kind = .enumCase → ∀ arity q, .permission q ∈ K'.demands s arity ↔
        (lastDemand? t.permissions (.field s.owner s.member)).or
          (K.permissions.get? (.field s.owner s.member)) = some q) := by
  obtain ⟨K₁, hentries, hpermissions⟩ := addEntries_of_addTable h
  have hkept : ∀ s, K'.permissions.get? s =
      (lastDemand? t.permissions s).or (K.permissions.get? s) := by
    rw [hpermissions]
    exact get?_permissions_addEntries hentries
  obtain ⟨s, own, hown⟩ := exists_toRequirement_of_mem hentries he
  obtain ⟨r, hr⟩ := exists_lastDemand? he hown
  have hs : K'.permissions.get? s = some r := by rw [hkept, hr, Option.some_or]
  refine ⟨s, r, e.target_of_toRequirement hown, hr, declares_of_get? hs, ?_, ?_⟩
  · intro hkind arity q
    have hkey : permissionKey s = s := by
      unfold permissionKey
      split
      · next hcase => exact absurd hcase hkind
      · rfl
    rw [permission_mem_demands, hkey, hs, Option.some.injEq, eq_comm]
  · intro hkind arity q
    have hkey : permissionKey s = .field s.owner s.member := by rw [permissionKey, hkind]
    rw [permission_mem_demands, hkey, hkept]

def sampleTable : PermissionTable where
  permissions :=
    [{ symbol := "p.Api#c", value := some "x.First" },
      { symbol := "p.Api#c", expression := some "x.A || x.B" },
      { symbol := "p.Mode#OVERLAY", kind := some .enumCase, value := some "x.Case" }]

/-- The later of the two entries for the method is the one that counts. -/
theorem table_entries_take_effect_sample : ∃ K', empty.addTable sampleTable = .ok K' ∧
    .permission ⟨.anyOf [.single "x.A", .single "x.B"], none⟩ ∈
      K'.demands (.method "p.Api" "c") none := by
  cases hK : empty.addTable sampleTable with
  | error reason =>
    have hok : ((empty.addTable sampleTable).toOption).isSome = true := by decide +kernel
    rw [hK] at hok
    nomatch hok
  | ok K' =>
    refine ⟨K', rfl, ?_⟩
    obtain ⟨s, r, htarget, hr, -, hdemands, -⟩ :=
      table_entries_take_effect hK (e := { symbol := "p.Api#c", value := some "x.First" })
        List.mem_cons_self
    obtain rfl : .method "p.Api" "c" = s := Except.ok.inj htarget
    have hlast : lastDemand? sampleTable.permissions (.method "p.Api" "c") =
        some ⟨.anyOf [.single "x.A", .single "x.B"], none⟩ := by
      decide +kernel
    exact (hdemands (by decide) none _).mpr (Option.some.inj (hlast.symm.trans hr))

/-- The entry for the enum case is accepted and makes the case declared, and yet the case
demands nothing. -/
theorem enumCase_entry_ignored : ∃ K', empty.addTable sampleTable = .ok K' ∧
    K'.declares ⟨"p.Mode", "OVERLAY", .enumCase⟩ = true ∧
    K'.demands ⟨"p.Mode", "OVERLAY", .enumCase⟩ none = [] ∧
    lastDemand? sampleTable.permissions ⟨"p.Mode", "OVERLAY", .enumCase⟩ =
      some ⟨.single "x.Case", none⟩ := by
  have hsome : ((empty.addTable sampleTable).toOption).any fun K' =>
      K'.declares ⟨"p.Mode", "OVERLAY", .enumCase⟩ = true ∧
      K'.demands ⟨"p.Mode", "OVERLAY", .enumCase⟩ none = [] ∧
      lastDemand? sampleTable.permissions ⟨"p.Mode", "OVERLAY", .enumCase⟩ =
        some ⟨.single "x.Case", none⟩ := by
    decide +kernel
  obtain ⟨K', hK, h⟩ := (Option.any_eq_true _ _).mp hsome
  cases hadd : empty.addTable sampleTable with
  | error reason =>
    rw [hadd] at hK
    nomatch hK
  | ok K₁ =>
    rw [hadd] at hK
    cases hK
    exact ⟨K', rfl, of_decide_eq_true h⟩

end Catalog

end LevelGuard.Platform
