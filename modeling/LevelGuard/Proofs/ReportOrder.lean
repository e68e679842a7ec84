import Mathlib.Data.List.Perm.Basic
import LevelGuard.Diagnostic

/-!
# The order of reports

The order of reports compares paths first and does not tell all diagnostics apart. Those
that it does not tell apart stay in the order in which they were found, so a report is
determined by these runs of ties. Where the findings come from several files, no tie
reaches from one file to another, and the order of the files does not show.
-/
namespace LevelGuard

open Std

namespace Path

instance : TransCmp Component.compare :=
  inferInstanceAs (TransCmp (compareLex (compareOn Component.rank) (compareOn Component.name)))

theorem Component.compare_eq_iff {a b : Component} : a.compare b = .eq ↔ a = b := by
  refine ⟨fun h => ?_, fun h => h ▸ ReflCmp.compare_self⟩
  obtain ⟨hrank, hname⟩ := Ordering.then_eq_eq.mp h
  have hrank := LawfulEqCmp.eq_of_compare hrank
  have hname := LawfulEqCmp.eq_of_compare hname
  cases a <;> cases b <;> simp_all [Component.rank, Component.name]

instance : LawfulEqCmp Component.compare where
  eq_of_compare := Component.compare_eq_iff.mp

theorem compareLists_eq (as bs : List Component) :
    compareLists as bs = List.compareLex Component.compare as bs := by
  induction as generalizing bs with
  | nil => cases bs <;> rfl
  | cons a as ih =>
    cases bs with
    | nil => rfl
    | cons b bs =>
      rw [compareLists, ih, List.compareLex_cons_cons]

theorem compare_eq (p q : Path) :
    p.compare q = List.compareLex Component.compare p.components q.components :=
  compareLists_eq p.components q.components

instance : TransCmp Path.compare where
  eq_swap := fun {p q} => by
    rw [compare_eq, compare_eq]
    exact OrientedCmp.eq_swap
  isLE_trans := fun {p q r} => by
    rw [compare_eq, compare_eq, compare_eq]
    exact TransCmp.isLE_trans

instance : Ord Path := ⟨Path.compare⟩

instance : TransOrd Path := inferInstanceAs (TransCmp Path.compare)

theorem compare_eq_iff {p q : Path} : p.compare q = .eq ↔ p.same q = true := by
  rw [compare_eq, same, decide_eq_true_iff]
  exact LawfulEqCmp.compare_eq_iff_eq

end Path

namespace Diagnostic

instance : TransCmp Diagnostic.compare :=
  inferInstanceAs (TransCmp (compareLex (compareOn Diagnostic.path)
    (compareLex (compareOn fun d => d.span.line) (compareLex (compareOn fun d => d.span.column)
      (compareLex (compareOn fun d => d.category.rank) (compareOn Diagnostic.message))))))

/-- Whether the order of reports does not tell two diagnostics apart. -/
def ties (d e : Diagnostic) : Bool := d.compare e = .eq

theorem ties_iff {d e : Diagnostic} : d.ties e = true ↔ d.compare e = .eq := decide_eq_true_iff

theorem ties_refl (d : Diagnostic) : d.ties d = true := ties_iff.mpr ReflCmp.compare_self

theorem ties_symm {d e : Diagnostic} (h : d.ties e = true) : e.ties d = true :=
  ties_iff.mpr (OrientedCmp.eq_comm.mp (ties_iff.mp h))

theorem ties_trans {d e f : Diagnostic} (h : d.ties e = true) (h' : e.ties f = true) :
    d.ties f = true :=
  ties_iff.mpr (TransCmp.eq_trans (ties_iff.mp h) (ties_iff.mp h'))

/-- Whether one diagnostic may stand before another. -/
abbrev le (d e : Diagnostic) : Bool := (d.compare e).isLE

theorem le_trans (d e f : Diagnostic) : d.le e = true → e.le f = true → d.le f = true :=
  TransCmp.isLE_trans

theorem le_total (d e : Diagnostic) : (d.le e || e.le d) = true := by
  have hswap : e.compare d = (d.compare e).swap := OrientedCmp.eq_swap
  rw [le, le, hswap]
  cases d.compare e <;> rfl

theorem ties_of_le {d e : Diagnostic} (h : d.le e = true) (h' : e.le d = true) :
    d.ties e = true := by
  rw [ties_iff]
  exact OrientedCmp.isLE_antisymm h h'

theorem le_of_ties {d e : Diagnostic} (h : d.ties e = true) : d.le e = true := by
  rw [le, ties_iff.mp h]
  rfl

theorem mem_dropRepeats {d : Diagnostic} {ds : List Diagnostic} : d ∈ dropRepeats ds ↔ d ∈ ds := by
  fun_induction dropRepeats ds with
  | case1 => rfl
  | case2 e => rfl
  | case3 e ds ih => rw [ih]; simp
  | case4 e e' ds hne ih => rw [List.mem_cons, ih, ← List.mem_cons]

theorem mem_report {d : Diagnostic} {ds : List Diagnostic} : d ∈ report ds ↔ d ∈ ds := by
  rw [report, mem_dropRepeats, sort, List.mem_mergeSort]

theorem pairwise_sort (ds : List Diagnostic) : (sort ds).Pairwise fun d e => d.le e = true :=
  List.pairwise_mergeSort le_trans le_total ds

/-- Sorting keeps each run of ties as it was. -/
theorem filter_ties_sort (d : Diagnostic) (ds : List Diagnostic) :
    (sort ds).filter d.ties = ds.filter d.ties := by
  have hties : (ds.filter d.ties).Pairwise fun e f => e.le f = true :=
    List.pairwise_of_forall_mem_list fun e he f hf => le_of_ties (ties_trans
      (ties_symm (List.mem_filter.mp he).2) (List.mem_filter.mp hf).2)
  have hsub : (ds.filter d.ties).Sublist (sort ds) :=
    List.sublist_mergeSort le_trans le_total hties List.filter_sublist
  have hsub := hsub.filter d.ties
  simp only [List.filter_filter, Bool.and_self] at hsub
  have hperm := (List.mergeSort_perm ds le).filter d.ties
  exact (hsub.eq_of_length hperm.length_eq.symm).symm

/-- The first of a sorted list may stand before all of it. -/
theorem le_of_mem {d e : Diagnostic} {ds : List Diagnostic}
    (h : (d :: ds).Pairwise fun d e => d.le e = true) (he : e ∈ d :: ds) : d.le e = true := by
  rcases List.mem_cons.mp he with rfl | he
  · exact le_of_ties (ties_refl _)
  · exact (List.pairwise_cons.mp h).1 e he

/-- Every diagnostic is in the run of its ties. -/
theorem mem_iff_of_filter_ties {ds es : List Diagnostic}
    (h : ∀ d : Diagnostic, ds.filter d.ties = es.filter d.ties) (d : Diagnostic) :
    d ∈ ds ↔ d ∈ es := by
  have hself : d ∈ ds.filter d.ties ↔ d ∈ es.filter d.ties := by rw [h d]
  simpa [List.mem_filter, ties_refl] using hself

/-- A sorted list is determined by its runs of ties. -/
theorem eq_of_filter_ties {ds es : List Diagnostic} (hds : ds.Pairwise fun d e => d.le e = true)
    (hes : es.Pairwise fun d e => d.le e = true)
    (h : ∀ d : Diagnostic, ds.filter d.ties = es.filter d.ties) : ds = es := by
  induction ds generalizing es with
  | nil =>
    refine (List.eq_nil_iff_forall_not_mem.mpr fun e he => ?_).symm
    exact List.not_mem_nil ((mem_iff_of_filter_ties h e).mpr he)
  | cons d ds ih =>
    have hmem := mem_iff_of_filter_ties h
    cases es with
    | nil => exact absurd ((hmem d).mp List.mem_cons_self) List.not_mem_nil
    | cons e es =>
      -- Each of the two first elements may stand before the other, so they head one run.
      have hties : d.ties e = true :=
        ties_of_le (le_of_mem hds ((hmem e).mpr List.mem_cons_self))
          (le_of_mem hes ((hmem d).mp List.mem_cons_self))
      have hruns := h d
      rw [List.filter_cons_of_pos (ties_refl d), List.filter_cons_of_pos hties] at hruns
      obtain rfl : d = e := (List.cons.inj hruns).1
      have htails : ∀ f : Diagnostic, ds.filter f.ties = es.filter f.ties := fun f => by
        have hf := h f
        by_cases hfd : f.ties d = true
        · simpa [hfd] using hf
        · simpa [hfd] using hf
      rw [ih hds.of_cons hes.of_cons htails]

theorem sort_congr {ds es : List Diagnostic}
    (h : ∀ d : Diagnostic, ds.filter d.ties = es.filter d.ties) : sort ds = sort es :=
  eq_of_filter_ties (pairwise_sort ds) (pairwise_sort es) fun d => by
    rw [filter_ties_sort, filter_ties_sort, h]

section Files

variable {α : Type} {found : α → List Diagnostic}

/-- No finding of the one ties with one of the other. -/
def Apart (found : α → List Diagnostic) (a b : α) : Prop :=
  ∀ d ∈ found a, ∀ e ∈ found b, ¬ d.ties e = true

theorem Apart.symm {a b : α} (h : Apart found a b) : Apart found b a :=
  fun e he d hd hties => h d hd e he (ties_symm hties)

/-- A run of ties comes from one of the two only. -/
theorem Apart.filter_ties {a b : α} (h : Apart found a b) (d : Diagnostic) :
    (found a).filter d.ties = [] ∨ (found b).filter d.ties = [] := by
  refine or_iff_not_imp_left.mpr fun ha => List.filter_eq_nil_iff.mpr fun e he hde => ha ?_
  exact List.filter_eq_nil_iff.mpr fun f hf hdf => h f hf e he (ties_trans (ties_symm hdf) hde)

/-- The order in which files are checked does not show in the report. -/
theorem sort_flatMap_perm {as bs : List α} (hperm : as.Perm bs) (hapart : as.Pairwise (Apart found)) :
    sort (as.flatMap found) = sort (bs.flatMap found) := by
  refine sort_congr fun d => ?_
  induction hperm with
  | nil => rfl
  | cons a _ ih =>
    rw [List.flatMap_cons, List.flatMap_cons, List.filter_append, List.filter_append,
      ih hapart.of_cons]
  | swap a b as =>
    have hba : Apart found b a := (List.pairwise_cons.mp hapart).1 a List.mem_cons_self
    simp only [List.flatMap_cons, List.filter_append]
    rcases hba.filter_ties d with hnone | hnone <;> rw [hnone] <;> rfl
  | trans h₁ _ ih₁ ih₂ =>
    exact (ih₁ hapart).trans (ih₂ ((h₁.pairwise_iff fun h => h.symm).mp hapart))

end Files

end Diagnostic

end LevelGuard
