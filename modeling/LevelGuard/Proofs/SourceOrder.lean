import Mathlib.Data.List.Sort
import LevelGuard.Proofs.Renaming

/-!
# The order in which a file is asked for its types

The types of a file are told apart by where they begin, and its outline has them in this
order. A file is asked for each type once, except for those in labels of switch cases and in
annotations, which it is not asked for. The order is that of the text unless types stand both
in the body of a loop and in its condition after it, as the condition is asked first.
-/
namespace LevelGuard.Java

namespace TypeDecl

/-- A type begins before another one. -/
def Precedes (a b : TypeDecl) : Prop := a.span.startByte < b.span.startByte

instance : DecidableRel Precedes := fun a b => inferInstanceAs (Decidable (a.span.startByte < b.span.startByte))

theorem Precedes.asymm {a b : TypeDecl} (h : a.Precedes b) : ¬ b.Precedes a := Nat.lt_asymm h

end TypeDecl

theorem written_inOrder {path source : String} {u : CompilationUnit} (hread : readUnit? path source = some u) :
    u.outline.written.Pairwise TypeDecl.Precedes := by
  have hheads := heads_inOrder hread
  rw [Outline.heads_eq, List.pairwise_map] at hheads
  exact hheads

/-- Lists of the same types in the order of the text are the same. -/
theorem eq_of_perm_of_precedes {as bs : List TypeDecl} (h : as.Perm bs)
    (has : as.Pairwise TypeDecl.Precedes) (hbs : bs.Pairwise TypeDecl.Precedes) : as = bs := by
  exact h.eq_of_pairwise (fun a b _ _ hab hba => (hab.asymm hba).elim) has hbs

/-- The outline of a file has the types that are listed with the types around them, each once,
and it is asked once for each of them but the hidden ones. Where the types of the outline
follow each other as they begin in the text, and in a file that is read they do, it is asked
in this order exactly if its loops are straight, and so for all of them in this order exactly
if no types are hidden either. -/
theorem allTypes_follow_outline (u : CompilationUnit) :
    (u.nested.map (·.1)).Perm u.outline.written ∧
      (u.allTypes ++ u.outline.hidden).Perm u.outline.written ∧
      (u.outline.written.Pairwise TypeDecl.Precedes →
        (u.allTypes.Pairwise TypeDecl.Precedes ↔ u.outline.isStraight = true) ∧
        (u.allTypes = u.outline.written ↔ u.outline.hidden = [] ∧ u.outline.isStraight = true)) ∧
      ∀ path source, readUnit? path source = some u →
        u.outline.written.Pairwise TypeDecl.Precedes := by
  have hperm : (u.allTypes ++ u.outline.hidden).Perm u.outline.written :=
    u.shows.visited ▸ u.outline.visited_append_hidden_perm
  refine ⟨u.shows.lists, hperm, fun hwritten => ?_, fun _ _ hread => written_inOrder hread⟩
  have hstraight : u.allTypes.Pairwise TypeDecl.Precedes ↔ u.outline.isStraight = true :=
    u.shows.visited ▸ Outline.pairwise_visited_iff (fun _ _ => TypeDecl.Precedes.asymm) hwritten
  refine ⟨hstraight, fun heq => ?_, fun ⟨hhidden, hloops⟩ => ?_⟩
  · rw [← heq] at hperm
    have hlength := hperm.length_eq
    rw [List.length_append] at hlength
    refine ⟨List.eq_nil_of_length_eq_zero (by omega), hstraight.mp ?_⟩
    rw [heq]
    exact hwritten
  · rw [hhidden, List.append_nil] at hperm
    exact eq_of_perm_of_precedes hperm (hstraight.mpr hloops) hwritten

/-- A file with types in bodies, in a loop, in the condition of a switch case and in an
annotation. -/
def scatteredText : String :=
  "@A(new B() \x7b\x7d) class T \x7b void m() \x7b do \x7b class C \x7b class D \x7b\x7d \x7d \x7d while (f); " ++
    "switch (f) \x7b case E e when new G() \x7b\x7d.f -> new H() \x7b\x7d; \x7d \x7d \x7d class I \x7b\x7d"

theorem allTypes_follow_outline_scattered : ∃ u, readUnit? "T.java" scatteredText = some u ∧
    u.outline.written.map (·.qualified) = ["T", "$", "T$1C", "T$1C.D", "T$2", "T$3", "I"] ∧
    u.allTypes.map (·.qualified) = ["T", "T$1C", "T$1C.D", "T$3", "I"] ∧
    u.outline.hidden.map (·.qualified) = ["$", "T$2"] ∧
    u.allTypes.Pairwise TypeDecl.Precedes ∧ (u.allTypes ++ u.outline.hidden).Perm u.outline.written := by
  have hsome : ∃ u, readUnit? "T.java" scatteredText = some u ∧
      u.outline.written.map (·.qualified) = ["T", "$", "T$1C", "T$1C.D", "T$2", "T$3", "I"] ∧
      u.allTypes.map (·.qualified) = ["T", "T$1C", "T$1C.D", "T$3", "I"] ∧
      u.outline.hidden.map (·.qualified) = ["$", "T$2"] ∧ u.outline.isStraight = true :=
    exists_readUnit? (Text.toList_append_eq String.toList_ofList String.toList_ofList)
      (by decide +kernel)
  obtain ⟨u, hread, hwritten, hall, hhidden, hstraight⟩ := hsome
  obtain ⟨-, hperm, hordered, hbegin⟩ := allTypes_follow_outline u
  have hinOrder := (hordered (hbegin _ _ hread)).1.mpr hstraight
  exact ⟨u, hread, hwritten, hall, hhidden, hinOrder, hperm⟩

/-- Classes in the body and in the condition of a loop, and in the condition of a switch case. -/
def conditionsText : String :=
  "class T \x7b void m(Object s) \x7b do \x7b new A() \x7b\x7d; \x7d while (new B() \x7b\x7d.ok()); " ++
    "switch (s) \x7b case C c when new D() \x7b\x7d.ok() -> \x7b\x7d default -> \x7b\x7d \x7d \x7d \x7d"

/-- The class in the condition of the loop comes before the one in its body, and the class in
the condition of the switch case not at all. -/
theorem conditions_out_of_order : ∃ u, readUnit? "T.java" conditionsText = some u ∧
    u.outline.written.map (·.qualified) = ["T", "T$1", "T$2", "T$3"] ∧
    u.allTypes.map (·.qualified) = ["T", "T$2", "T$1"] ∧ ¬ u.allTypes.Pairwise TypeDecl.Precedes :=
  exists_readUnit? (Text.toList_append_eq String.toList_ofList String.toList_ofList)
    (by decide +kernel)

end LevelGuard.Java
