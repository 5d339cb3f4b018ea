import LogSweep.Proofs.NormalForm
import LogSweep.Proofs.Removal

/-! The order of the passes. A scan alone removes whole calls too, as each of them starts a call that
it closes itself. The difference lies inside open calls: there a whole call closes the open one,
unless it is removed before the scan comes. So removing whole calls first can only remove more. -/
namespace LogSweep

namespace Position

/-! One line more. -/

lemma final_snoc_eq_insideCall (p : Position) (ls : List Text) (l : Text) :
    (p.final (ls ++ [l]) == .insideCall) =
      ((p.final ls == .insideCall || Call.starts l) && !Call.closes l) := by
  rw [final_append, final_cons, final_nil, next_eq_insideCall]

lemma kept_snoc (p : Position) (ls : List Text) (l : Text) :
    p.kept (ls ++ [l]) =
      p.kept ls ++ if p.final ls == .insideCall || Call.starts l then [] else [l] := by
  rw [kept_append, kept, keeps_eq, kept_nil]
  cases p.final ls == .insideCall || Call.starts l <;> rfl

end Position

namespace Text

/-- A whole call is inside an open one: the lines in front of it end inside a call. -/
def NestsWholeCall (ls : List Text) : Prop :=
  ∃ i < ls.length, ls[i]?.any Call.isWhole ∧ endsInsideCall (ls.take i)

instance (ls : List Text) : Decidable (NestsWholeCall ls) :=
  inferInstanceAs (Decidable (∃ i < ls.length, _ ∧ _))

lemma NestsWholeCall.snoc {ls : List Text} (h : NestsWholeCall ls) (l : Text) :
    NestsWholeCall (ls ++ [l]) := by
  obtain ⟨i, hi, hwhole, hopen⟩ := h
  refine ⟨i, by rw [List.length_append]; omega, ?_, ?_⟩
  · rwa [List.getElem?_append_left hi]
  · rwa [List.take_append_of_le_length (Nat.le_of_lt hi)]

lemma nestsWholeCall_of_last {ls : List Text} {l : Text} (hwhole : Call.isWhole l)
    (hopen : endsInsideCall ls) : NestsWholeCall (ls ++ [l]) :=
  ⟨ls.length, by simp, by simpa using hwhole, by simpa using hopen⟩

/-- A scan alone is inside a call only where the scan behind the first pass is inside one too. -/
lemma endsInsideCall_of_final {ls : List Text}
    (h : Position.statement.final ls = .insideCall) : endsInsideCall ls := by
  induction ls using List.reverseRecOn with
  | nil => cases h
  | append_singleton ls l ih =>
    have hlast := Position.final_snoc_eq_insideCall .statement ls l
    rw [h, beq_self_eq_true, eq_comm, Bool.and_eq_true, Bool.or_eq_true, beq_iff_eq] at hlast
    obtain ⟨hopen, hcloses⟩ := hlast
    have hwhole : Call.isWhole l = false := by
      by_contra hw
      have hcl := Call.closes_of_isWhole (by simpa using hw)
      simp [hcl] at hcloses
    have hleaves : Call.leavesOpen l = true := by simp [Call.leavesOpen, hcloses]
    rw [endsInsideCall_snoc, hleaves, Bool.and_true, Bool.or_eq_true,
      ← Call.starts_eq_opens hwhole]
    exact hopen.imp_left ih

/-- What survives both passes, a scan alone keeps too. -/
lemma survivors_sublist_kept (ls : List Text) :
    (survivors ls).Sublist (Position.statement.kept ls) := by
  induction ls using List.reverseRecOn with
  | nil => exact List.Sublist.refl _
  | append_singleton ls l ih =>
    rw [survivors_snoc, Position.kept_snoc]
    refine ih.append ?_
    split
    · exact List.nil_sublist _
    · next hsurvives =>
      simp only [Bool.or_eq_true, not_or, Bool.not_eq_true] at hsurvives
      obtain ⟨⟨hwhole, hclosed⟩, hstarts⟩ := hsurvives
      rw [← Call.starts_eq_opens hwhole] at hstarts
      have hfinal : Position.statement.final ls ≠ .insideCall := fun hfinal => by
        rw [endsInsideCall_of_final hfinal] at hclosed
        cases hclosed
      simp [hstarts, hfinal]

/-- Where no whole call is inside an open one, a whole call is removed by both, and any other line
finds both scans at the same position. -/
lemma survivors_eq_kept {ls : List Text} (h : ¬ NestsWholeCall ls) :
    survivors ls = Position.statement.kept ls ∧
      endsInsideCall ls = (Position.statement.final ls == .insideCall) := by
  induction ls using List.reverseRecOn with
  | nil => exact ⟨rfl, rfl⟩
  | append_singleton ls l ih =>
    obtain ⟨hkept, hopen⟩ := ih fun hn => h (hn.snoc l)
    rw [survivors_snoc, Position.kept_snoc, endsInsideCall_snoc, Position.final_snoc_eq_insideCall,
      hkept, ← hopen]
    cases hwhole : Call.isWhole l with
    | true =>
      have hclosed : endsInsideCall ls = false := by
        by_contra hn
        exact h (nestsWholeCall_of_last hwhole (by simpa using hn))
      have hstarts := Call.starts_of_isWhole hwhole
      have hcloses := Call.closes_of_isWhole hwhole
      simp [hclosed, hstarts, hcloses, Call.opens, hwhole]
    | false =>
      rw [Call.starts_eq_opens hwhole, Call.leavesOpen, hwhole, Bool.false_or, Bool.false_or]
      exact ⟨rfl, rfl⟩

/-- Behind a scan no whole call is left to remove. -/
lemma withoutWholeCalls_kept (p : Position) (ls : List Text) :
    withoutWholeCalls (p.kept ls) = p.kept ls :=
  withoutWholeCalls_eq_self fun _ => Position.starts_of_mem_kept

/-- Removing whole calls before the scan keeps no line that the scan alone does not keep, and ends
inside a call wherever the scan alone does. Both come to the same unless a whole call is inside an
open one. Removing whole calls after the scan removes nothing more. -/
theorem passes_compare (ls : List Text) :
    (survivors ls).Sublist (Position.statement.kept ls) ∧
    (Position.statement.final ls = .insideCall → endsInsideCall ls = true) ∧
    (¬ NestsWholeCall ls →
      survivors ls = Position.statement.kept ls ∧
      endsInsideCall ls = (Position.statement.final ls == .insideCall)) ∧
    withoutWholeCalls (Position.statement.kept ls) = Position.statement.kept ls :=
  ⟨survivors_sublist_kept ls, endsInsideCall_of_final, survivors_eq_kept,
    withoutWholeCalls_kept .statement ls⟩

/-- A whole call in front of an open one makes no difference, one inside it does. -/
theorem passes_compare_nested_or_not :
    let apart : List Text := ["a".toList, "logger.warn(1);".toList, "logger.info(".toList]
    let nested : List Text := ["logger.info(".toList, "logger.warn(1);".toList, "b".toList]
    ¬ NestsWholeCall apart ∧ Position.statement.final apart = .insideCall ∧
    endsInsideCall apart = true ∧ survivors apart = ["a".toList] ∧
    NestsWholeCall nested ∧ (survivors nested).Sublist (Position.statement.kept nested) ∧
    survivors nested = [] ∧ Position.statement.kept nested = ["b".toList] := by
  intro apart nested
  have happart : ¬ NestsWholeCall apart := by decide
  have hfinal : Position.statement.final apart = .insideCall := by decide
  have hkept : Position.statement.kept apart = ["a".toList] := by decide
  obtain ⟨-, hopen, hsame, -⟩ := passes_compare apart
  exact ⟨happart, hfinal, hopen hfinal, (hsame happart).1.trans hkept, by decide,
    (passes_compare nested).1, by decide, by decide⟩

end Text
end LogSweep
