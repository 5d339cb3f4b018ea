import LogSweep.Cleaning
import LogSweep.Proofs.BlankRun
import Mathlib.Data.List.Basic

/-! The normal form of texts: no line starts a call and no long run of newlines is left. Cleaning
brings every text into normal form and changes no text that is in it, so the cleaned texts, the
texts that cleaning leaves alone and the texts in normal form are the same. -/
namespace LogSweep

namespace Position

lemma starts_of_mem_kept {p : Position} {ls : List Text} {l : Text} (h : l ∈ p.kept ls) :
    Call.starts l = false := by
  induction ls generalizing p with
  | nil => simp at h
  | cons x xs ih =>
    rw [kept] at h
    split at h
    · next hx =>
      rcases List.mem_cons.mp h with rfl | h
      · cases p
        · simpa [keeps] using hx
        · simp [keeps] at hx
      · exact ih h
    · exact ih h

lemma next_statement {l : Text} (h : Call.starts l = false) : next .statement l = .statement := by
  simp [next, h]

lemma kept_statement {ls : List Text} (h : ∀ l ∈ ls, Call.starts l = false) :
    statement.kept ls = ls ∧ statement.final ls = .statement := by
  induction ls with
  | nil => exact ⟨rfl, rfl⟩
  | cons l ls ih =>
    have hl := h l List.mem_cons_self
    obtain ⟨hk, hf⟩ := ih fun x hx => h x (List.mem_cons_of_mem _ hx)
    rw [kept, final_cons, next_statement hl]
    exact ⟨by simp [keeps, hl, hk], hf⟩

end Position

namespace Text

/-- No line of the text starts a call, and no three newlines stand in a row. -/
def IsNormal (t : Text) : Prop :=
  (∀ l ∈ t.lines, Call.starts l = false) ∧ ¬ ['\n', '\n', '\n'] <:+: t

lemma withoutWholeCalls_eq_self {ls : List Text} (h : ∀ l ∈ ls, Call.starts l = false) :
    withoutWholeCalls ls = ls := by
  refine List.filter_eq_self.mpr fun l hl => ?_
  cases hw : Call.isWhole l with
  | false => rfl
  | true => exact absurd (Call.starts_of_isWhole hw) (by simp [h l hl])

lemma survivors_eq_self {ls : List Text} (h : ∀ l ∈ ls, Call.starts l = false) :
    survivors ls = ls := by
  rw [survivors, withoutWholeCalls_eq_self h]
  exact (Position.kept_statement h).1

lemma endsInsideCall_eq_false {ls : List Text} (h : ∀ l ∈ ls, Call.starts l = false) :
    endsInsideCall ls = false := by
  rw [endsInsideCall, withoutWholeCalls_eq_self h, (Position.kept_statement h).2]
  rfl

/-- A text in normal form is cleaned already. -/
theorem clean_of_isNormal {t : Text} (h : t.IsNormal) : clean t = ⟨t, false, 0, false⟩ := by
  have hs := survivors_eq_self h.1
  have hu := endsInsideCall_eq_false h.1
  simp [clean, hs, hu, squeeze_eq_self h.2]

/-- The lines of a text that is put together from lines of another one are these, unless there are
none. -/
lemma lines_unlines_sublist {t : Text} {ls : List Text} (h : ls.Sublist t.lines) :
    (unlines ls).lines = ls ∨ ls = [] ∧ (unlines ls).lines = [[]] := by
  by_cases hne : ls = []
  · exact .inr ⟨hne, by rw [hne]; rfl⟩
  · exact .inl (lines_unlines (fun l hl => newline_notMem_of_mem_lines (h.subset hl)) hne)

/-- A cleaned text is in normal form. -/
theorem isNormal_clean (t : Text) : (clean t).text.IsNormal := by
  refine ⟨fun l hl => ?_, squeeze_not_infix _⟩
  have hl' := (lines_squeeze_sublist _).subset hl
  rcases lines_unlines_sublist (survivors_sublist t.lines) with h | ⟨-, h⟩
  · rw [h] at hl'
    exact Position.starts_of_mem_kept hl'
  · rw [h, List.mem_singleton] at hl'
    rw [hl']
    decide

theorem clean_text_eq_self_iff {t : Text} : (clean t).text = t ↔ t.IsNormal :=
  ⟨fun h => h ▸ isNormal_clean t, fun h => by rw [clean_of_isNormal h]⟩

/-- A text that cleaning does not change loses no line. -/
theorem clean_of_not_changed {t : Text} (h : (clean t).changed = false) :
    clean t = ⟨t, false, 0, false⟩ := by
  have ht : (clean t).text = t := by simpa [clean] using h
  exact clean_of_isNormal (clean_text_eq_self_iff.mp ht)

/-- Cleaning a cleaned text changes nothing, and the cleaned texts are those in normal form. -/
theorem clean_clean (t : Text) :
    clean (clean t).text = ⟨(clean t).text, false, 0, false⟩ ∧
    ((∃ s, (clean s).text = t) ↔ (clean t).text = t) ∧
    ((clean t).text = t ↔
      (∀ l ∈ t.lines, Call.starts l = false) ∧ ¬ ['\n', '\n', '\n'] <:+: t) := by
  refine ⟨clean_of_isNormal (isNormal_clean t), ⟨?_, fun h => ⟨t, h⟩⟩, clean_text_eq_self_iff⟩
  rintro ⟨s, rfl⟩
  exact clean_text_eq_self_iff.mpr (isNormal_clean s)

end Text
end LogSweep
