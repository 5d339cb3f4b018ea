import LogSweep.Proofs.Joining
import LogSweep.Text.Utf8
import Mathlib.Data.List.Flatten

/-! Cleaning only takes away. The cleaned text is what is left of the text after some of its
characters are struck out, so it is shorter in bytes wherever it differs, and it differs exactly
where the text is not in normal form. -/
namespace LogSweep

namespace Utf8

/-- A text from which characters are struck out takes fewer bytes. -/
theorem length_encode_lt {a b : Text} (h : a.Sublist b) (hne : a ≠ b) :
    (encode a).length < (encode b).length := by
  have hbytes : (encode a).Sublist (encode b) := h.flatMap encodeChar
  refine Nat.lt_of_le_of_ne hbytes.length_le fun hlength => hne ?_
  exact encode_injective (hbytes.eq_of_length hlength)

end Utf8

namespace Text

lemma push_sublist (c : Char) (t : Text) : (push c t).Sublist (c :: t) := by
  rcases push_cases c t with ⟨-, hpush⟩ | ⟨-, -, hpush⟩
  · rw [hpush]
  · rw [hpush]
    exact List.sublist_cons_self _ _

lemma squeeze_sublist (t : Text) : (squeeze t).Sublist t := by
  induction t with
  | nil => exact .slnil
  | cons c t ih => exact (push_sublist c (squeeze t)).trans (ih.cons_cons c)

/-- Lines that are left out take their newlines along. -/
lemma unlines_sublist {kept ls : List Text} (h : kept.Sublist ls) :
    (unlines kept).Sublist (unlines ls) := by
  induction h with
  | slnil => exact List.Sublist.refl _
  | @cons kept ls l h ih =>
    by_cases hls : ls = []
    · subst hls
      rw [List.sublist_nil.mp h]
      exact List.nil_sublist _
    · rw [unlines_cons l hls]
      exact ih.trans ((List.sublist_cons_self _ _).trans (List.sublist_append_right _ _))
  | @cons_cons kept ls l h ih =>
    by_cases hkept : kept = []
    · subst hkept
      by_cases hls : ls = []
      · rw [hls]
      · rw [unlines_cons l hls, unlines_singleton]
        exact List.sublist_append_left _ _
    · have hls : ls ≠ [] := fun hls => hkept (List.sublist_nil.mp (hls ▸ h))
      rw [unlines_cons l hkept, unlines_cons l hls]
      exact (ih.cons_cons '\n').append_left l

lemma subset_of_mem_lines {t l : Text} (h : l ∈ t.lines) : l ⊆ t := by
  have hsub := unlines_sublist (List.singleton_sublist.mpr h)
  rw [unlines_lines, unlines_singleton] at hsub
  exact hsub.subset

/-- The cleaned text is the text with some of its characters struck out. -/
theorem clean_text_sublist (t : Text) : (clean t).text.Sublist t := by
  have h := (squeeze_sublist _).trans (unlines_sublist (survivors_sublist t.lines))
  rwa [unlines_lines] at h

/-- All lines survive exactly if none of them starts a call. -/
lemma survivors_eq_self_iff {ls : List Text} :
    survivors ls = ls ↔ ∀ l ∈ ls, Call.starts l = false :=
  ⟨fun h l hl => Position.starts_of_mem_kept (h.symm ▸ hl : l ∈ survivors ls), survivors_eq_self⟩

/-- A line that starts a call is removed, wherever it stands, and without one nothing is. -/
lemma removed_pos_iff (t : Text) :
    0 < (clean t).removed ↔ ∃ l ∈ t.lines, Call.starts l = true := by
  have hcount := clean_removed t
  have hall : (clean t).removed = 0 ↔ survivors t.lines = t.lines := by
    constructor
    · intro hzero
      exact (survivors_sublist t.lines).eq_of_length (by omega)
    · intro hsame
      rw [hsame] at hcount
      omega
  rw [Nat.pos_iff_ne_zero, ne_eq, hall, survivors_eq_self_iff]
  simp

lemma changed_iff (t : Text) : (clean t).changed = true ↔ ¬ t.IsNormal := by
  rw [← clean_text_eq_self_iff]
  exact bne_iff_ne

/-- A call can only be left open by a line that starts it. -/
lemma removed_pos_of_unterminated {t : Text} (h : (clean t).unterminated = true) :
    0 < (clean t).removed := by
  rw [removed_pos_iff]
  by_contra hnone
  have hstarts : ∀ l ∈ t.lines, Call.starts l = false := by simpa using hnone
  have hclosed : (clean t).unterminated = false := endsInsideCall_eq_false hstarts
  rw [h] at hclosed
  cases hclosed

lemma changed_of_starts {t : Text} {l : Text} (hl : l ∈ t.lines) (hs : Call.starts l = true) :
    (clean t).changed = true := by
  rw [changed_iff]
  rintro ⟨hnone, -⟩
  rw [hnone l hl] at hs
  cases hs

/-- A text that ends inside a call is never left as it is. -/
lemma changed_of_unterminated {t : Text} (h : (clean t).unterminated = true) :
    (clean t).changed = true := by
  obtain ⟨l, hl, hs⟩ := (removed_pos_iff t).mp (removed_pos_of_unterminated h)
  exact changed_of_starts hl hs

/-- A text counts as changed exactly if one of its lines starts a call or three newlines stand in a
row, and lines are removed exactly in the first case, which is that of every text with an open end.
A text that does not count as changed is the cleaned one, and any other gets shorter in bytes. -/
theorem clean_shrinks (t : Text) :
    ((clean t).changed = true ↔
      (∃ l ∈ t.lines, Call.starts l = true) ∨ ['\n', '\n', '\n'] <:+: t) ∧
    (0 < (clean t).removed ↔ ∃ l ∈ t.lines, Call.starts l = true) ∧
    ((clean t).unterminated = true → 0 < (clean t).removed ∧ (clean t).changed = true) ∧
    ((clean t).changed = false → (clean t).text = t ∧ (clean t).removed = 0) ∧
    ((clean t).changed = true →
      (Utf8.encode (clean t).text).length < (Utf8.encode t).length) := by
  have hchanged : (clean t).changed = true ↔
      (∃ l ∈ t.lines, Call.starts l = true) ∨ ['\n', '\n', '\n'] <:+: t := by
    rw [changed_iff, IsNormal, not_and_or, not_not]
    simp
  refine ⟨hchanged, removed_pos_iff t, fun hopen => ?_, fun hsame => ?_, fun hdiffers => ?_⟩
  · have hremoved := removed_pos_of_unterminated hopen
    exact ⟨hremoved, hchanged.mpr (.inl ((removed_pos_iff t).mp hremoved))⟩
  · rw [clean_of_not_changed hsame]
    exact ⟨rfl, rfl⟩
  · refine Utf8.length_encode_lt (clean_text_sublist t) fun hsame => ?_
    exact (changed_iff t).mp hdiffers (clean_text_eq_self_iff.mp hsame)

/-- Squeezed newlines do not count as removed lines. -/
example :
    (clean "a\n\n\nb".toList).removed = 0 ∧ (clean "a\n\n\nb".toList).changed = true := by
  decide

end Text
end LogSweep
