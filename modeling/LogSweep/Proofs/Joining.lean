import LogSweep.Proofs.NormalForm
import LogSweep.Proofs.Removal

/-! Texts joined by a newline. A scan that is in no open call at the seam starts afresh behind it,
so two texts are cleaned apart and their cleaned texts are joined, where a text that loses all its
lines leaves no newline behind either. -/
namespace LogSweep.Text

lemma unlines_cons (l : Text) {ls : List Text} (h : ls ≠ []) :
    unlines (l :: ls) = l ++ '\n' :: unlines ls := by
  rw [unlines, List.intercalate_cons_of_ne_nil h, List.append_assoc]
  rfl

lemma unlines_append {xs ys : List Text} (hx : xs ≠ []) (hy : ys ≠ []) :
    unlines (xs ++ ys) = unlines xs ++ '\n' :: unlines ys := by
  induction xs with
  | nil => exact absurd rfl hx
  | cons x xs ih =>
    rw [List.cons_append, unlines_cons x (by simp [hy])]
    by_cases hxs : xs = []
    · simp [hxs]
    · rw [ih hxs, unlines_cons x hxs, List.append_assoc, List.cons_append]

/-- Texts are squeezed before or after they are joined. -/
lemma squeeze_join (a b : Text) :
    squeeze (squeeze a ++ '\n' :: squeeze b) = squeeze (a ++ '\n' :: b) := by
  have hb : squeeze ('\n' :: squeeze b) = squeeze ('\n' :: b) := by
    rw [squeeze_cons, squeeze_cons, squeeze_squeeze]
  rw [← squeeze_append, hb, squeeze_squeeze, squeeze_append]

/-! The lines of two texts. -/

variable {xs : List Text}

lemma final_of_closed (h : endsInsideCall xs = false) :
    Position.statement.final (withoutWholeCalls xs) = .statement := by
  unfold endsInsideCall at h
  cases hp : Position.statement.final (withoutWholeCalls xs) with
  | statement => rfl
  | insideCall => simp [hp] at h

lemma survivors_append (h : endsInsideCall xs = false) (ys : List Text) :
    survivors (xs ++ ys) = survivors xs ++ survivors ys := by
  rw [survivors, withoutWholeCalls_append, Position.kept_append, final_of_closed h]
  rfl

lemma endsInsideCall_append (h : endsInsideCall xs = false) (ys : List Text) :
    endsInsideCall (xs ++ ys) = endsInsideCall ys := by
  rw [endsInsideCall, withoutWholeCalls_append, Position.final_append, final_of_closed h]
  rfl

variable {a b : Text}

lemma clean_text (t : Text) : (clean t).text = squeeze (unlines (survivors t.lines)) := rfl

lemma removed_lt_iff (t : Text) : (clean t).removed < t.lines.length ↔ survivors t.lines ≠ [] := by
  have h := clean_removed t
  rw [ne_eq, ← List.length_eq_zero_iff]
  omega

lemma removed_eq_iff (t : Text) : (clean t).removed = t.lines.length ↔ survivors t.lines = [] := by
  have h := clean_removed t
  rw [← List.length_eq_zero_iff]
  omega

/-! A text whose surviving lines are those of one text and then those of another one. -/

lemma clean_text_of_parts {t : Text}
    (hparts : survivors t.lines = survivors a.lines ++ survivors b.lines)
    (ha : survivors a.lines ≠ []) (hb : survivors b.lines ≠ []) :
    (clean t).text = squeeze ((clean a).text ++ '\n' :: (clean b).text) := by
  rw [clean_text, hparts, unlines_append ha hb, clean_text, clean_text, squeeze_join]

lemma clean_text_of_dropped_left {t : Text}
    (hparts : survivors t.lines = survivors a.lines ++ survivors b.lines)
    (ha : survivors a.lines = []) : (clean t).text = (clean b).text := by
  rw [clean_text, hparts, ha, List.nil_append, clean_text]

lemma clean_text_of_dropped_right {t : Text}
    (hparts : survivors t.lines = survivors a.lines ++ survivors b.lines)
    (hb : survivors b.lines = []) : (clean t).text = (clean a).text := by
  rw [clean_text, hparts, hb, List.append_nil, clean_text]

lemma survivors_join (closed : endsInsideCall a.lines = false) (b : Text) :
    survivors (a ++ '\n' :: b).lines = survivors a.lines ++ survivors b.lines := by
  rw [lines_append_newline, survivors_append closed b.lines]

lemma clean_join_text (closed : endsInsideCall a.lines = false) (ha : survivors a.lines ≠ [])
    (hb : survivors b.lines ≠ []) :
    (clean (a ++ '\n' :: b)).text = squeeze ((clean a).text ++ '\n' :: (clean b).text) :=
  clean_text_of_parts (survivors_join closed b) ha hb

lemma clean_join_text_of_dropped_left (closed : endsInsideCall a.lines = false)
    (ha : survivors a.lines = []) : (clean (a ++ '\n' :: b)).text = (clean b).text :=
  clean_text_of_dropped_left (survivors_join closed b) ha

lemma clean_join_text_of_dropped_right (closed : endsInsideCall a.lines = false)
    (hb : survivors b.lines = []) : (clean (a ++ '\n' :: b)).text = (clean a).text :=
  clean_text_of_dropped_right (survivors_join closed b) hb

/-- A first part that keeps a line may be cleaned before the second part comes. -/
lemma clean_join_clean (closed : endsInsideCall a.lines = false) (ha : survivors a.lines ≠ []) :
    (clean ((clean a).text ++ '\n' :: b)).text = (clean (a ++ '\n' :: b)).text := by
  -- the cleaned part is in normal form, so it keeps all its lines and ends in no call
  have hn := isNormal_clean a
  have hclosed := endsInsideCall_eq_false hn.1
  have hself : survivors (clean a).text.lines ≠ [] := by
    rw [survivors_eq_self hn.1]
    exact lines_ne_nil _
  have hclean : (clean (clean a).text).text = (clean a).text := by rw [clean_of_isNormal hn]
  by_cases hb : survivors b.lines = []
  · rw [clean_join_text_of_dropped_right hclosed hb, clean_join_text_of_dropped_right closed hb,
      hclean]
  · rw [clean_join_text hclosed hself hb, clean_join_text closed ha hb, hclean]

/-- Behind a text that does not end inside a call, another text is cleaned as if it stood alone. The
lines removed add up, the cleaned texts are joined and squeezed where both have lines left, and a
text that has none left leaves the other one alone. So the first text may be cleaned beforehand, as
long as it has a line left. -/
theorem clean_append_newline (a b : Text) (closed : (clean a).unterminated = false) :
    (clean (a ++ '\n' :: b)).removed = (clean a).removed + (clean b).removed ∧
    (clean (a ++ '\n' :: b)).unterminated = (clean b).unterminated ∧
    ((clean a).removed < a.lines.length → (clean b).removed < b.lines.length →
      (clean (a ++ '\n' :: b)).text = squeeze ((clean a).text ++ '\n' :: (clean b).text)) ∧
    ((clean a).removed = a.lines.length → (clean (a ++ '\n' :: b)).text = (clean b).text) ∧
    ((clean b).removed = b.lines.length → (clean (a ++ '\n' :: b)).text = (clean a).text) ∧
    ((clean a).removed < a.lines.length →
      (clean ((clean a).text ++ '\n' :: b)).text = (clean (a ++ '\n' :: b)).text) := by
  have closed : endsInsideCall a.lines = false := closed
  rw [removed_lt_iff, removed_lt_iff, removed_eq_iff, removed_eq_iff]
  refine ⟨?_, ?_, clean_join_text closed, clean_join_text_of_dropped_left closed,
    clean_join_text_of_dropped_right closed, clean_join_clean closed⟩
  · have h := clean_removed (a ++ '\n' :: b)
    rw [lines_append_newline, survivors_append closed b.lines, List.length_append,
      List.length_append] at h
    have ha := clean_removed a
    have hb := clean_removed b
    omega
  · have h := endsInsideCall_append closed b.lines
    rwa [← lines_append_newline] at h

/-- The newlines on both sides of the seam make up one run. -/
theorem clean_append_newline_blank_seam :
    let a : Text := "x\nlogger.info(\n1);\n\n".toList
    let b : Text := "\nlogger.warn(\n".toList
    (clean a).unterminated = false ∧
    (clean (a ++ '\n' :: b)).removed = 2 + 2 ∧
    (clean (a ++ '\n' :: b)).unterminated = true ∧
    (clean (a ++ '\n' :: b)).text = "x\n\n".toList ∧
    (clean ((clean a).text ++ '\n' :: b)).text = "x\n\n".toList := by
  intro a b
  have closed : (clean a).unterminated = false := by decide
  obtain ⟨hremoved, hunterminated, htext, -, -, hfirst⟩ := clean_append_newline a b closed
  have hjoined : (clean (a ++ '\n' :: b)).text = "x\n\n".toList := by
    rw [htext (by decide) (by decide)]
    decide
  refine ⟨closed, ?_, ?_, hjoined, ?_⟩
  · rw [hremoved]
    decide
  · rw [hunterminated]
    decide
  · rw [hfirst (by decide), hjoined]

end LogSweep.Text
