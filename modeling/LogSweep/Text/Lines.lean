import LogSweep.Text.Blank

/-! The lines of a text, and the texts that occur in a text. -/
namespace LogSweep.Text

/-- The lines of a text are the pieces between its newlines, one more than there are newlines. -/
def lines (t : Text) : List Text := t.splitOn '\n'

def unlines (ls : List Text) : Text := ['\n'].intercalate ls

theorem lines_ne_nil (t : Text) : t.lines ≠ [] := List.splitOn_ne_nil _ _

@[simp] theorem unlines_lines (t : Text) : unlines t.lines = t := List.intercalate_splitOn _

@[simp] theorem unlines_singleton (l : Text) : unlines [l] = l := List.intercalate_singleton ..

theorem lines_unlines {ls : List Text} (h : ∀ l ∈ ls, '\n' ∉ l) (hne : ls ≠ []) :
    (unlines ls).lines = ls :=
  List.splitOn_intercalate _ h hne

@[simp] theorem lines_nil : lines [] = [[]] := rfl

@[simp] theorem lines_append_newline (a b : Text) :
    lines (a ++ '\n' :: b) = lines a ++ lines b :=
  List.splitOnP_append_cons _ _ (by decide)

@[simp] theorem lines_cons_newline (t : Text) : lines ('\n' :: t) = [] :: lines t :=
  lines_append_newline [] t

theorem lines_of_notMem {l : Text} (h : '\n' ∉ l) : lines l = [l] :=
  List.splitOnP_eq_singleton fun _ hc => beq_eq_false_iff_ne.mpr fun hn => h (hn ▸ hc)

theorem lines_cons_of_ne {c : Char} (h : c ≠ '\n') (t : Text) :
    lines (c :: t) = (lines t).modifyHead (c :: ·) := by
  rw [lines, List.splitOn_cons_eq_if_modifyHead, if_neg (by simpa using h)]
  rfl

theorem newline_notMem_of_mem_lines {t l : Text} (h : l ∈ t.lines) : '\n' ∉ l := by
  induction t generalizing l with
  | nil =>
    rw [lines_nil, List.mem_singleton] at h
    simp [h]
  | cons c t ih =>
    obtain ⟨l', ls, hl⟩ := List.exists_cons_of_ne_nil (lines_ne_nil t)
    by_cases hc : c = '\n'
    · subst hc
      rw [lines_cons_newline, List.mem_cons] at h
      rcases h with rfl | h
      · simp
      · exact ih h
    · rw [lines_cons_of_ne hc, hl, List.modifyHead_cons, List.mem_cons] at h
      rcases h with rfl | h
      · have hn := ih (hl ▸ List.mem_cons_self)
        simp [Ne.symm hc, hn]
      · exact ih (hl ▸ List.mem_cons_of_mem _ h)

def contains (p : Text) : Text → Bool
  | [] => p.isEmpty
  | c :: t => p.isPrefixOf (c :: t) || contains p t

/-- What follows `p` in a text that starts with it. -/
def after? (p t : Text) : Option Text :=
  if p.isPrefixOf t then some (t.drop p.length) else none

@[simp] theorem after?_append (p t : Text) : after? p (p ++ t) = some t := by
  simp [after?]

theorem eq_append_of_after? {p t r : Text} (h : after? p t = some r) : t = p ++ r := by
  unfold after? at h
  split at h
  · rename_i hp
    obtain ⟨s, rfl⟩ := List.isPrefixOf_iff_prefix.1 hp
    simpa using h
  · cases h

theorem contains_iff {p t : Text} : contains p t ↔ ∃ a b, t = a ++ p ++ b := by
  induction t with
  | nil => simp [contains, and_comm]
  | cons c t ih =>
    rw [contains, Bool.or_eq_true, ih, List.isPrefixOf_iff_prefix]
    constructor
    · rintro (⟨b, hb⟩ | ⟨a, b, rfl⟩)
      · exact ⟨[], b, by simpa using hb.symm⟩
      · exact ⟨c :: a, b, rfl⟩
    · rintro ⟨a, b, h⟩
      cases a with
      | nil => exact .inl ⟨b, by simpa using h.symm⟩
      | cons d a =>
        simp only [List.cons_append, List.cons.injEq] at h
        exact .inr ⟨a, b, h.2⟩

example : lines "a\n\nb\n".toList = ["a".toList, [], "b".toList, []] := by decide
example : contains ");".toList "f(a);b".toList = true := by decide
example : contains ");".toList "f(a) ;b".toList = false := by decide

end LogSweep.Text
