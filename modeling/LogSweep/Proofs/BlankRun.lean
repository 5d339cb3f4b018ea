import LogSweep.Text.BlankRun

/-! What squeezing does to a text: no long run of newlines is left, a text without one stays as it
is, and of the lines only empty ones are left out, never the first. Squeezing a whole text and
squeezing its pieces first give the same. -/
namespace LogSweep.Text

@[simp] theorem push_newline_newline (t : Text) :
    push '\n' ('\n' :: '\n' :: t) = '\n' :: '\n' :: t := rfl

theorem push_of_not_long {c : Char} {t : Text}
    (h : ¬ ['\n', '\n', '\n'] <+: c :: t) : push c t = c :: t := by
  unfold push
  split
  · exact absurd (by simp) h
  · rfl

/-- A character is put in front of a text, unless it is a newline in front of two others. -/
theorem push_cases (c : Char) (t : Text) :
    (¬ ['\n', '\n', '\n'] <+: c :: t ∧ push c t = c :: t) ∨
      (c = '\n' ∧ (∃ r, t = '\n' :: '\n' :: r) ∧ push c t = t) := by
  by_cases h : ['\n', '\n', '\n'] <+: c :: t
  · obtain ⟨r, hr⟩ := h
    simp only [List.cons_append, List.nil_append, List.cons.injEq] at hr
    obtain ⟨rfl, rfl⟩ := hr
    exact .inr ⟨rfl, ⟨r, rfl⟩, push_newline_newline r⟩
  · exact .inl ⟨h, push_of_not_long h⟩

theorem hasLongRun_iff {t : Text} : t.hasLongRun ↔ ['\n', '\n', '\n'] <:+: t := by
  rw [hasLongRun, contains_iff]
  exact exists₂_congr fun a b => eq_comm

/-- Squeezing leaves no long run. -/
theorem squeeze_not_infix (t : Text) : ¬ ['\n', '\n', '\n'] <:+: squeeze t := by
  induction t with
  | nil => simp
  | cons c t ih =>
    rw [squeeze_cons]
    rcases push_cases c (squeeze t) with ⟨hp, hpush⟩ | ⟨-, -, hpush⟩
    · rw [hpush, List.infix_cons_iff]
      exact fun h => h.elim hp ih
    · rw [hpush]
      exact ih

/-- A text without a long run is squeezed already. -/
theorem squeeze_eq_self {t : Text} (h : ¬ ['\n', '\n', '\n'] <:+: t) : squeeze t = t := by
  induction t with
  | nil => rfl
  | cons c t ih =>
    rw [List.infix_cons_iff, not_or] at h
    rw [squeeze_cons, ih h.2, push_of_not_long h.1]

theorem squeeze_eq_self_iff {t : Text} : squeeze t = t ↔ ¬ ['\n', '\n', '\n'] <:+: t :=
  ⟨fun h => h ▸ squeeze_not_infix t, squeeze_eq_self⟩

theorem squeeze_squeeze (t : Text) : squeeze (squeeze t) = squeeze t :=
  squeeze_eq_self <| squeeze_not_infix t

/-- Squeezing keeps the first line and leaves out some of the others. -/
theorem lines_squeeze (t : Text) :
    ∃ l rest kept, t.lines = l :: rest ∧ (squeeze t).lines = l :: kept ∧ kept.Sublist rest := by
  induction t with
  | nil => exact ⟨[], [], [], rfl, rfl, .slnil⟩
  | cons c t ih =>
    obtain ⟨l, rest, kept, ht, hs, hsub⟩ := ih
    by_cases hc : c = '\n'
    · subst hc
      refine ⟨[], l :: rest, ?_⟩
      rw [lines_cons_newline, ht, squeeze_cons]
      rcases push_cases '\n' (squeeze t) with ⟨-, hpush⟩ | ⟨-, ⟨r, hr⟩, hpush⟩
      · rw [hpush, lines_cons_newline, hs]
        exact ⟨l :: kept, rfl, rfl, hsub.cons_cons l⟩
      · rw [hpush, hs]
        have hl : l = [] := by
          rw [hr, lines_cons_newline] at hs
          exact (List.cons.inj hs).1.symm
        exact ⟨kept, rfl, by rw [hl], hsub.cons l⟩
    · rw [squeeze_cons, push_of_ne hc, lines_cons_of_ne hc, lines_cons_of_ne hc, ht, hs]
      exact ⟨c :: l, rest, kept, rfl, rfl, hsub⟩

theorem lines_squeeze_sublist (t : Text) : (squeeze t).lines.Sublist t.lines := by
  obtain ⟨l, rest, kept, ht, hs, hsub⟩ := lines_squeeze t
  rw [ht, hs]
  exact hsub.cons_cons l

/-! A run of newlines in front of a text. -/

theorem squeeze_append_of_notMem {w : Text} (h : '\n' ∉ w) (t : Text) :
    squeeze (w ++ t) = w ++ squeeze t := by
  induction w with
  | nil => rfl
  | cons c w ih =>
    rw [List.mem_cons, not_or] at h
    rw [List.cons_append, squeeze_cons, ih h.2, push_of_ne (Ne.symm h.1), List.cons_append]

theorem head?_squeeze (t : Text) : (squeeze t).head? = t.head? := by
  cases t with
  | nil => rfl
  | cons c t =>
    rw [squeeze_cons]
    rcases push_cases c (squeeze t) with ⟨-, hpush⟩ | ⟨rfl, ⟨r, hr⟩, hpush⟩
    · rw [hpush]
      rfl
    · rw [hpush, hr]
      rfl

/-- Of the newlines in front of a text two are left, or all if they are fewer. -/
theorem squeeze_newlines_append (n : Nat) {t : Text} (h : t.head? ≠ some '\n') :
    squeeze (List.replicate n '\n' ++ t) = List.replicate (min n 2) '\n' ++ squeeze t := by
  have hhead : (squeeze t).head? ≠ some '\n' := head?_squeeze t ▸ h
  induction n with
  | zero => rfl
  | succ n ih =>
    rw [List.replicate_succ, List.cons_append, squeeze_cons, ih]
    match n with
    | 0 | 1 =>
      -- the text goes on with no newline, so the run is still short
      refine push_of_not_long ?_
      rintro ⟨s, hs⟩
      obtain ⟨r, hr⟩ : ∃ r, '\n' :: r = squeeze t := ⟨_, by simpa using hs⟩
      rw [← hr] at hhead
      exact hhead rfl
    | n + 2 => simp [List.replicate]

theorem squeeze_newlines (n : Nat) :
    squeeze (List.replicate n '\n') = List.replicate (min n 2) '\n' := by
  have h := squeeze_newlines_append n (t := []) (by simp)
  rwa [List.append_nil, squeeze_nil, List.append_nil] at h

/-! Pieces of a text. -/

theorem exists_push_newline_push_newline (t : Text) :
    ∃ rest, push '\n' (push '\n' t) = '\n' :: '\n' :: rest := by
  rcases push_cases '\n' t with ⟨-, hpush⟩ | ⟨-, ⟨r, hr⟩, hpush⟩
  · rw [hpush]
    rcases push_cases '\n' ('\n' :: t) with ⟨-, hpush'⟩ | ⟨-, ⟨r, hr⟩, hpush'⟩
    · exact ⟨t, hpush'⟩
    · exact ⟨r, hpush'.trans hr⟩
  · rw [hpush, hpush]
    exact ⟨r, hr⟩

/-- A third newline in a row adds nothing. -/
theorem push_newline_thrice (t : Text) :
    push '\n' (push '\n' (push '\n' t)) = push '\n' (push '\n' t) := by
  obtain ⟨rest, h⟩ := exists_push_newline_push_newline t
  rw [h, push_newline_newline]

theorem foldr_push_push (s : Text) (c : Char) (t : Text) :
    (push c t).foldr push s = push c (t.foldr push s) := by
  rcases push_cases c t with ⟨-, hpush⟩ | ⟨rfl, ⟨r, rfl⟩, hpush⟩
  · rw [hpush, List.foldr_cons]
  · rw [hpush]
    exact (push_newline_thrice _).symm

/-- In front of any text, the characters of a squeezed text are pushed as those of the text. -/
theorem foldr_push_squeeze (s t : Text) : (squeeze t).foldr push s = t.foldr push s := by
  induction t with
  | nil => rfl
  | cons c t ih => rw [squeeze_cons, foldr_push_push, ih, List.foldr_cons]

/-- Pieces of a text may be squeezed before the whole is. -/
theorem squeeze_append (a b : Text) : squeeze (squeeze a ++ squeeze b) = squeeze (a ++ b) := by
  calc squeeze (squeeze a ++ squeeze b)
      = (squeeze a).foldr push (squeeze (squeeze b)) := List.foldr_append ..
    _ = a.foldr push (squeeze b) := by rw [squeeze_squeeze, foldr_push_squeeze]
    _ = squeeze (a ++ b) := (List.foldr_append ..).symm

end LogSweep.Text
