import LogSweep.Proofs.Gaps

/-! Texts that are squeezed before they are cleaned. Empty lines move no scan, and those of one gap
are kept or lost together, so a scan treats lines alike whose gaps differ in length only. Hence
squeezing a text first changes at most how many empty lines the cleaned text has at its ends. -/
namespace LogSweep.Text

/-- The line in front of the others, unless both it and the next one are empty. -/
def putLine : Text → List Text → List Text
  | [], [] :: ls => [] :: ls
  | l, ls => l :: ls

/-- The lines with each gap between them cut to one empty line. -/
def thin (ls : List Text) : List Text := ls.foldr putLine []

@[simp] lemma thin_nil : thin [] = [] := rfl

lemma thin_cons (l : Text) (ls : List Text) : thin (l :: ls) = putLine l (thin ls) := rfl

/-- A line is put in front of others, or it is empty and so is the first of these. -/
lemma putLine_cases (l : Text) (ls : List Text) :
    putLine l ls = l :: ls ∨ l = [] ∧ (∃ rest, ls = [] :: rest) ∧ putLine l ls = ls := by
  unfold putLine
  split
  · exact .inr ⟨rfl, ⟨_, rfl⟩, rfl⟩
  · exact .inl rfl

lemma putLine_of_ne {l : Text} (h : l ≠ []) (ls : List Text) : putLine l ls = l :: ls := by
  rcases putLine_cases l ls with hput | ⟨hl, -, -⟩
  · exact hput
  · exact absurd hl h

lemma head?_putLine (l : Text) (ls : List Text) : (putLine l ls).head? = some l := by
  rcases putLine_cases l ls with hput | ⟨rfl, ⟨rest, rfl⟩, hput⟩
  · rw [hput, List.head?_cons]
  · rw [hput, List.head?_cons]

lemma head?_thin (ls : List Text) : (thin ls).head? = ls.head? := by
  cases ls with
  | nil => rfl
  | cons l ls => rw [thin_cons, head?_putLine, List.head?_cons]

lemma getLast?_thin (ls : List Text) : (thin ls).getLast? = ls.getLast? := by
  induction ls with
  | nil => rfl
  | cons l ls ih =>
    rw [thin_cons, List.getLast?_cons, ← ih]
    rcases putLine_cases l (thin ls) with hput | ⟨-, ⟨rest, hrest⟩, hput⟩
    · rw [hput, List.getLast?_cons]
    · rw [hput, hrest, List.getLast?_cons, Option.getD_some]

lemma putLine_nil_putLine_nil (ls : List Text) : putLine [] (putLine [] ls) = putLine [] ls := by
  rcases putLine_cases [] ls with hput | ⟨-, ⟨rest, rfl⟩, hput⟩
  · rw [hput]
    rfl
  · rw [hput, hput]

lemma filled_thin (ls : List Text) : filled (thin ls) = filled ls := by
  induction ls with
  | nil => rfl
  | cons l ls ih =>
    rw [thin_cons]
    rcases putLine_cases l (thin ls) with hput | ⟨rfl, -, hput⟩
    · rw [hput, filled, List.filter_cons, ← filled, ih, filled, filled, List.filter_cons]
    · rw [hput, ih]
      rfl

lemma thin_gap_append (n : Nat) {ls : List Text} (h : ls.head? ≠ some []) :
    thin (List.replicate n [] ++ ls) = List.replicate (min n 1) [] ++ thin ls := by
  induction n with
  | zero => rfl
  | succ n ih =>
    rw [List.replicate_succ, List.cons_append, thin_cons, ih]
    match n with
    | 0 =>
      -- the first of the other lines is not empty
      rcases putLine_cases [] (thin ls) with hput | ⟨-, ⟨rest, hrest⟩, -⟩
      · exact hput
      · rw [← head?_thin, hrest] at h
        exact absurd rfl h
    | n + 1 => simp [putLine]

lemma thin_gap (n : Nat) : thin (List.replicate n []) = List.replicate (min n 1) [] := by
  have h := thin_gap_append n (List.head?_nil.trans_ne (by simp))
  rwa [List.append_nil, thin_nil, List.append_nil] at h

lemma thin_gap_of_ne_nil {n : Nat} (h : List.replicate n ([] : Text) ≠ []) :
    thin (List.replicate n []) = [[]] := by
  have hn : n ≠ 0 := by
    rintro rfl
    exact h rfl
  rw [thin_gap, Nat.min_eq_right (Nat.one_le_iff_ne_zero.mpr hn)]
  rfl

namespace Squeezes

variable {ls ls' : List Text}

lemma thin_eq (h : Squeezes ls ls') : thin ls' = thin ls := by
  induction h with
  | last n hx =>
    rw [thin_cons, thin_cons, thin_gap, thin_gap]
    congr 2
    omega
  | @next x y n ls ls' hx hy behind ih =>
    rw [thin_cons, thin_cons, thin_gap_append _ (by simpa using hy),
      thin_gap_append _ (by simpa using hy), ih]
    congr 3
    omega

/-- Without empty lines at the end, squeezing cuts all gaps to one empty line. -/
lemma eq_thin (h : Squeezes ls ls') (hend : trailingGap ls = 0) : ls' = thin ls := by
  induction h with
  | last n hx =>
    rw [trailingGap_cons hx, trailingGap_replicate] at hend
    subst hend
    exact (putLine_of_ne hx []).symm
  | @next x y n ls ls' hx hy behind ih =>
    rw [trailingGap_cons hx, trailingGap_append_cons hy] at hend
    rw [thin_cons, putLine_of_ne hx, thin_gap_append _ (by simpa using hy),
      ← ih (by rwa [trailingGap_cons hy])]

end Squeezes

/-- Lines that begin and end with one that is not empty are squeezed as they are thinned. -/
lemma squeezeLines_eq_thin {ls : List Text} {x y : Text} (hn : ∀ l ∈ ls, '\n' ∉ l)
    (hfirst : ls.head? = some x) (hx : x ≠ []) (hlast : ls.getLast? = some y) (hy : y ≠ []) :
    squeezeLines ls = thin ls := by
  obtain ⟨rest, rfl⟩ := List.head?_eq_some_iff.mp hfirst
  obtain ⟨init, hinit⟩ := List.getLast?_eq_some_iff.mp hlast
  refine (squeezes_cons hx hn).eq_thin ?_
  rw [hinit, trailingGap_append_cons hy]
  rfl

/-- Squeezing a text changes the lengths of gaps only. -/
lemma thin_lines_squeeze (t : Text) : thin (squeeze t).lines = thin t.lines := by
  have hlines : (squeeze t).lines = squeezeLines t.lines := by rw [squeezeLines, unlines_lines]
  have hne : squeezeLines t.lines ≠ [] := lines_ne_nil _
  rw [hlines]
  rcases eq_gap_or t.lines with ⟨n, hgap⟩ | ⟨n, x, rest, hx, hgap⟩
  · obtain ⟨m, hm⟩ := squeezeLines_gap n
    have hne' : List.replicate n ([] : Text) ≠ [] := hgap ▸ lines_ne_nil t
    rw [hgap, hm] at hne ⊢
    rw [thin_gap_of_ne_nil hne, thin_gap_of_ne_nil hne']
  · have hn : ∀ l ∈ x :: rest, '\n' ∉ l := fun l hl =>
      newline_notMem_of_mem_lines (hgap ▸ List.mem_append_right _ hl)
    rw [hgap]
    have hs := squeezes_cons hx hn
    obtain ⟨rest', hrest⟩ := hs.head
    have hhead : (squeezeLines (x :: rest)).head? ≠ some [] := by simpa [hrest] using hx
    rw [squeezeLines_gap_cons hx (hn x List.mem_cons_self), thin_gap_append _ hhead,
      thin_gap_append _ (by simpa using hx), hs.thin_eq]
    congr 2
    omega

/-! Scans of lines whose gaps differ in length. -/

/-- No scan tells the lines apart, but for the lengths of the gaps that it keeps. -/
def ScannedAlike (xs ys : List Text) : Prop :=
  ∀ p : Position,
    thin (p.kept (withoutWholeCalls xs)) = thin (p.kept (withoutWholeCalls ys)) ∧
      p.final (withoutWholeCalls xs) = p.final (withoutWholeCalls ys)

namespace ScannedAlike

variable {xs ys zs : List Text}

lemma refl (xs : List Text) : ScannedAlike xs xs := fun _ => ⟨rfl, rfl⟩

lemma symm (h : ScannedAlike xs ys) : ScannedAlike ys xs := fun p => ⟨(h p).1.symm, (h p).2.symm⟩

lemma trans (h : ScannedAlike xs ys) (h' : ScannedAlike ys zs) : ScannedAlike xs zs := fun p =>
  ⟨(h p).1.trans (h' p).1, (h p).2.trans (h' p).2⟩

/-- Behind the same line all scans are at the same position. -/
lemma cons (h : ScannedAlike xs ys) (l : Text) : ScannedAlike (l :: xs) (l :: ys) := by
  intro p
  cases hw : Call.isWhole l with
  | true => simpa [withoutWholeCalls, hw] using h p
  | false =>
    have hl (ls : List Text) : withoutWholeCalls (l :: ls) = l :: withoutWholeCalls ls := by
      simp [withoutWholeCalls, hw]
    obtain ⟨hkept, hfinal⟩ := h (p.next l)
    rw [hl, hl, Position.kept, Position.kept, Position.final_cons, Position.final_cons, hfinal]
    refine ⟨?_, rfl⟩
    split
    · rw [thin_cons, thin_cons, hkept]
    · exact hkept

/-- An empty line leaves a scan where it is. -/
lemma gap (ls : List Text) : ScannedAlike ([] :: [] :: ls) ([] :: ls) := by
  intro p
  have hempty (ls : List Text) : withoutWholeCalls ([] :: ls) = [] :: withoutWholeCalls ls := rfl
  rw [hempty, hempty]
  cases p with
  | statement => exact ⟨putLine_nil_putLine_nil _, rfl⟩
  | insideCall => exact ⟨rfl, rfl⟩

/-- The induction is on the lines; an empty one may be left out in front of a gap. -/
theorem of_thin (ls : List Text) : ScannedAlike (thin ls) ls := by
  induction ls with
  | nil => exact refl []
  | cons l ls ih =>
    rw [thin_cons]
    rcases putLine_cases l (thin ls) with hput | ⟨rfl, ⟨rest, hrest⟩, hput⟩
    · rw [hput]
      exact ih.cons l
    · have hbehind := ih.cons []
      rw [hrest] at hbehind
      rw [hput, hrest]
      exact (gap rest).symm.trans hbehind

end ScannedAlike

/-- A text and the squeezed text are scanned alike. -/
lemma scannedAlike_squeeze (t : Text) : ScannedAlike (squeeze t).lines t.lines := by
  have hsqueezed := ScannedAlike.of_thin (squeeze t).lines
  rw [thin_lines_squeeze] at hsqueezed
  exact hsqueezed.symm.trans (ScannedAlike.of_thin t.lines)

/-! The first line and the last one. -/

lemma head?_survivors {ls : List Text} (h : ¬ Dropped ls 0) : (survivors ls).head? = ls.head? := by
  cases ls with
  | nil => rfl
  | cons l ls =>
    rw [dropped_iff, List.getElem?_cons_zero, Option.any_some, Option.any_some, not_or, not_or] at h
    obtain ⟨hwhole, -, hopens⟩ := h
    have hstarts : ∀ x ∈ [l], Call.starts x = false := by
      simp only [List.mem_singleton, forall_eq]
      rw [Call.starts_eq_opens (Bool.eq_false_iff.mpr hwhole)]
      exact Bool.eq_false_iff.mpr hopens
    rw [← List.singleton_append, survivors_append (endsInsideCall_eq_false hstarts),
      survivors_eq_self hstarts]
    rfl

lemma getLast?_survivors {ls : List Text} (h : ¬ Dropped ls (ls.length - 1)) :
    (survivors ls).getLast? = ls.getLast? := by
  rcases List.eq_nil_or_concat' ls with rfl | ⟨ls, l, rfl⟩
  · rfl
  · rw [List.length_append, List.length_singleton, Nat.add_sub_cancel, dropped_last_iff] at h
    rw [survivors_snoc, if_neg h, List.getLast?_concat, List.getLast?_concat]

lemma clean_text_of_ends {t : Text} {x y : Text} (hfirst : (survivors t.lines).head? = some x)
    (hx : x ≠ []) (hlast : (survivors t.lines).getLast? = some y) (hy : y ≠ []) :
    (clean t).text = unlines (thin (survivors t.lines)) := by
  have hn : ∀ l ∈ survivors t.lines, '\n' ∉ l := fun l => newline_notMem_of_mem_survivors
  rw [← squeezeLines_eq_thin hn hfirst hx hlast hy, squeezeLines, unlines_lines, clean_text]

/-- Squeezing a text before it is cleaned changes neither whether it ends inside a call nor which
lines that are not empty the cleaned text has. It changes nothing if the first line of the text and
the last one are not empty and survive. -/
theorem clean_squeeze (t : Text) :
    (clean (squeeze t)).unterminated = (clean t).unterminated ∧
    filled (clean (squeeze t)).text.lines = filled (clean t).text.lines ∧
    (t.lines.head? ≠ some [] → t.lines.getLast? ≠ some [] →
      ¬ Dropped t.lines 0 → ¬ Dropped t.lines (t.lines.length - 1) →
      (clean (squeeze t)).text = (clean t).text) := by
  obtain ⟨hthin, hfinal⟩ := scannedAlike_squeeze t .statement
  have hthin : thin (survivors (squeeze t).lines) = thin (survivors t.lines) := hthin
  refine ⟨?_, ?_, ?_⟩
  · show endsInsideCall (squeeze t).lines = endsInsideCall t.lines
    rw [endsInsideCall, hfinal, endsInsideCall]
  · have hfilled (t : Text) : filled (clean t).text.lines = filled (thin (survivors t.lines)) := by
      rw [filled_thin]
      exact (squeezeLines_filled_and_innerGaps fun l => newline_notMem_of_mem_survivors).1
    rw [hfilled, hthin, hfilled]
  · intro hfirst hlast hkept hkept'
    obtain ⟨x, hx⟩ := Option.isSome_iff_exists.mp (List.isSome_head?.mpr (lines_ne_nil t))
    obtain ⟨y, hy⟩ := Option.isSome_iff_exists.mp (List.getLast?_isSome.mpr (lines_ne_nil t))
    have hxne : x ≠ [] := fun h => hfirst (h ▸ hx)
    have hyne : y ≠ [] := fun h => hlast (h ▸ hy)
    have hhead : (survivors t.lines).head? = some x := (head?_survivors hkept).trans hx
    have hend : (survivors t.lines).getLast? = some y := (getLast?_survivors hkept').trans hy
    -- the ends of the lines show in what they are thinned to
    have hhead' : (survivors (squeeze t).lines).head? = some x := by
      rw [← head?_thin, hthin, head?_thin, hhead]
    have hend' : (survivors (squeeze t).lines).getLast? = some y := by
      rw [← getLast?_thin, hthin, getLast?_thin, hend]
    rw [clean_text_of_ends hhead' hxne hend' hyne, clean_text_of_ends hhead hxne hend hyne, hthin]

/-- A gap that a call cuts in two, one inside a call, and a long one between two lines that stay. -/
theorem clean_squeeze_cut_gaps :
    let t : Text :=
      "a\n\n\n\nlogger.info(1);\n\nb\nlogger.warn(\n\n\n2);\nc\n\n\n\n\nd".toList
    t.lines.head? ≠ some [] ∧ t.lines.getLast? ≠ some [] ∧ ¬ Dropped t.lines 0 ∧
    ¬ Dropped t.lines (t.lines.length - 1) ∧ squeeze t ≠ t ∧
    (clean (squeeze t)).text = (clean t).text ∧ (clean t).text = "a\n\nb\nc\n\nd".toList := by
  intro t
  have hfirst : t.lines.head? ≠ some [] := by decide
  have hlast : t.lines.getLast? ≠ some [] := by decide
  have hkept : ¬ Dropped t.lines 0 := by decide +kernel
  have hkept' : ¬ Dropped t.lines (t.lines.length - 1) := by decide +kernel
  exact ⟨hfirst, hlast, hkept, hkept', by decide,
    (clean_squeeze t).2.2 hfirst hlast hkept hkept', by decide⟩

/-- Behind a call at the start of a text more empty lines are left if it is not squeezed first. -/
example :
    let t : Text := "logger.info(1);\n\n\n\na".toList
    (clean t).text = "\n\na".toList ∧ (clean (squeeze t)).text = "\na".toList := by decide

end LogSweep.Text
