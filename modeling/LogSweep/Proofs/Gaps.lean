import LogSweep.Proofs.Joining
import Mathlib.Data.List.Basic

/-! The empty lines of a cleaned text. Squeezing leaves the lines that are not empty as they are and
shortens the gaps between them: one empty line at most is left between two of them, and two in front
of the first and behind the last, where each newline makes an empty line. -/
namespace LogSweep.Text

/-- The lines that are not empty. -/
def filled (ls : List Text) : List Text := ls.filter (!·.isEmpty)

/-- The number of empty lines in front of the first line that is not empty. -/
def leadingGap (ls : List Text) : Nat := (ls.takeWhile List.isEmpty).length

/-- The number of empty lines behind the last line that is not empty. -/
def trailingGap (ls : List Text) : Nat := leadingGap ls.reverse

/-- The numbers of empty lines between lines that are not empty, one for every two consecutive ones
of these. -/
def innerGaps (ls : List Text) : List Nat :=
  ((ls.splitOnP (!·.isEmpty)).map List.length).tail.dropLast

example : innerGaps (lines "\na\n\n\nb\nc\n".toList) = [2, 0] := by decide

lemma filled_gap (n : Nat) (ls : List Text) : filled (List.replicate n [] ++ ls) = filled ls := by
  simp [filled]

lemma filled_replicate (n : Nat) : filled (List.replicate n []) = [] := by
  simp [filled]

lemma trailingGap_replicate (n : Nat) : trailingGap (List.replicate n []) = n := by
  simp [trailingGap, leadingGap]

lemma splitOnP_replicate (n : Nat) :
    (List.replicate n ([] : Text)).splitOnP (!·.isEmpty) = [List.replicate n []] :=
  List.splitOnP_eq_singleton (by simp)

lemma innerGaps_replicate (n : Nat) : innerGaps (List.replicate n []) = [] := by
  rw [innerGaps, splitOnP_replicate]
  rfl

section
variable {x y : Text} (hx : x ≠ []) (hy : y ≠ []) (n : Nat) (ls : List Text)
include hx

lemma filled_cons : filled (x :: ls) = x :: filled ls := by
  simp [filled, hx]

lemma leadingGap_gap_cons : leadingGap (List.replicate n [] ++ x :: ls) = n := by
  rw [leadingGap, List.takeWhile_append_of_pos (by simp)]
  simp [hx]

/-- What stands in front of a line that is not empty does not count for the last gap. -/
lemma trailingGap_append_cons (before : List Text) :
    trailingGap (before ++ x :: ls) = trailingGap ls := by
  have hstop : (x :: before.reverse).takeWhile List.isEmpty = [] := by simp [hx]
  rw [trailingGap, List.reverse_append, List.reverse_cons, List.append_assoc, List.singleton_append,
    leadingGap, List.takeWhile_append]
  split
  · next h => rw [hstop, List.append_nil, trailingGap, leadingGap, h]
  · rfl

lemma trailingGap_cons : trailingGap (x :: ls) = trailingGap ls :=
  trailingGap_append_cons hx ls []

lemma splitOnP_gap_cons :
    (List.replicate n [] ++ x :: ls).splitOnP (!·.isEmpty) =
      List.replicate n [] :: ls.splitOnP (!·.isEmpty) := by
  rw [List.splitOnP_append_cons _ _ (by simp [hx]), splitOnP_replicate]
  rfl

lemma innerGaps_cons :
    innerGaps (x :: ls) = ((ls.splitOnP (!·.isEmpty)).map List.length).dropLast := by
  have h : (x :: ls).splitOnP (!·.isEmpty) = [] :: ls.splitOnP (!·.isEmpty) :=
    splitOnP_gap_cons hx 0 ls
  rw [innerGaps, h]
  rfl

lemma innerGaps_gap_cons : innerGaps (List.replicate n [] ++ x :: ls) = innerGaps (x :: ls) := by
  rw [innerGaps_cons hx, innerGaps, splitOnP_gap_cons hx]
  rfl

lemma innerGaps_cons_gap : innerGaps (x :: List.replicate n []) = [] := by
  rw [innerGaps_cons hx, splitOnP_replicate]
  rfl

include hy in
lemma innerGaps_cons_gap_cons :
    innerGaps (x :: (List.replicate n [] ++ y :: ls)) = n :: innerGaps (y :: ls) := by
  have hne : (ls.splitOnP (!·.isEmpty)).map List.length ≠ [] := by simp
  rw [innerGaps_cons hx, innerGaps_cons hy, splitOnP_gap_cons hy, List.map_cons,
    List.length_replicate, List.dropLast_cons_of_ne_nil hne]

end

/-- Lines are all empty, or there is a first one that is not. -/
lemma eq_gap_or (ls : List Text) :
    (∃ n, ls = List.replicate n []) ∨
      ∃ n x rest, x ≠ [] ∧ ls = List.replicate n [] ++ x :: rest := by
  induction ls with
  | nil => exact .inl ⟨0, rfl⟩
  | cons l ls ih =>
    by_cases hl : l = []
    · subst hl
      rcases ih with ⟨n, rfl⟩ | ⟨n, x, rest, hx, rfl⟩
      · exact .inl ⟨n + 1, rfl⟩
      · exact .inr ⟨n + 1, x, rest, hx, rfl⟩
    · exact .inr ⟨0, l, ls, hl, rfl⟩

/-! Squeezing line by line. -/

/-- The lines of the squeezed text of some lines. -/
def squeezeLines (ls : List Text) : List Text := (squeeze (unlines ls)).lines

/-- What squeezing makes of lines the first of which is not empty. -/
inductive Squeezes : List Text → List Text → Prop
  | last {x : Text} (n : Nat) (hx : x ≠ []) :
      Squeezes (x :: List.replicate n []) (x :: List.replicate (min n 2) [])
  | next {x y : Text} (n : Nat) {ls ls' : List Text} (hx : x ≠ []) (hy : y ≠ [])
      (behind : Squeezes (y :: ls) (y :: ls')) :
      Squeezes (x :: (List.replicate n [] ++ y :: ls))
        (x :: (List.replicate (min n 1) [] ++ y :: ls'))

namespace Squeezes

variable {ls ls' : List Text}

lemma head {x : Text} (h : Squeezes (x :: ls) ls') : ∃ rest, ls' = x :: rest := by
  cases h with
  | last n hx => exact ⟨_, rfl⟩
  | next n hx hy behind => exact ⟨_, rfl⟩

lemma filled_eq (h : Squeezes ls ls') : filled ls' = filled ls := by
  induction h with
  | last n hx =>
    rw [filled_cons hx, filled_cons hx, filled_replicate, filled_replicate]
  | next n hx _ _ ih => rw [filled_cons hx, filled_cons hx, filled_gap, filled_gap, ih]

lemma innerGaps_eq (h : Squeezes ls ls') : innerGaps ls' = (innerGaps ls).map (min 1) := by
  induction h with
  | last n hx => rw [innerGaps_cons_gap hx, innerGaps_cons_gap hx, List.map_nil]
  | next n hx hy _ ih =>
    rw [innerGaps_cons_gap_cons hx hy, innerGaps_cons_gap_cons hx hy, ih, List.map_cons,
      Nat.min_comm]

lemma trailingGap_eq (h : Squeezes ls ls') : trailingGap ls' = min (trailingGap ls) 2 := by
  induction h with
  | last n hx =>
    rw [trailingGap_cons hx, trailingGap_cons hx, trailingGap_replicate, trailingGap_replicate]
  | next n hx hy _ ih =>
    rw [trailingGap_cons hy, trailingGap_cons hy] at ih
    rw [trailingGap_cons hx, trailingGap_cons hx, trailingGap_append_cons hy,
      trailingGap_append_cons hy, ih]

end Squeezes

lemma unlines_gap_append (n : Nat) {ls : List Text} (h : ls ≠ []) :
    unlines (List.replicate n [] ++ ls) = List.replicate n '\n' ++ unlines ls := by
  induction n with
  | zero => rfl
  | succ n ih =>
    rw [List.replicate_succ, List.cons_append, unlines_cons _ (by simp [h]), ih]
    rfl

lemma unlines_gap (n : Nat) : unlines (List.replicate (n + 1) []) = List.replicate n '\n' := by
  rw [List.replicate_succ', unlines_gap_append n (by simp), unlines_singleton, List.append_nil]

lemma unlines_cons_gap (x : Text) (n : Nat) :
    unlines (x :: List.replicate n []) = x ++ List.replicate n '\n' := by
  cases n with
  | zero => simp
  | succ n =>
    rw [unlines_cons _ (by simp), unlines_gap]
    rfl

lemma lines_gap_append (n : Nat) (t : Text) :
    lines (List.replicate n '\n' ++ t) = List.replicate n [] ++ lines t := by
  induction n with
  | zero => rfl
  | succ n ih =>
    rw [List.replicate_succ, List.cons_append, lines_cons_newline, ih]
    rfl

lemma head?_unlines_cons {x : Text} (hx : x ≠ []) (hn : '\n' ∉ x) (ls : List Text) :
    (unlines (x :: ls)).head? ≠ some '\n' := by
  obtain ⟨c, w, rfl⟩ := List.exists_cons_of_ne_nil hx
  have hc : c ≠ '\n' := by
    rintro rfl
    exact hn List.mem_cons_self
  by_cases hls : ls = []
  · simpa [hls] using hc
  · rw [unlines_cons _ hls]
    simpa using hc

lemma squeezeLines_cons_gap {x : Text} (hn : '\n' ∉ x) (n : Nat) :
    squeezeLines (x :: List.replicate n []) = x :: List.replicate (min n 2) [] := by
  have hsqueeze : squeeze (unlines (x :: List.replicate n [])) =
      unlines (x :: List.replicate (min n 2) []) := by
    rw [unlines_cons_gap, unlines_cons_gap, squeeze_append_of_notMem hn, squeeze_newlines]
  rw [squeezeLines, hsqueeze]
  refine lines_unlines (fun l hl => ?_) (by simp)
  rcases List.mem_cons.mp hl with rfl | hl
  · exact hn
  · simp [List.eq_of_mem_replicate hl]

lemma squeezeLines_gap_cons {x : Text} (hx : x ≠ []) (hn : '\n' ∉ x) (n : Nat) (ls : List Text) :
    squeezeLines (List.replicate n [] ++ x :: ls) =
      List.replicate (min n 2) [] ++ squeezeLines (x :: ls) := by
  rw [squeezeLines, unlines_gap_append n (by simp),
    squeeze_newlines_append n (head?_unlines_cons hx hn ls), lines_gap_append]
  rfl

lemma squeezeLines_cons_gap_cons {x y : Text} (hnx : '\n' ∉ x) (hy : y ≠ []) (hny : '\n' ∉ y)
    (n : Nat) (ls : List Text) :
    squeezeLines (x :: (List.replicate n [] ++ y :: ls)) =
      x :: (List.replicate (min n 1) [] ++ squeezeLines (y :: ls)) := by
  have htext : unlines (x :: (List.replicate n [] ++ y :: ls)) =
      x ++ (List.replicate (n + 1) '\n' ++ unlines (y :: ls)) := by
    rw [unlines_cons _ (by simp), unlines_gap_append n (by simp)]
    rfl
  have hrun : List.replicate (min (n + 1) 2) '\n' = '\n' :: List.replicate (min n 1) '\n' := by
    rw [← List.replicate_succ]
    congr 1
    omega
  rw [squeezeLines, htext, squeeze_append_of_notMem hnx,
    squeeze_newlines_append _ (head?_unlines_cons hy hny ls), hrun, List.cons_append,
    lines_append_newline, lines_gap_append, lines_of_notMem hnx]
  rfl

lemma squeezeLines_gap (n : Nat) : ∃ m, squeezeLines (List.replicate n []) = List.replicate m [] := by
  cases n with
  | zero => exact ⟨1, rfl⟩
  | succ n =>
    have hlines := lines_gap_append (min n 2) []
    rw [List.append_nil, lines_nil, ← List.replicate_succ'] at hlines
    exact ⟨min n 2 + 1, by rw [squeezeLines, unlines_gap, squeeze_newlines, hlines]⟩

/-- The induction is on the lines behind a gap; an empty one makes the gap longer. -/
lemma squeezes_cons_gap_append {x : Text} {ls : List Text} (hx : x ≠ [])
    (hn : ∀ l ∈ x :: ls, '\n' ∉ l) (n : Nat) :
    Squeezes (x :: (List.replicate n [] ++ ls)) (squeezeLines (x :: (List.replicate n [] ++ ls))) := by
  have hnx := hn x List.mem_cons_self
  induction ls generalizing x n with
  | nil =>
    rw [List.append_nil, squeezeLines_cons_gap hnx]
    exact .last n hx
  | cons y ls ih =>
    by_cases hy : y = []
    · subst hy
      have hgap : List.replicate n [] ++ [] :: ls = List.replicate (n + 1) [] ++ ls := by
        simp [List.replicate_succ']
      rw [hgap]
      refine ih hx (fun l hl => hn l ?_) (n + 1) hnx
      rcases List.mem_cons.mp hl with rfl | hl
      · exact List.mem_cons_self
      · exact List.mem_cons_of_mem _ (List.mem_cons_of_mem _ hl)
    · have hny := hn y (by simp)
      have hbehind := ih hy (fun l hl => hn l (List.mem_cons_of_mem _ hl)) 0 hny
      rw [List.replicate_zero, List.nil_append] at hbehind
      obtain ⟨ls', hls'⟩ := hbehind.head
      rw [squeezeLines_cons_gap_cons hnx hy hny, hls']
      rw [hls'] at hbehind
      exact .next n hx hy hbehind

lemma squeezes_cons {x : Text} {ls : List Text} (hx : x ≠ []) (hn : ∀ l ∈ x :: ls, '\n' ∉ l) :
    Squeezes (x :: ls) (squeezeLines (x :: ls)) :=
  squeezes_cons_gap_append hx hn 0

/-- What squeezing keeps of some lines, and what it leaves of the gaps between them. -/
lemma squeezeLines_filled_and_innerGaps {ls : List Text} (hn : ∀ l ∈ ls, '\n' ∉ l) :
    filled (squeezeLines ls) = filled ls ∧
      innerGaps (squeezeLines ls) = (innerGaps ls).map (min 1) := by
  rcases eq_gap_or ls with ⟨n, rfl⟩ | ⟨n, x, rest, hx, rfl⟩
  · obtain ⟨m, hm⟩ := squeezeLines_gap n
    rw [hm, filled_replicate, filled_replicate, innerGaps_replicate, innerGaps_replicate]
    exact ⟨rfl, rfl⟩
  · have hn : ∀ l ∈ x :: rest, '\n' ∉ l := fun l hl => hn l (List.mem_append_right _ hl)
    have hs := squeezes_cons hx hn
    obtain ⟨rest', hrest⟩ := hs.head
    rw [squeezeLines_gap_cons hx (hn x List.mem_cons_self), filled_gap, filled_gap, hs.filled_eq,
      innerGaps_gap_cons hx, ← hs.innerGaps_eq, hrest, innerGaps_gap_cons hx]
    exact ⟨rfl, rfl⟩

/-- Where some line is not empty, two empty lines at most are left at either end. -/
lemma squeezeLines_ends {ls : List Text} (hn : ∀ l ∈ ls, '\n' ∉ l) (h : ∃ l ∈ ls, l ≠ []) :
    leadingGap (squeezeLines ls) = min (leadingGap ls) 2 ∧
      trailingGap (squeezeLines ls) = min (trailingGap ls) 2 := by
  rcases eq_gap_or ls with ⟨n, rfl⟩ | ⟨n, x, rest, hx, rfl⟩
  · obtain ⟨l, hl, hne⟩ := h
    exact absurd (List.eq_of_mem_replicate hl) hne
  · have hn : ∀ l ∈ x :: rest, '\n' ∉ l := fun l hl => hn l (List.mem_append_right _ hl)
    have hs := squeezes_cons hx hn
    obtain ⟨rest', hrest⟩ := hs.head
    have htrailing := hs.trailingGap_eq
    rw [hrest, trailingGap_cons hx, trailingGap_cons hx] at htrailing
    rw [squeezeLines_gap_cons hx (hn x List.mem_cons_self), hrest, leadingGap_gap_cons hx,
      leadingGap_gap_cons hx, trailingGap_append_cons hx, trailingGap_append_cons hx, htrailing]
    exact ⟨rfl, rfl⟩

lemma newline_notMem_of_mem_survivors {t l : Text} (h : l ∈ survivors t.lines) : '\n' ∉ l :=
  newline_notMem_of_mem_lines ((survivors_sublist t.lines).subset h)

/-- The lines of a cleaned text that are not empty are those of the surviving lines. Unless no line
survives, the lines of the cleaned text are lines of the text in their order, and there are never
more of them. Between two that are not empty one empty line is left if any survived there. At
either end as many empty lines are left as survived there, but two at most. -/
theorem clean_gaps (t : Text) :
    filled (clean t).text.lines = filled (survivors t.lines) ∧
    (survivors t.lines ≠ [] → (clean t).text.lines.Sublist t.lines) ∧
    (clean t).text.lines.length ≤ t.lines.length ∧
    innerGaps (clean t).text.lines = (innerGaps (survivors t.lines)).map (min 1) ∧
    ((∃ l ∈ survivors t.lines, l ≠ []) →
      leadingGap (clean t).text.lines = min (leadingGap (survivors t.lines)) 2 ∧
      trailingGap (clean t).text.lines = min (trailingGap (survivors t.lines)) 2) := by
  have hn : ∀ l ∈ survivors t.lines, '\n' ∉ l := fun l => newline_notMem_of_mem_survivors
  have hlines : (clean t).text.lines = squeezeLines (survivors t.lines) := rfl
  obtain ⟨hfilled, hinner⟩ := squeezeLines_filled_and_innerGaps hn
  have hsub : survivors t.lines ≠ [] → (clean t).text.lines.Sublist t.lines := fun hne => by
    have h := lines_squeeze_sublist (unlines (survivors t.lines))
    rw [lines_unlines hn hne] at h
    exact h.trans (survivors_sublist t.lines)
  refine ⟨hlines ▸ hfilled, hsub, ?_, hlines ▸ hinner, fun h => hlines ▸ squeezeLines_ends hn h⟩
  by_cases hne : survivors t.lines = []
  · rw [hlines, hne]
    exact List.length_pos_iff.mpr (lines_ne_nil t)
  · exact (hsub hne).length_le

/-- The gaps at both ends, the one on both sides of a call, and the one that only a call fills. -/
theorem clean_gaps_around_calls :
    let t : Text := "\n\n\na\n\nlogger.info(1);\n\nb\nlogger.warn(2);\nc\n\n\n\n".toList
    survivors t.lines ≠ [] ∧ (∃ l ∈ survivors t.lines, l ≠ []) ∧
    (clean t).text.lines.Sublist t.lines ∧
    innerGaps (survivors t.lines) = [2, 0] ∧ innerGaps (clean t).text.lines = [1, 0] ∧
    leadingGap (survivors t.lines) = 3 ∧ leadingGap (clean t).text.lines = 2 ∧
    trailingGap (survivors t.lines) = 4 ∧ trailingGap (clean t).text.lines = 2 := by
  intro t
  have hne : survivors t.lines ≠ [] := by decide
  have hfilled : ∃ l ∈ survivors t.lines, l ≠ [] := by decide
  have hleading : leadingGap (survivors t.lines) = 3 := by decide
  have htrailing : trailingGap (survivors t.lines) = 4 := by decide
  have hinner : innerGaps (survivors t.lines) = [2, 0] := by decide
  obtain ⟨-, hsub, -, hgaps, hends⟩ := clean_gaps t
  obtain ⟨hfirst, hlast⟩ := hends hfilled
  rw [hinner] at hgaps
  rw [hleading] at hfirst
  rw [htrailing] at hlast
  exact ⟨hne, hfilled, hsub hne, hinner, hgaps, hleading, hfirst, htrailing, hlast⟩

end LogSweep.Text
