import LogSweep.Cleaning
import Mathlib.Data.List.Basic
import Mathlib.Data.List.Induction

/-! Which lines of a text are removed, said of the lines alone: a line is dropped if it is a whole
call, starts a call, or stands behind the start of a call that no line between them closes. Whole
calls close nothing. The scan of a text drops exactly these lines. -/
namespace LogSweep

namespace Call

/-- The line starts a call and is not a whole one. -/
def opens (line : Text) : Bool := starts line && !isWhole line

/-- A call that is open before the line is open behind it. -/
def leavesOpen (line : Text) : Bool := isWhole line || !closes line

lemma starts_eq_opens {line : Text} (h : isWhole line = false) : starts line = opens line := by
  simp [opens, h]

end Call

namespace Position

lemma next_eq_insideCall (p : Position) (l : Text) :
    (p.next l == .insideCall) = ((p == .insideCall || Call.starts l) && !Call.closes l) := by
  cases p <;> cases hs : Call.starts l <;> cases hc : Call.closes l <;>
    simp [next, afterCallLine, hs, hc]

lemma keeps_eq (p : Position) (l : Text) :
    p.keeps l = !(p == .insideCall || Call.starts l) := by
  cases p <;> simp [keeps]

end Position

namespace Text

/-- Some line opens a call, and all lines from there up to the given number of lines leave it
open. -/
def OpenAfter (ls : List Text) (n : Nat) : Prop :=
  ∃ j < n, ls[j]?.any Call.opens ∧ ∀ k < n, j ≤ k → ls[k]?.all Call.leavesOpen

/-- The line of an index is a whole call, or a line up to it opens a call that all lines between
them leave open. -/
def Dropped (ls : List Text) (i : Nat) : Prop :=
  ls[i]?.any Call.isWhole ∨
    ∃ j ≤ i, ls[j]?.any Call.opens ∧ ∀ k < i, j ≤ k → ls[k]?.all Call.leavesOpen

instance (ls : List Text) (n : Nat) : Decidable (OpenAfter ls n) :=
  inferInstanceAs (Decidable (∃ j < n, _ ∧ ∀ k < n, j ≤ k → _))

instance (ls : List Text) (i : Nat) : Decidable (Dropped ls i) :=
  inferInstanceAs (Decidable (_ ∨ ∃ j ≤ i, _ ∧ ∀ k < i, j ≤ k → _))

/-- The lines that are not dropped, in order. -/
def undropped (ls : List Text) : List Text :=
  (List.range ls.length).filterMap fun i => if Dropped ls i then none else ls[i]?

/-! One line more. -/

lemma withoutWholeCalls_append (xs ys : List Text) :
    withoutWholeCalls (xs ++ ys) = withoutWholeCalls xs ++ withoutWholeCalls ys :=
  List.filter_append ..

lemma endsInsideCall_snoc (ls : List Text) (l : Text) :
    endsInsideCall (ls ++ [l]) =
      ((endsInsideCall ls || Call.opens l) && Call.leavesOpen l) := by
  unfold endsInsideCall
  rw [withoutWholeCalls_append, Position.final_append]
  cases hw : Call.isWhole l with
  | true => simp [withoutWholeCalls, hw, Call.opens, Call.leavesOpen]
  | false =>
    have hl : withoutWholeCalls [l] = [l] := by simp [withoutWholeCalls, hw]
    rw [hl, Position.final_cons, Position.final_nil, Position.next_eq_insideCall]
    simp [Call.opens, Call.leavesOpen, hw]

lemma survivors_snoc (ls : List Text) (l : Text) :
    survivors (ls ++ [l]) =
      survivors ls ++ if Call.isWhole l || endsInsideCall ls || Call.opens l then [] else [l] := by
  unfold survivors endsInsideCall
  rw [withoutWholeCalls_append, Position.kept_append]
  congr 1
  cases hw : Call.isWhole l with
  | true => simp [withoutWholeCalls, hw]
  | false =>
    have hl : withoutWholeCalls [l] = [l] := by simp [withoutWholeCalls, hw]
    rw [hl, Position.kept, Position.keeps_eq, Call.starts_eq_opens hw]
    cases Position.final .statement (withoutWholeCalls ls) <;> cases Call.opens l <;> simp

lemma openAfter_append {ls : List Text} {n : Nat} (h : n ≤ ls.length) (xs : List Text) :
    OpenAfter (ls ++ xs) n ↔ OpenAfter ls n := by
  unfold OpenAfter
  have hget : ∀ k < n, (ls ++ xs)[k]? = ls[k]? := fun k hk =>
    List.getElem?_append_left (by omega)
  grind

lemma openAfter_succ (ls : List Text) (n : Nat) :
    OpenAfter ls (n + 1) ↔
      (OpenAfter ls n ∨ ls[n]?.any Call.opens) ∧ ls[n]?.all Call.leavesOpen := by
  constructor
  · rintro ⟨j, hj, ho, hk⟩
    refine ⟨?_, hk n (by omega) (by omega)⟩
    rcases Nat.lt_succ_iff_lt_or_eq.mp hj with hlt | rfl
    · exact .inl ⟨j, hlt, ho, fun k hkn hjk => hk k (by omega) hjk⟩
    · exact .inr ho
  · rintro ⟨⟨j, hj, ho, hk⟩ | ho, hl⟩
    · refine ⟨j, by omega, ho, fun k hkn hjk => ?_⟩
      rcases Nat.lt_succ_iff_lt_or_eq.mp hkn with hlt | rfl
      · exact hk k hlt hjk
      · exact hl
    · refine ⟨n, by omega, ho, fun k hkn hjk => ?_⟩
      have he : k = n := by omega
      exact he ▸ hl

lemma dropped_iff (ls : List Text) (i : Nat) :
    Dropped ls i ↔ ls[i]?.any Call.isWhole ∨ OpenAfter ls i ∨ ls[i]?.any Call.opens := by
  refine or_congr_right ⟨?_, ?_⟩
  · rintro ⟨j, hj, ho, hk⟩
    rcases Nat.lt_or_eq_of_le hj with hlt | rfl
    · exact .inl ⟨j, hlt, ho, hk⟩
    · exact .inr ho
  · rintro (⟨j, hj, ho, hk⟩ | ho)
    · exact ⟨j, Nat.le_of_lt hj, ho, hk⟩
    · exact ⟨i, Nat.le_refl i, ho, fun k hki hik => absurd hki (by omega)⟩

/-- A scan ends inside a call exactly if one is open after all lines. -/
lemma endsInsideCall_iff (ls : List Text) : endsInsideCall ls ↔ OpenAfter ls ls.length := by
  induction ls using List.reverseRecOn with
  | nil => simp [OpenAfter, endsInsideCall, withoutWholeCalls]
  | append_singleton ls l ih =>
    rw [endsInsideCall_snoc, List.length_append, List.length_singleton, openAfter_succ,
      openAfter_append (Nat.le_refl _), ← ih]
    simp

lemma dropped_append {ls : List Text} {i : Nat} (h : i < ls.length) (xs : List Text) :
    Dropped (ls ++ xs) i ↔ Dropped ls i := by
  rw [dropped_iff, dropped_iff, openAfter_append (Nat.le_of_lt h), List.getElem?_append_left h]

lemma undropped_snoc (ls : List Text) (l : Text) :
    undropped (ls ++ [l]) =
      undropped ls ++ if Dropped (ls ++ [l]) ls.length then [] else [l] := by
  unfold undropped
  rw [List.length_append, List.length_singleton, List.range_succ, List.filterMap_append]
  congr 1
  · refine List.filterMap_congr fun i hi => ?_
    have hlt : i < ls.length := List.mem_range.mp hi
    rw [List.getElem?_append_left hlt]
    simp only [dropped_append hlt]
  · by_cases hd : Dropped (ls ++ [l]) ls.length <;> simp [hd]

lemma dropped_last_iff (ls : List Text) (l : Text) :
    Dropped (ls ++ [l]) ls.length ↔
      (Call.isWhole l || endsInsideCall ls || Call.opens l) = true := by
  rw [dropped_iff, openAfter_append (Nat.le_refl _), ← endsInsideCall_iff]
  simp [or_assoc]

/-- The survivors of a scan are the lines that are not dropped. -/
lemma survivors_eq_undropped (ls : List Text) : survivors ls = undropped ls := by
  induction ls using List.reverseRecOn with
  | nil => rfl
  | append_singleton ls l ih =>
    rw [survivors_snoc, undropped_snoc, ih]
    simp only [dropped_last_iff]

lemma undropped_length (ls : List Text) :
    (undropped ls).length + (List.range ls.length).countP (Dropped ls ·) = ls.length := by
  have hk : (undropped ls).length = (List.range ls.length).countP (¬ Dropped ls ·) := by
    rw [undropped, List.length_filterMap_eq_countP]
    refine List.countP_congr fun i hi => ?_
    have hlt : i < ls.length := List.mem_range.mp hi
    by_cases hd : Dropped ls i <;> simp [hd, hlt]
  have hn := List.length_eq_countP_add_countP (Dropped ls ·) (l := List.range ls.length)
  rw [List.length_range] at hn
  simp only [decide_not, Bool.not_eq_true, decide_eq_false_iff_not] at hk hn
  omega

/-- Cleaning told by the lines alone: the lines that survive are those that are not dropped, as
many are removed as are dropped, the text is unterminated if some line opens a call that all lines
from there on leave open, and the cleaned text holds the surviving lines, its runs squeezed. -/
theorem clean_lines (t : Text) :
    survivors t.lines = undropped t.lines ∧
    (clean t).removed = (List.range t.lines.length).countP (Dropped t.lines ·) ∧
    ((clean t).unterminated ↔ ∃ j < t.lines.length, t.lines[j]?.any Call.opens ∧
      ∀ k < t.lines.length, j ≤ k → t.lines[k]?.all Call.leavesOpen) ∧
    (clean t).text = squeeze (unlines (undropped t.lines)) ∧
    (undropped t.lines = [] → (clean t).text = []) := by
  have hs := survivors_eq_undropped t.lines
  have htext : (clean t).text = squeeze (unlines (undropped t.lines)) := by
    rw [← hs]
    rfl
  refine ⟨hs, ?_, endsInsideCall_iff t.lines, htext, fun hnone => ?_⟩
  · have hr := clean_removed t
    have hl := undropped_length t.lines
    rw [hs] at hr
    omega
  · rw [htext, hnone]
    rfl

end Text
end LogSweep
