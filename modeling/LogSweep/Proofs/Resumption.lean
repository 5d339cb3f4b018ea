import LogSweep.Proofs.Shrinking

/-! What follows an open call. Lines are lost up to the first one that closes the call, and a whole
call is not such a line, whatever it contains. Behind that line a text is cleaned as if it stood
alone. -/
namespace LogSweep.Text

/-- The index of the first line that closes a call which is open before the lines. -/
def closer? (ls : List Text) : Option Nat :=
  ls.findIdx? fun l => Call.closes l && !Call.isWhole l

lemma closer?_cons (l : Text) (ls : List Text) :
    closer? (l :: ls) = if Call.leavesOpen l then (closer? ls).map (· + 1) else some 0 := by
  rw [closer?, List.findIdx?_cons, ← closer?]
  cases hw : Call.isWhole l <;> cases hc : Call.closes l <;> simp [Call.leavesOpen, hw, hc]

lemma closer?_lt {ls : List Text} {j : Nat} (h : closer? ls = some j) : j < ls.length :=
  (List.findIdx?_eq_some_iff_getElem.mp h).1

/-! A scan that starts inside a call. -/

/-- A line that leaves the call open is lost, and the scan stays inside the call. -/
lemma scan_cons_of_leavesOpen {l : Text} (h : Call.leavesOpen l = true) (ls : List Text) :
    Position.insideCall.kept (withoutWholeCalls (l :: ls)) =
        Position.insideCall.kept (withoutWholeCalls ls) ∧
      Position.insideCall.final (withoutWholeCalls (l :: ls)) =
        Position.insideCall.final (withoutWholeCalls ls) := by
  cases hw : Call.isWhole l with
  | true => simp [withoutWholeCalls, hw]
  | false =>
    have hc : Call.closes l = false := by simpa [Call.leavesOpen, hw] using h
    simp [withoutWholeCalls, hw, Position.kept, Position.keeps, Position.next,
      Position.afterCallLine, hc]

/-- The line that closes the call is lost too, and the scan starts afresh behind it. -/
lemma scan_cons_of_closing {l : Text} (h : Call.leavesOpen l = false) (ls : List Text) :
    Position.insideCall.kept (withoutWholeCalls (l :: ls)) = survivors ls ∧
      Position.insideCall.final (withoutWholeCalls (l :: ls)) =
        Position.statement.final (withoutWholeCalls ls) := by
  obtain ⟨hw, hc⟩ : Call.isWhole l = false ∧ Call.closes l = true := by
    simpa [Call.leavesOpen] using h
  simp [withoutWholeCalls, hw, Position.kept, Position.keeps, Position.next,
    Position.afterCallLine, hc, survivors]

/-- Where no line closes the call, all lines are lost. -/
lemma scan_of_no_closer {ls : List Text} (h : closer? ls = none) :
    Position.insideCall.kept (withoutWholeCalls ls) = [] ∧
      Position.insideCall.final (withoutWholeCalls ls) = .insideCall := by
  induction ls with
  | nil => exact ⟨rfl, rfl⟩
  | cons l ls ih =>
    rw [closer?_cons] at h
    split at h
    · next hl =>
      obtain ⟨hk, hf⟩ := ih (Option.map_eq_none_iff.mp h)
      obtain ⟨hk', hf'⟩ := scan_cons_of_leavesOpen hl ls
      exact ⟨hk'.trans hk, hf'.trans hf⟩
    · cases h

/-- The lines behind the one that closes the call are scanned as if they stood alone. -/
lemma scan_of_closer {ls : List Text} {j : Nat} (h : closer? ls = some j) :
    Position.insideCall.kept (withoutWholeCalls ls) = survivors (ls.drop (j + 1)) ∧
      Position.insideCall.final (withoutWholeCalls ls) =
        Position.statement.final (withoutWholeCalls (ls.drop (j + 1))) := by
  induction ls generalizing j with
  | nil => cases h
  | cons l ls ih =>
    rw [closer?_cons] at h
    split at h
    · next hl =>
      obtain ⟨i, hi, rfl⟩ := Option.map_eq_some_iff.mp h
      obtain ⟨hk, hf⟩ := ih hi
      obtain ⟨hk', hf'⟩ := scan_cons_of_leavesOpen hl ls
      exact ⟨hk'.trans hk, hf'.trans hf⟩
    · next hl =>
      obtain rfl : 0 = j := by simpa using h
      exact scan_cons_of_closing (by simpa using hl) ls

/-! Lines behind others that end inside a call. -/

variable {xs ys : List Text}

lemma final_of_open (h : endsInsideCall xs = true) :
    Position.statement.final (withoutWholeCalls xs) = .insideCall := by
  simpa [endsInsideCall] using h

lemma survivors_append_of_open (h : endsInsideCall xs = true) (ys : List Text) :
    survivors (xs ++ ys) = survivors xs ++ Position.insideCall.kept (withoutWholeCalls ys) := by
  rw [survivors, withoutWholeCalls_append, Position.kept_append, final_of_open h]
  rfl

lemma endsInsideCall_append_of_open (h : endsInsideCall xs = true) (ys : List Text) :
    endsInsideCall (xs ++ ys) =
      (Position.insideCall.final (withoutWholeCalls ys) == .insideCall) := by
  rw [endsInsideCall, withoutWholeCalls_append, Position.final_append, final_of_open h]

lemma survivors_append_of_no_closer (h : endsInsideCall xs = true) (hnone : closer? ys = none) :
    survivors (xs ++ ys) = survivors xs ∧ endsInsideCall (xs ++ ys) = true := by
  obtain ⟨hk, hf⟩ := scan_of_no_closer hnone
  rw [survivors_append_of_open h, endsInsideCall_append_of_open h, hk, hf, List.append_nil]
  exact ⟨rfl, rfl⟩

lemma survivors_append_of_closer {j : Nat} (h : endsInsideCall xs = true)
    (hsome : closer? ys = some j) :
    survivors (xs ++ ys) = survivors xs ++ survivors (ys.drop (j + 1)) ∧
      endsInsideCall (xs ++ ys) = endsInsideCall (ys.drop (j + 1)) := by
  obtain ⟨hk, hf⟩ := scan_of_closer hsome
  rw [survivors_append_of_open h, endsInsideCall_append_of_open h, hk, hf]
  exact ⟨rfl, rfl⟩

/-! A text behind one that ends inside a call. -/

variable {a b : Text}

/-- The line that starts the open call is lost in every longer text. -/
lemma changed_append_of_unterminated (h : (clean a).unterminated = true) (b : Text) :
    (clean (a ++ '\n' :: b)).changed = true := by
  obtain ⟨l, hl, hstarts⟩ := (removed_pos_iff a).mp (removed_pos_of_unterminated h)
  refine changed_of_starts (l := l) ?_ hstarts
  rw [lines_append_newline]
  exact List.mem_append_left _ hl

/-- All lines of the second text are lost if none of them survives behind the first one. -/
lemma clean_append_of_lost (h : (clean a).unterminated = true)
    (hlost : survivors (a.lines ++ b.lines) = survivors a.lines) :
    clean (a ++ '\n' :: b) = ⟨(clean a).text, true, (clean a).removed + b.lines.length,
      endsInsideCall (a.lines ++ b.lines)⟩ := by
  have htext : (clean (a ++ '\n' :: b)).text = (clean a).text := by
    rw [clean_text, clean_text, lines_append_newline, hlost]
  have hremoved : (clean (a ++ '\n' :: b)).removed = (clean a).removed + b.lines.length := by
    have hab := clean_removed (a ++ '\n' :: b)
    have ha := clean_removed a
    rw [lines_append_newline, hlost, List.length_append] at hab
    omega
  rw [← htext, ← changed_append_of_unterminated h b, ← hremoved, ← lines_append_newline]
  rfl

lemma lines_unlines_drop {n : Nat} (h : b.lines.drop n ≠ []) :
    (unlines (b.lines.drop n)).lines = b.lines.drop n :=
  lines_unlines (fun _ hl => newline_notMem_of_mem_lines (List.mem_of_mem_drop hl)) h

/-- The lines lost behind the first text are those up to the closing one and those that the text
behind it loses. -/
lemma removed_of_closer {j : Nat} {q : Text} (hj : closer? b.lines = some j)
    (hq : q.lines = b.lines.drop (j + 1))
    (hparts : survivors (a ++ '\n' :: b).lines = survivors a.lines ++ survivors q.lines) :
    (clean (a ++ '\n' :: b)).removed = (clean a).removed + (j + 1) + (clean q).removed := by
  have hab := clean_removed (a ++ '\n' :: b)
  have ha := clean_removed a
  have hb := clean_removed q
  have hdrop : q.lines.length = b.lines.length - (j + 1) := by rw [hq, List.length_drop]
  have hlt := closer?_lt hj
  rw [hparts, lines_append_newline, List.length_append, List.length_append] at hab
  omega

/-- Behind a text that ends inside a call, another text loses all its lines if none of them closes
the call, and the call stays open. Otherwise it loses its lines up to the first one that does, and
the lines behind that one are cleaned as if they stood alone. The cleaned parts are joined and
squeezed where both have lines left, and a part that has none left leaves the other one alone. -/
theorem clean_append_unterminated (a b : Text) (unterminated : (clean a).unterminated = true) :
    (closer? b.lines = none →
      clean (a ++ '\n' :: b) =
        ⟨(clean a).text, true, (clean a).removed + b.lines.length, true⟩) ∧
    ∀ j, closer? b.lines = some j →
      (b.lines.drop (j + 1) = [] →
        clean (a ++ '\n' :: b) =
          ⟨(clean a).text, true, (clean a).removed + b.lines.length, false⟩) ∧
      (b.lines.drop (j + 1) ≠ [] →
        let q := unlines (b.lines.drop (j + 1))
        (clean (a ++ '\n' :: b)).removed = (clean a).removed + (j + 1) + (clean q).removed ∧
        (clean (a ++ '\n' :: b)).unterminated = (clean q).unterminated ∧
        (survivors a.lines ≠ [] → survivors q.lines ≠ [] →
          (clean (a ++ '\n' :: b)).text = squeeze ((clean a).text ++ '\n' :: (clean q).text)) ∧
        (survivors q.lines = [] → (clean (a ++ '\n' :: b)).text = (clean a).text) ∧
        (survivors a.lines = [] → (clean (a ++ '\n' :: b)).text = (clean q).text) ∧
        (survivors a.lines = [] → survivors q.lines = [] →
          (clean (a ++ '\n' :: b)).text = [])) := by
  refine ⟨fun hnone => ?_, fun j hj => ⟨fun hempty => ?_, fun hne => ?_⟩⟩
  · obtain ⟨hs, hu⟩ := survivors_append_of_no_closer unterminated hnone
    rw [clean_append_of_lost unterminated hs, hu]
  · obtain ⟨hs, hu⟩ := survivors_append_of_closer unterminated hj
    rw [hempty] at hs hu
    rw [clean_append_of_lost unterminated (hs.trans (List.append_nil _)), hu]
    rfl
  · obtain ⟨hs, hu⟩ := survivors_append_of_closer unterminated hj
    intro q
    have hlines : q.lines = b.lines.drop (j + 1) := lines_unlines_drop hne
    rw [← hlines, ← lines_append_newline] at hs hu
    refine ⟨removed_of_closer hj hlines hs, hu, clean_text_of_parts hs,
      clean_text_of_dropped_right hs, clean_text_of_dropped_left hs, fun ha hb => ?_⟩
    rw [clean_text_of_dropped_left hs ha, clean_text, hb]
    rfl

/-- The whole call and the start of another one inside the open call change nothing, neither for a
text that the open call swallows nor for one that goes on behind the call. -/
theorem clean_append_unterminated_whole_call_inside :
    let a : Text := "x\nlogger.info(\n1\n".toList
    let swallowed : Text := "logger.warn(2);\nlogger.error(\ny".toList
    let closing : Text := "logger.warn(2);\ny);".toList
    let longer : Text := "logger.warn(2);\nlogger.error(\ny);\n\n\nz".toList
    (clean a).unterminated = true ∧
    clean (a ++ '\n' :: swallowed) = ⟨"x".toList, true, 3 + 3, true⟩ ∧
    clean (a ++ '\n' :: closing) = ⟨"x".toList, true, 3 + 2, false⟩ ∧
    closer? longer.lines = some 2 ∧
    (clean (a ++ '\n' :: longer)).removed = 3 + 3 + 0 ∧
    (clean (a ++ '\n' :: longer)).unterminated = false ∧
    (clean (a ++ '\n' :: longer)).text = "x\n\nz".toList := by
  intro a swallowed closing longer
  have unterminated : (clean a).unterminated = true := by decide
  have hlost := (clean_append_unterminated a swallowed unterminated).1 (by decide)
  have hclosed := ((clean_append_unterminated a closing unterminated).2 1 (by decide)).1 (by decide)
  have hj : closer? longer.lines = some 2 := by decide
  obtain ⟨hremoved, hopen, htext, -⟩ :=
    ((clean_append_unterminated a longer unterminated).2 2 hj).2 (by decide)
  refine ⟨unterminated, ?_, ?_, hj, ?_, ?_, ?_⟩
  · rw [hlost]
    decide
  · rw [hclosed]
    decide
  · rw [hremoved]
    decide
  · rw [hopen]
    decide
  · rw [htext (by decide) (by decide)]
    decide

end LogSweep.Text
