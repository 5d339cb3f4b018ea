import LogSweep.Text.Lines

/-! The lines on which a call of the logger stands. The matching is textual: a call starts a line
after blanks, and it counts as closed on the first line that contains the closing marker. -/
namespace LogSweep.Call

/-- The methods of the logger whose calls are removed. -/
def methods : List Text := ["info".toList, "warn".toList, "error".toList, "debug".toList]

/-- The text at which a call statement counts as closed. -/
def closing : Text := ");".toList

/-- The text that opens a call of one method. -/
def opening (method : Text) : Text := "logger.".toList ++ method ++ ['(']

def openings : List Text := methods.map opening

/-- What follows the opening of a call on a line that starts one. -/
def arguments? (line : Text) : Option Text :=
  let rest := line.dropBlank
  openings.findSome? fun o => Text.after? o rest

def starts (line : Text) : Bool := (arguments? line).isSome

/-- The text is closed at its first semicolon, and only blanks follow. -/
def closesWhole (rest : Text) : Bool :=
  (rest.takeWhile (· ≠ ';')).getLast? == some ')' &&
    match rest.dropWhile (· ≠ ';') with
    | [] => false
    | _ :: tail => tail.all Text.isBlank

/-- The line is one whole call with no semicolon among its arguments. -/
def isWhole (line : Text) : Bool := (arguments? line).any closesWhole

def closes (line : Text) : Bool := Text.contains closing line

/-- A whole call is also the start of one. -/
theorem starts_of_isWhole {line : Text} (h : isWhole line) : starts line := by
  unfold isWhole at h
  unfold starts
  cases ha : arguments? line with
  | none => simp [ha] at h
  | some rest => rfl

/-- The arguments of a call end the line that it starts. -/
theorem suffix_of_arguments? {line rest : Text} (h : arguments? line = some rest) :
    rest <:+ line := by
  obtain ⟨o, -, ho⟩ := List.exists_of_findSome?_eq_some h
  refine ⟨line.takeWhile Text.isBlank ++ o, ?_⟩
  rw [List.append_assoc, ← Text.eq_append_of_after? ho]
  exact List.takeWhile_append_dropWhile

theorem closesWhole_of_notMem {rest : Text} (h : ';' ∉ rest) : closesWhole rest = false := by
  have hrest : ∀ c ∈ rest, decide (c ≠ ';') = true :=
    fun c hc => decide_eq_true fun heq => h (heq ▸ hc)
  have hdrop : rest.dropWhile (· ≠ ';') = [] := by
    rw [← List.append_nil rest, List.dropWhile_append_of_pos hrest, List.dropWhile_nil]
  simp only [closesWhole, hdrop, Bool.and_false]

theorem closesWhole_append {inner : Text} (h : ';' ∉ inner) (tail : Text) :
    closesWhole (inner ++ ';' :: tail) =
      (inner.getLast? == some ')' && tail.all Text.isBlank) := by
  have hinner : ∀ c ∈ inner, decide (c ≠ ';') = true :=
    fun c hc => decide_eq_true fun heq => h (heq ▸ hc)
  have htake : (inner ++ ';' :: tail).takeWhile (· ≠ ';') = inner := by
    rw [List.takeWhile_append_of_pos hinner]
    simp
  have hdrop : (inner ++ ';' :: tail).dropWhile (· ≠ ';') = ';' :: tail := by
    rw [List.dropWhile_append_of_pos hinner]
    simp
  simp only [closesWhole, htake, hdrop]

/-- A whole call stands on a line that would close an open one. -/
theorem closes_of_isWhole {line : Text} (h : isWhole line) : closes line := by
  obtain ⟨rest, harguments, hwhole⟩ : ∃ rest, arguments? line = some rest ∧ closesWhole rest := by
    simpa [isWhole, Option.any_eq_true] using h
  obtain ⟨before, rfl⟩ := suffix_of_arguments? harguments
  by_cases hmem : ';' ∈ rest
  · obtain ⟨inner, tail, rfl, hinner⟩ := List.eq_append_cons_of_mem hmem
    rw [closesWhole_append hinner, Bool.and_eq_true, beq_iff_eq] at hwhole
    obtain ⟨arguments, rfl⟩ := List.getLast?_eq_some_iff.mp hwhole.1
    exact Text.contains_iff.mpr ⟨before ++ arguments, tail, by simp [closing]⟩
  · rw [closesWhole_of_notMem hmem] at hwhole
    cases hwhole

example : isWhole "  logger.info('x', y);\t".toList = true := by decide
example : isWhole "logger.info(a;b);".toList = false := by decide
example : starts "logger.warn(".toList = true := by decide
example : starts "mylogger.warn(".toList = false := by decide
example : isWhole "logger.info;".toList = false := by decide

end LogSweep.Call
