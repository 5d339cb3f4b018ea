import LogSweep.Text.Lines

/-! Runs of newlines. Squeezing a text shortens every run of three or more newlines to two, so
that at most one empty line stays between two lines that are not empty. -/
namespace LogSweep.Text

/-- The character in front of a squeezed text, which stays squeezed. -/
def push : Char → Text → Text
  | '\n', '\n' :: '\n' :: t => '\n' :: '\n' :: t
  | c, t => c :: t

/-- The text with every run of three or more newlines shortened to two. -/
def squeeze (t : Text) : Text := t.foldr push []

def hasLongRun (t : Text) : Bool := contains ['\n', '\n', '\n'] t

/-- The squeezed text, or nothing where there is no run to shorten. -/
def squeeze? (t : Text) : Option Text := if t.hasLongRun then some t.squeeze else none

@[simp] theorem squeeze_nil : squeeze [] = [] := rfl

@[simp] theorem squeeze_cons (c : Char) (t : Text) : squeeze (c :: t) = push c (squeeze t) := rfl

theorem push_of_ne {c : Char} (h : c ≠ '\n') (t : Text) : push c t = c :: t := by
  unfold push
  split
  · exact absurd rfl h
  · rfl

example : squeeze "\n\n\n\na\n\n\nb\n\n".toList = "\n\na\n\nb\n\n".toList := by decide
example : squeeze? "a\n\nb".toList = none := by decide

end LogSweep.Text
