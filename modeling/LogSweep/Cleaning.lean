import LogSweep.Call
import LogSweep.Text.BlankRun

/-! Cleaning a text: its logger calls are removed line by line, and then its blank runs are
squeezed. Whole calls go first, so one inside an open call does not close it. -/
namespace LogSweep

/-- What cleaning one text gives. -/
structure Cleaning where
  text : Text
  /-- The cleaned text differs from the given one. -/
  changed : Bool
  /-- The number of lines removed, before blank runs are squeezed. -/
  removed : Nat
  /-- The text ends inside a call that no line closes. -/
  unterminated : Bool
  deriving DecidableEq, Repr

/-- Between two lines a scan is either among statements or inside an open call. -/
inductive Position where
  | statement
  | insideCall
  deriving DecidableEq, Repr

namespace Position

/-- The position after a line of an open call. -/
def afterCallLine (line : Text) : Position := if Call.closes line then .statement else .insideCall

def next : Position → Text → Position
  | .statement, line => if Call.starts line then afterCallLine line else .statement
  | .insideCall, line => afterCallLine line

/-- A scan keeps the lines that neither start a call nor stand inside one. -/
def keeps : Position → Text → Bool
  | .statement, line => !Call.starts line
  | .insideCall, _ => false

/-- The lines that a scan from this position keeps. -/
def kept : Position → List Text → List Text
  | _, [] => []
  | p, l :: ls => if p.keeps l then l :: kept (p.next l) ls else kept (p.next l) ls

def final (p : Position) (ls : List Text) : Position := ls.foldl next p

@[simp] theorem final_nil (p : Position) : p.final [] = p := rfl

@[simp] theorem final_cons (p : Position) (l : Text) (ls : List Text) :
    p.final (l :: ls) = (p.next l).final ls := rfl

@[simp] theorem final_append (p : Position) (xs ys : List Text) :
    p.final (xs ++ ys) = (p.final xs).final ys := List.foldl_append

@[simp] theorem kept_nil (p : Position) : p.kept [] = [] := by cases p <;> rfl

theorem kept_append (p : Position) (xs ys : List Text) :
    p.kept (xs ++ ys) = p.kept xs ++ (p.final xs).kept ys := by
  induction xs generalizing p with
  | nil => simp
  | cons x xs ih =>
    simp only [List.cons_append, kept, ih, final_cons]
    split <;> simp

theorem kept_sublist (p : Position) (ls : List Text) : (p.kept ls).Sublist ls := by
  induction ls generalizing p with
  | nil => simp
  | cons l ls ih =>
    rw [kept]
    split
    · exact (ih _).cons_cons l
    · exact (ih _).cons l

end Position

namespace Text

def withoutWholeCalls (ls : List Text) : List Text := ls.filter (!Call.isWhole ·)

/-- The lines that survive the removal of all calls. -/
def survivors (ls : List Text) : List Text := Position.statement.kept (withoutWholeCalls ls)

def endsInsideCall (ls : List Text) : Bool :=
  Position.statement.final (withoutWholeCalls ls) == .insideCall

/-- The text without its logger calls and with its blank runs squeezed. -/
def clean (t : Text) : Cleaning :=
  let kept := survivors t.lines
  let text := squeeze (unlines kept)
  { text
    changed := text != t
    removed := t.lines.length - kept.length
    unterminated := endsInsideCall t.lines }

theorem survivors_sublist (ls : List Text) : (survivors ls).Sublist ls :=
  (Position.kept_sublist _ _).trans List.filter_sublist

/-- Every line is either removed or survives. -/
theorem clean_removed (t : Text) :
    (clean t).removed + (survivors t.lines).length = t.lines.length :=
  Nat.sub_add_cancel (survivors_sublist _).length_le

example : (clean "a\n  logger.info(\n  x);\nb".toList).text = "a\nb".toList := by decide
example : (clean "logger.info(1\nlogger.warn(2);\nx".toList).unterminated = true := by decide

end Text
end LogSweep
