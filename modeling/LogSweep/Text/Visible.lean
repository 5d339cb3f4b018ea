import LogSweep.Text.Utf8

/-! What a terminal shows of a text. Control characters are not shown, except for white space, and
neither are control sequences, which start with an escape character. -/
namespace LogSweep.Text

/-- White space among the control characters. -/
def isSpacing (c : Char) : Bool := c = '\t' || c = '\n' || c = '\x0c' || c = '\r'

/-- A character of a text outside control sequences is shown if it is no control character of
ASCII or is white space. -/
def isVisible (c : Char) : Bool := (' ' ≤ c && c ≠ '\x7f') || isSpacing c

/-- What has been read of a control sequence. -/
inductive Sequence where
  /-- No sequence has begun. -/
  | outside
  | escape
  /-- An escape with intermediate characters, which go on up to the last one. -/
  | escapeMore
  /-- The parameters of a control function. -/
  | control
  | deviceStart
  | deviceParameters
  | deviceMore
  /-- A string that a terminator ends. -/
  | string
  /-- A string that a bell ends. -/
  | command
  deriving DecidableEq, Repr

namespace Sequence

/-- White space inside a sequence is shown unless the sequence holds a string. -/
def showsSpacing : Sequence → Bool
  | outside | escape | escapeMore | control => true
  | deviceStart | deviceParameters | deviceMore | string | command => false

def within (low high c : Char) : Bool := low ≤ c && c ≤ high

/-- The sequence after a character that is not shown. The byte that terminates a string can be a
part of a character. -/
def next (s : Sequence) (c : Char) : Sequence :=
  if c = '\x1b' then escape
  else if c = '\x18' || c = '\x1a' then outside
  else
    match s with
    | outside => outside
    | escape =>
      if c = '[' then control
      else if c = ']' then command
      else if c = 'P' then deviceStart
      else if c = 'X' || c = '^' || c = '_' then string
      else if within ' ' '/' c then escapeMore
      else if within '0' '~' c then outside
      else escape
    | escapeMore => if within '0' '~' c then outside else escapeMore
    | control => if within '@' '~' c then outside else control
    | deviceStart =>
      if within ' ' '/' c then deviceMore
      else if within '0' '?' c then deviceParameters
      else if within '@' '~' c then string
      else deviceStart
    | deviceParameters =>
      if within ' ' '/' c then deviceMore
      else if within '0' ';' c then deviceParameters
      else if within '<' '~' c then string
      else deviceParameters
    | deviceMore => if within '0' '~' c then string else deviceMore
    | string => if (Utf8.encode [c]).contains 0x9C then outside else string
    | command => if c = '\x07' then outside else command

end Sequence

/-- What is shown behind the start of a sequence. After white space inside a sequence the text is
shown, up to the next control character, where the sequence goes on unless a character that is not
ASCII has ended it. -/
def visibleFrom (s : Sequence) (aside : Bool) : Text → Text
  | [] => []
  | c :: t =>
    if s = .outside || aside then
      if isVisible c then c :: visibleFrom (if c.toNat < 0x80 then s else .outside) aside t
      else visibleFrom (s.next c) false t
    else if s.showsSpacing && isSpacing c then c :: visibleFrom s true t
    else visibleFrom (s.next c) false t

def visible (t : Text) : Text := visibleFrom .outside false t

/-- Characters that are shown are shown as they are in front of a text. -/
theorem visible_append {t : Text} (h : ∀ c ∈ t, isVisible c) (rest : Text) :
    visible (t ++ rest) = t ++ visible rest := by
  unfold visible
  induction t with
  | nil => rfl
  | cons c t ih =>
    rw [List.cons_append, visibleFrom, if_pos (by simp), if_pos (h c List.mem_cons_self)]
    simp only [ite_self]
    rw [ih fun x hx => h x (List.mem_cons_of_mem _ hx)]
    rfl

/-- An escape character begins a sequence, whatever has begun in front of it. -/
theorem visibleFrom_append_escape (s : Sequence) (aside : Bool) (t : Text) :
    ∃ shown, ∀ rest, visibleFrom s aside (t ++ '\x1b' :: rest) =
      shown ++ visibleFrom .escape false rest := by
  induction t generalizing s aside with
  | nil =>
    refine ⟨[], fun rest => ?_⟩
    rw [List.nil_append, visibleFrom]
    split
    · rfl
    · rw [if_neg (by simp [isSpacing])]
      rfl
  | cons c t ih =>
    simp only [List.cons_append, visibleFrom]
    split
    · split
      · obtain ⟨shown, h⟩ := ih (if c.toNat < 0x80 then s else .outside) aside
        exact ⟨c :: shown, fun rest => congrArg (c :: ·) (h rest)⟩
      · exact ih (s.next c) false
    · split
      · obtain ⟨shown, h⟩ := ih s true
        exact ⟨c :: shown, fun rest => congrArg (c :: ·) (h rest)⟩
      · exact ih (s.next c) false

example : visible "a\x1b[1;31mb\x07\tc".toList = "ab\tc".toList := by decide +kernel
example : visible "a\x1b]0;t\x07b\x1bPq\x1b\\c".toList = "abc".toList := by decide +kernel
example : visible "\x1b[3\tab\x011mc".toList = "\tabc".toList := by decide +kernel

end LogSweep.Text
