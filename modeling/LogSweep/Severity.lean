import LogSweep.Text.Digits

/-! How severe an event is, and the levels that name it. -/
namespace LogSweep

/-- The severity of an event, the most severe first. -/
inductive Severity where
  | error
  | warn
  | info
  | debug
  | trace
  deriving DecidableEq, Repr

namespace Severity

/-- The place of a severity, from one for the most severe. -/
def rank : Severity → Nat
  | error => 1
  | warn => 2
  | info => 3
  | debug => 4
  | trace => 5

def all : List Severity := [error, warn, info, debug, trace]

def name : Severity → Text
  | error => "ERROR".toList
  | warn => "WARN".toList
  | info => "INFO".toList
  | debug => "DEBUG".toList
  | trace => "TRACE".toList

/-- The number that a text spells, behind a plus or not. -/
def number? (t : Text) : Option Nat := Text.toNat? (if t.head? = some '+' then t.tail else t)

/-- The text names the severity, by its rank or in letters of either case. -/
def isNamed (t : Text) (s : Severity) : Bool :=
  number? t == some s.rank || t.map Char.toUpper == s.name

/-- The severity that a level names, between blanks or not. Other levels stand for warnings. -/
def ofText (level : Text) : Severity := (all.find? (isNamed level.trim)).getD warn

/-- Events of a severity are shown at a level. -/
def shownAt (s level : Severity) : Bool := s.rank ≤ level.rank

theorem number?_of_toNat? {t : Text} {n : Nat} (h : Text.toNat? t = some n) :
    number? t = some n ∧ number? ('+' :: t) = some n := by
  have hplus : t.head? ≠ some '+' := fun hhead => by
    have hdigit := (Text.toNat?_eq_some_iff.mp h).1.2 '+' (List.mem_of_mem_head? hhead)
    revert hdigit
    decide
  exact ⟨by rw [number?, if_neg hplus, h], h⟩

/-- A number ends in a digit, and the name of a severity does not. -/
theorem isNamed_of_number {t : Text} {n : Nat} (h : number? t = some n) (s : Severity) :
    isNamed t s = (n == s.rank) := by
  obtain ⟨c, hlast, hdigit⟩ : ∃ c, t.getLast? = some c ∧ c.isDigit := by
    unfold number? at h
    split at h
    · obtain ⟨⟨hne, hdigits⟩, -⟩ := Text.toNat?_eq_some_iff.mp h
      cases t with
      | nil => exact absurd rfl hne
      | cons d u =>
        have hlast : u.getLast? = some (u.getLast hne) := List.getLast?_eq_some_getLast hne
        exact ⟨_, by rw [List.getLast?_cons, hlast]; rfl, hdigits _ (List.getLast_mem hne)⟩
    · obtain ⟨⟨hne, hdigits⟩, -⟩ := Text.toNat?_eq_some_iff.mp h
      exact ⟨_, List.getLast?_eq_some_getLast hne, hdigits _ (List.getLast_mem hne)⟩
  have hupper : c.toUpper = c := by
    unfold Char.isDigit at hdigit
    unfold Char.toUpper
    grind
  have hletters : t.map Char.toUpper ≠ s.name := fun hname => by
    have hlast' := congrArg List.getLast? hname
    rw [List.getLast?_map, hlast, Option.map_some, hupper] at hlast'
    cases s <;> cases hlast' <;> revert hdigit <;> decide
  rw [isNamed, h, beq_eq_false_iff_ne.mpr hletters, Bool.or_false]
  rfl

/-- A level can be a number, behind a plus and zeros or not. It stands for the severity of this rank,
if there is one. -/
theorem ofText_of_number {level digits : Text} {n zeros : Nat} (h : Text.toNat? digits = some n)
    (spelled : level.trim = List.replicate zeros '0' ++ digits ∨
      level.trim = '+' :: (List.replicate zeros '0' ++ digits)) :
    ofText level = (all.find? (n == ·.rank)).getD warn := by
  have hnumber : number? level.trim = some n := by
    obtain ⟨hbare, hplus⟩ := number?_of_toNat? (Text.toNat?_zeros zeros h)
    rcases spelled with hs | hs
    · rw [hs, hbare]
    · rw [hs, hplus]
  have hnamed : isNamed level.trim = (n == ·.rank) := funext (isNamed_of_number hnumber)
  rw [ofText, hnamed]

example : ofText " Debug\n".toList = debug := by decide
example : ofText "+005".toList = trace := by decide
example : ofText "loud".toList = warn := by decide

end Severity
end LogSweep
