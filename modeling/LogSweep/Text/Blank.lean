/-! Texts as lists of characters, and the blank characters around their words. -/
namespace LogSweep

/-- A text is the list of its characters. -/
abbrev Text := List Char

namespace Text

/-- The ranges of the Unicode property White_Space, first and last code point of each. -/
def blankRanges : List (Nat × Nat) :=
  [(0x09, 0x0D), (0x20, 0x20), (0x85, 0x85), (0xA0, 0xA0), (0x1680, 0x1680), (0x2000, 0x200A),
    (0x2028, 0x2029), (0x202F, 0x202F), (0x205F, 0x205F), (0x3000, 0x3000)]

/-- A character is blank if it has the property White_Space. -/
def isBlank (c : Char) : Bool :=
  blankRanges.any fun r => r.1 ≤ c.toNat && c.toNat ≤ r.2

/-- The text from its first character that is not blank. -/
def dropBlank (t : Text) : Text := t.dropWhile isBlank

/-- The text without the blank characters at both ends. -/
def trim (t : Text) : Text := (dropBlank (dropBlank t).reverse).reverse

@[simp] theorem isBlank_newline : isBlank '\n' = true := by decide
@[simp] theorem isBlank_return : isBlank '\r' = true := by decide
@[simp] theorem isBlank_space : isBlank ' ' = true := by decide

@[simp] theorem dropBlank_nil : dropBlank [] = [] := rfl

theorem dropBlank_cons (c : Char) (t : Text) :
    dropBlank (c :: t) = if isBlank c then dropBlank t else c :: t := by
  simp only [dropBlank, List.dropWhile_cons]

/-- Blank characters in front do not change what follows them. -/
theorem dropBlank_append {w : Text} (h : ∀ c ∈ w, isBlank c) (t : Text) :
    dropBlank (w ++ t) = dropBlank t := by
  induction w with
  | nil => rfl
  | cons c w ih =>
    rw [List.cons_append, dropBlank_cons, if_pos (h c List.mem_cons_self)]
    exact ih fun x hx => h x (List.mem_cons_of_mem _ hx)

example : trim "\t a b \u00a0".toList = "a b".toList := by decide
example : isBlank '\u200b' = false := by decide
example : isBlank '\ufeff' = false := by decide

end Text
end LogSweep
