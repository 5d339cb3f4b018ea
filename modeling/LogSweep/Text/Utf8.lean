import LogSweep.Text.Blank

/-! Texts as bytes in UTF-8. Decoding reads the bytes once, as characters and as the sequences
that are none; it fails at the first such sequence, and showing puts U+FFFD in the place of each. -/
namespace LogSweep

abbrev Bytes := List UInt8

namespace Utf8

def encodeChar (c : Char) : Bytes :=
  let v := c.toNat
  if v < 0x80 then [.ofNat v]
  else if v < 0x800 then [.ofNat (0xC0 + v / 64), .ofNat (0x80 + v % 64)]
  else if v < 0x10000 then
    [.ofNat (0xE0 + v / 4096), .ofNat (0x80 + v / 64 % 64), .ofNat (0x80 + v % 64)]
  else
    [.ofNat (0xF0 + v / 262144), .ofNat (0x80 + v / 4096 % 64), .ofNat (0x80 + v / 64 % 64),
      .ofNat (0x80 + v % 64)]

def encode (t : Text) : Bytes := t.flatMap encodeChar

/-- A character of which the first bytes have been read. -/
structure Partial where
  value : Nat
  /-- The number of bytes still to come, at least one. -/
  missing : Nat
  low : Nat
  high : Nat
  deriving DecidableEq, Repr

/-- What a byte can be where a character begins. -/
inductive Lead where
  | whole (c : Char)
  | first (p : Partial)
  | invalid
  deriving DecidableEq, Repr

/-- The bounds on the second byte exclude overlong forms, surrogates and values past U+10FFFF. -/
def lead (b : Nat) : Lead :=
  if b < 0x80 then .whole (.ofNat b)
  else if b < 0xC2 then .invalid
  else if b < 0xE0 then .first ⟨b - 0xC0, 1, 0x80, 0xBF⟩
  else if b < 0xF0 then
    .first ⟨b - 0xE0, 2, if b = 0xE0 then 0xA0 else 0x80, if b = 0xED then 0x9F else 0xBF⟩
  else if b < 0xF5 then
    .first ⟨b - 0xF0, 3, if b = 0xF0 then 0x90 else 0x80, if b = 0xF4 then 0x8F else 0xBF⟩
  else .invalid

/-- The characters of some bytes in order, with nothing for each longest sequence of bytes that
begins a character and cannot go on. -/
def units : Option Partial → Bytes → List (Option Char)
  | none, [] => []
  | some _, [] => [none]
  | none, b :: bs =>
    match lead b.toNat with
    | .whole c => some c :: units none bs
    | .first p => units (some p) bs
    | .invalid => none :: units none bs
  | some p, b :: bs =>
    if p.low ≤ b.toNat ∧ b.toNat ≤ p.high then
      let v := p.value * 64 + (b.toNat - 0x80)
      if p.missing = 1 then some (.ofNat v) :: units none bs
      else units (some ⟨v, p.missing - 1, 0x80, 0xBF⟩) bs
    else
      match lead b.toNat with
      | .whole c => none :: some c :: units none bs
      | .first q => none :: units (some q) bs
      | .invalid => none :: none :: units none bs

/-- The text that some bytes encode, if they encode one. -/
def decode? (bs : Bytes) : Option Text :=
  let us := units none bs
  if us.all Option.isSome then some (us.filterMap id) else none

/-- The bytes as a text to show, with U+FFFD for each sequence that is no character. -/
def display (bs : Bytes) : Text := (units none bs).map (·.getD '\ufffd')

@[simp] theorem encode_nil : encode [] = [] := rfl

@[simp] theorem encode_cons (c : Char) (t : Text) : encode (c :: t) = encodeChar c ++ encode t :=
  rfl

@[simp] theorem encode_append (a b : Text) : encode (a ++ b) = encode a ++ encode b :=
  List.flatMap_append

private theorem toNat_ofNat {n : Nat} (h : n < 256) : (UInt8.ofNat n).toNat = n := by
  simp [Nat.mod_eq_of_lt h]

private theorem ofNat_eq {c : Char} {n : Nat} (h : n = c.toNat) : Char.ofNat n = c := by
  subst h; exact Char.ofNat_toNat c

private theorem scalar (c : Char) : c.toNat < 0xD800 ∨ 0xDFFF < c.toNat ∧ c.toNat < 0x110000 := by
  have h := c.valid
  simpa [UInt32.isValidChar, Nat.isValidChar] using h

/-- The bytes of a character read as that character. -/
theorem units_encodeChar (c : Char) (bs : Bytes) :
    units none (encodeChar c ++ bs) = some c :: units none bs := by
  have hs := scalar c
  unfold encodeChar
  dsimp only
  split
  · next h =>
    simp only [List.cons_append, List.nil_append, units, toNat_ofNat (show c.toNat < 256 by omega),
      lead, h, if_true, Char.ofNat_toNat]
  · next h =>
    split
    · next h2 =>
      simp only [List.cons_append, List.nil_append, units, lead,
        toNat_ofNat (show 0xC0 + c.toNat / 64 < 256 by omega),
        toNat_ofNat (show 0x80 + c.toNat % 64 < 256 by omega),
        if_neg (show ¬ 0xC0 + c.toNat / 64 < 0x80 by omega),
        if_neg (show ¬ 0xC0 + c.toNat / 64 < 0xC2 by omega),
        if_pos (show 0xC0 + c.toNat / 64 < 0xE0 by omega),
        if_pos (show 0x80 ≤ 0x80 + c.toNat % 64 ∧ 0x80 + c.toNat % 64 ≤ 0xBF by omega), if_true]
      rw [@ofNat_eq c _ (by omega)]
    · next h2 =>
      split
      · next h3 =>
        simp only [List.cons_append, List.nil_append, units, lead,
          toNat_ofNat (show 0xE0 + c.toNat / 4096 < 256 by omega),
          toNat_ofNat (show 0x80 + c.toNat / 64 % 64 < 256 by omega),
          toNat_ofNat (show 0x80 + c.toNat % 64 < 256 by omega),
          if_neg (show ¬ 0xE0 + c.toNat / 4096 < 0x80 by omega),
          if_neg (show ¬ 0xE0 + c.toNat / 4096 < 0xC2 by omega),
          if_neg (show ¬ 0xE0 + c.toNat / 4096 < 0xE0 by omega),
          if_pos (show 0xE0 + c.toNat / 4096 < 0xF0 by omega)]
        rw [if_pos (by split <;> split <;> omega), if_neg (by decide),
          if_pos (by omega), if_pos (by decide),
          @ofNat_eq c _ (by omega)]
      · next h3 =>
        simp only [List.cons_append, List.nil_append, units, lead,
          toNat_ofNat (show 0xF0 + c.toNat / 262144 < 256 by omega),
          toNat_ofNat (show 0x80 + c.toNat / 4096 % 64 < 256 by omega),
          toNat_ofNat (show 0x80 + c.toNat / 64 % 64 < 256 by omega),
          toNat_ofNat (show 0x80 + c.toNat % 64 < 256 by omega),
          if_neg (show ¬ 0xF0 + c.toNat / 262144 < 0x80 by omega),
          if_neg (show ¬ 0xF0 + c.toNat / 262144 < 0xC2 by omega),
          if_neg (show ¬ 0xF0 + c.toNat / 262144 < 0xE0 by omega),
          if_neg (show ¬ 0xF0 + c.toNat / 262144 < 0xF0 by omega),
          if_pos (show 0xF0 + c.toNat / 262144 < 0xF5 by omega)]
        rw [if_pos (by split <;> split <;> omega), if_neg (by decide), if_pos (by omega),
          if_neg (by decide), if_pos (by omega), if_pos (by decide),
          @ofNat_eq c _ (by omega)]

theorem units_encode (t : Text) : units none (encode t) = t.map some := by
  induction t with
  | nil => rfl
  | cons c t ih => rw [encode_cons, units_encodeChar, ih, List.map_cons]

@[simp] theorem decode?_encode (t : Text) : decode? (encode t) = some t := by
  simp [decode?, units_encode]

@[simp] theorem display_encode (t : Text) : display (encode t) = t := by
  simp [display, units_encode, Function.comp_def]

theorem encode_injective {a b : Text} (h : encode a = encode b) : a = b := by
  have := congrArg decode? h
  simpa using this

example : decode? [0x61, 0xC3, 0xA9, 0xF0, 0x9F, 0x98, 0x80] = some ['a', 'é', '😀'] := by decide
example : decode? [0xED, 0xA0, 0x80] = none := by decide
example : display [0x61, 0xE2, 0x82, 0x62, 0xFF] = ['a', '\ufffd', 'b', '\ufffd'] := by decide
example : display [0xED, 0xA0, 0x80] = ['\ufffd', '\ufffd', '\ufffd'] := by decide

end Utf8
end LogSweep
