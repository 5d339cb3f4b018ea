import LogSweep.Text.Utf8
import Mathlib.Algebra.Group.Nat.Defs
import Mathlib.Data.List.Basic

/-! What decodes. The bounds on the bytes of a character leave one way to write it, so the bytes
that decode to a text are those that encode it and no others. -/
namespace LogSweep.Utf8

variable {b : UInt8} {bs before : Bytes} {p : Partial}

/-- The last bytes of the character of a value, as many as given. -/
def tailBytes : Nat → Nat → Bytes
  | 0, _ => []
  | missing + 1, v => .ofNat (0x80 + v / 64 ^ missing % 64) :: tailBytes missing v

/-- The bytes before begin a character: whatever value it has in the end, it is encoded as these
bytes and as many more as are still to come. -/
structure Begins (before : Bytes) (p : Partial) : Prop where
  missing : 0 < p.missing
  low : 0x80 ≤ p.low
  high : p.high ≤ 0xBF
  encodes : ∀ v, v / 64 ^ p.missing = p.value →
    p.low ≤ 0x80 + v / 64 ^ (p.missing - 1) % 64 → 0x80 + v / 64 ^ (p.missing - 1) % 64 ≤ p.high →
    encodeChar (.ofNat v) = before ++ tailBytes p.missing v

lemma toNat_char {v : Nat} (h : v < 0xD800 ∨ 0xDFFF < v ∧ v < 0x110000) :
    (Char.ofNat v).toNat = v := by
  rw [Char.ofNat, dif_pos h]
  rfl

lemma ofNat_eq_byte {n : Nat} (h : n = b.toNat) : UInt8.ofNat n = b := by
  rw [h, UInt8.ofNat_toNat]

/-! The first byte of a character of two, three or four bytes. -/

lemma begins_two (h : 0xC2 ≤ b.toNat) (h' : b.toNat < 0xE0) :
    Begins [b] ⟨b.toNat - 0xC0, 1, 0x80, 0xBF⟩ where
  missing := Nat.one_pos
  low := Nat.le_refl _
  high := Nat.le_refl _
  encodes v hv _ _ := by
    have hv : v / 64 = b.toNat - 0xC0 := by simpa using hv
    have hfirst : UInt8.ofNat (0xC0 + v / 64) = b := ofNat_eq_byte (by omega)
    rw [encodeChar, toNat_char (by omega)]
    dsimp only
    rw [if_neg (by omega), if_pos (by omega), hfirst]
    simp [tailBytes]

lemma begins_three (h : 0xE0 ≤ b.toNat) (h' : b.toNat < 0xF0) :
    Begins [b] ⟨b.toNat - 0xE0, 2, if b.toNat = 0xE0 then 0xA0 else 0x80,
      if b.toNat = 0xED then 0x9F else 0xBF⟩ where
  missing := Nat.two_pos
  low := by dsimp only; split <;> omega
  high := by dsimp only; split <;> omega
  encodes v hv hlow hhigh := by
    have hv : v / 4096 = b.toNat - 0xE0 := by simpa using hv
    simp only [Nat.add_one_sub_one, Nat.pow_one] at hlow hhigh
    have hvalue : 0x800 ≤ v := by split at hlow <;> omega
    have hscalar : v < 0xD800 ∨ 0xDFFF < v := by split at hhigh <;> omega
    have hfirst : UInt8.ofNat (0xE0 + v / 4096) = b := ofNat_eq_byte (by omega)
    rw [encodeChar, toNat_char (by omega)]
    dsimp only
    rw [if_neg (by omega), if_neg (by omega), if_pos (by omega), hfirst]
    simp [tailBytes]

lemma begins_four (h : 0xF0 ≤ b.toNat) (h' : b.toNat < 0xF5) :
    Begins [b] ⟨b.toNat - 0xF0, 3, if b.toNat = 0xF0 then 0x90 else 0x80,
      if b.toNat = 0xF4 then 0x8F else 0xBF⟩ where
  missing := Nat.succ_pos 2
  low := by dsimp only; split <;> omega
  high := by dsimp only; split <;> omega
  encodes v hv hlow hhigh := by
    have hv : v / 262144 = b.toNat - 0xF0 := by simpa using hv
    have hpow : 64 ^ (3 - 1) = 4096 := rfl
    simp only [hpow] at hlow hhigh
    have hvalue : 0x10000 ≤ v := by split at hlow <;> omega
    have hscalar : v < 0x110000 := by split at hhigh <;> omega
    have hfirst : UInt8.ofNat (0xF0 + v / 262144) = b := ofNat_eq_byte (by omega)
    rw [encodeChar, toNat_char (by omega)]
    dsimp only
    rw [if_neg (by omega), if_neg (by omega), if_neg (by omega), hfirst]
    simp [tailBytes]

lemma begins_of_lead (h : lead b.toNat = .first p) : Begins [b] p := by
  unfold lead at h
  split at h
  · cases h
  split at h
  · cases h
  split at h
  · obtain rfl := Lead.first.inj h
    exact begins_two (by omega) (by omega)
  split at h
  · obtain rfl := Lead.first.inj h
    exact begins_three (by omega) (by omega)
  split at h
  · obtain rfl := Lead.first.inj h
    exact begins_four (by omega) (by omega)
  · cases h

lemma encodeChar_of_lead {c : Char} (h : lead b.toNat = .whole c) : encodeChar c = [b] := by
  unfold lead at h
  split at h
  · next hb =>
    obtain rfl := Lead.whole.inj h
    rw [encodeChar, toNat_char (by omega), if_pos hb, UInt8.ofNat_toNat]
  · split_ifs at h

/-! The bytes behind it. -/

section
variable (h : Begins before p) (low : p.low ≤ b.toNat) (high : b.toNat ≤ p.high)
include h low high

/-- The last byte makes the character. -/
lemma Begins.encodeChar_eq (last : p.missing = 1) :
    encodeChar (.ofNat (p.value * 64 + (b.toNat - 0x80))) = before ++ [b] := by
  have hlow := h.low
  have hhigh := h.high
  have hmod : 0x80 + (p.value * 64 + (b.toNat - 0x80)) % 64 = b.toNat := by omega
  have hbyte : 0x80 + (p.value * 64 + (b.toNat - 0x80)) / 64 ^ (p.missing - 1) % 64 = b.toNat := by
    simpa [last] using hmod
  rw [h.encodes _ (by simp [last]; omega) (by omega) (by omega), last, tailBytes, tailBytes,
    ofNat_eq_byte (by simpa using hmod)]

/-- Any other byte belongs to what begins the character. -/
lemma Begins.snoc (more : p.missing ≠ 1) :
    Begins (before ++ [b]) ⟨p.value * 64 + (b.toNat - 0x80), p.missing - 1, 0x80, 0xBF⟩ := by
  have hlow := h.low
  have hhigh := h.high
  have hmissing := h.missing
  obtain ⟨missing, hm⟩ : ∃ missing, p.missing = missing + 1 := ⟨p.missing - 1, by omega⟩
  rw [hm, Nat.add_sub_cancel]
  refine ⟨by dsimp only; omega, Nat.le_refl _, Nat.le_refl _, fun v hv _ _ => ?_⟩
  have hv : v / 64 ^ missing = p.value * 64 + (b.toNat - 0x80) := hv
  have hvalue : v / 64 ^ p.missing = p.value := by
    rw [hm, Nat.pow_succ, ← Nat.div_div_eq_div_mul, hv]
    omega
  have hbyte : 0x80 + v / 64 ^ (p.missing - 1) % 64 = b.toNat := by
    rw [hm, Nat.add_sub_cancel, hv]
    omega
  have hencodes := h.encodes v hvalue (by omega) (by omega)
  rw [hm, Nat.add_sub_cancel] at hbyte
  rw [hencodes, hm, tailBytes, ofNat_eq_byte hbyte, List.append_assoc]
  rfl

end

/-- The bytes before belong to the character that has begun, if any has. -/
def Continues (before : Bytes) : Option Partial → Prop
  | none => before = []
  | some p => Begins before p

/-- The characters that are read encode as the bytes, if no sequence of them is none. -/
theorem encode_units {begun : Option Partial} (h : Continues before begun)
    (whole : (units begun bs).all Option.isSome = true) :
    encode ((units begun bs).filterMap id) = before ++ bs := by
  induction bs generalizing begun before with
  | nil =>
    cases begun with
    | none =>
      obtain rfl : before = [] := h
      rfl
    | some p => cases whole
  | cons b bs ih =>
    have hstart (whole : (units none bs).all Option.isSome = true) :
        encode ((units none bs).filterMap id) = bs := by
      have hnone : Continues [] none := rfl
      exact ih hnone whole
    cases begun with
    | none =>
      obtain rfl : before = [] := h
      rw [units] at whole ⊢
      cases hl : lead b.toNat with
      | whole c =>
        rw [hl] at whole
        show encodeChar c ++ encode ((units none bs).filterMap id) = [] ++ b :: bs
        rw [encodeChar_of_lead hl, hstart (by simpa using whole)]
        rfl
      | first p =>
        rw [hl] at whole
        have hbegins : Continues [b] (some p) := begins_of_lead hl
        exact ih hbegins whole
      | invalid =>
        rw [hl] at whole
        cases whole
    | some p =>
      by_cases hb : p.low ≤ b.toNat ∧ b.toNat ≤ p.high
      · rw [units, if_pos hb] at whole ⊢
        dsimp only at whole ⊢
        split at whole
        · next last =>
          rw [if_pos last]
          show encodeChar _ ++ encode ((units none bs).filterMap id) = before ++ b :: bs
          rw [Begins.encodeChar_eq h hb.1 hb.2 last, hstart (by simpa using whole),
            List.append_assoc]
          rfl
        · next more =>
          have hbegins : Continues (before ++ [b]) (some _) := Begins.snoc h hb.1 hb.2 more
          rw [if_neg more, ih hbegins whole, List.append_assoc]
          rfl
      · rw [units, if_neg hb] at whole
        cases hl : lead b.toNat <;> rw [hl] at whole <;> cases whole

/-- Bytes decode to the text that is encoded as them, and to no other. -/
theorem decode?_eq_some_iff {t : Text} : decode? bs = some t ↔ encode t = bs := by
  constructor
  · intro h
    unfold decode? at h
    dsimp only at h
    split at h
    · next whole =>
      cases h
      have hnone : Continues [] none := rfl
      exact encode_units hnone whole
    · cases h
  · rintro rfl
    exact decode?_encode t

/-! ASCII characters in a text. -/

/-- No longer character has an ASCII byte in it. -/
lemma eq_of_mem_encodeChar {c : Char} (hb : b ∈ encodeChar c) (ascii : b.toNat < 0x80) :
    Char.ofNat b.toNat = c := by
  have hbyte {n : Nat} (hn : n < 256) (heq : b = .ofNat n) : b.toNat = n := by
    rw [heq, UInt8.toNat_ofNat', Nat.mod_eq_of_lt hn]
  have habove {n : Nat} (hlow : 0x80 ≤ n) (hn : n < 256) : b ≠ .ofNat n := fun heq => by
    have hbyte := hbyte hn heq
    omega
  have hc : c.toNat < 0x110000 := by
    rcases c.valid with h | h <;> simp only [Char.toNat] <;> omega
  unfold encodeChar at hb
  dsimp only at hb
  split at hb
  · rw [hbyte (by omega) (List.mem_singleton.mp hb), Char.ofNat_toNat]
  · -- in the longer forms all bytes are above the ASCII ones
    exfalso
    split at hb
    · simp only [List.mem_cons, List.not_mem_nil, or_false] at hb
      rcases hb with heq | heq <;> exact habove (by omega) (by omega) heq
    split at hb
    · simp only [List.mem_cons, List.not_mem_nil, or_false] at hb
      rcases hb with heq | heq | heq <;> exact habove (by omega) (by omega) heq
    · simp only [List.mem_cons, List.not_mem_nil, or_false] at hb
      rcases hb with heq | heq | heq | heq <;> exact habove (by omega) (by omega) heq

/-- An ASCII byte is read as a character. -/
theorem char_mem_of_decode? {t : Text} (h : decode? bs = some t) (hb : b ∈ bs)
    (ascii : b.toNat < 0x80) : Char.ofNat b.toNat ∈ t := by
  obtain rfl := decode?_eq_some_iff.mp h
  obtain ⟨c, hc, hbc⟩ := List.mem_flatMap.mp hb
  rwa [eq_of_mem_encodeChar hbc ascii]

end LogSweep.Utf8
