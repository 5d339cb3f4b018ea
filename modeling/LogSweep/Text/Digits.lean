import LogSweep.Text.Blank

/-! Natural numbers as digits. The value of digits does not change when each two of them are taken
together as one digit of the squared base, which makes long numbers short. -/
namespace LogSweep.Text

/-- The number that digits of a base spell, the lowest digit first. -/
def valueOf (base : Nat) (ds : List Nat) : Nat := ds.foldr (fun d n => d + base * n) 0

/-- The digits of the squared base for digits of a base, the lowest digit first. -/
def pairDigits (base : Nat) : List Nat → List Nat
  | d :: e :: rest => (d + base * e) :: pairDigits base rest
  | ds => ds

/-- The number that digits spell, found by pairing them a number of times. -/
def valueByPairs : Nat → Nat → List Nat → Nat
  | 0, base, ds => valueOf base ds
  | n + 1, base, ds => valueByPairs n (base * base) (pairDigits base ds)

/-- The number that digits of a base spell, the highest digit first. -/
def ofDigits (base : Nat) (ds : List Nat) : Nat := valueByPairs ds.length.log2 base ds.reverse

def ofNat (n : Nat) : Text := Nat.toDigits 10 n

/-- The number that decimal digits spell, if the text has a digit and nothing else. -/
def toNat? (t : Text) : Option Nat :=
  if t.isEmpty || !t.all Char.isDigit then none
  else some (ofDigits 10 (t.map fun d => d.toNat - '0'.toNat))

/-- Pairing digits keeps the number that they spell. -/
theorem valueOf_pairDigits (base : Nat) (ds : List Nat) :
    valueOf (base * base) (pairDigits base ds) = valueOf base ds := by
  fun_induction pairDigits base ds with
  | case1 d e rest ih =>
    simp only [valueOf, List.foldr_cons] at ih ⊢
    rw [ih, Nat.mul_add, Nat.add_assoc, Nat.mul_assoc]
  | case2 ds h =>
    match ds, h with
    | [], _ => rfl
    | [d], _ => simp [valueOf]
    | d :: e :: rest, h => exact absurd rfl (h d e rest)

theorem valueByPairs_eq (n base : Nat) (ds : List Nat) :
    valueByPairs n base ds = valueOf base ds := by
  induction n generalizing base ds with
  | zero => rfl
  | succ n ih => rw [valueByPairs, ih, valueOf_pairDigits]

/-- Each digit counts the base times as much as the one behind it. -/
theorem ofDigits_eq_foldl (base : Nat) (ds : List Nat) :
    ofDigits base ds = ds.foldl (fun n d => d + base * n) 0 := by
  rw [ofDigits, valueByPairs_eq, valueOf, List.foldr_reverse]

/-- A text of digits and nothing else is a number. -/
theorem toNat?_eq_some_iff {t : Text} {n : Nat} : toNat? t = some n ↔
    (t ≠ [] ∧ ∀ c ∈ t, c.isDigit) ∧ ofDigits 10 (t.map fun d => d.toNat - '0'.toNat) = n := by
  unfold toNat?
  split
  · next other =>
    refine ⟨nofun, fun h => ?_⟩
    obtain ⟨⟨hne, hdigits⟩, -⟩ := h
    obtain ⟨c, hc, hother⟩ : ∃ c ∈ t, c.isDigit = false := by simpa [hne] using other
    rw [hdigits c hc] at hother
    cases hother
  · next digits => simp_all

/-- Zeros in front of a number do not count. -/
theorem toNat?_zeros {t : Text} {n : Nat} (zeros : Nat) (h : toNat? t = some n) :
    toNat? (List.replicate zeros '0' ++ t) = some n := by
  obtain ⟨⟨hne, hdigits⟩, hvalue⟩ := toNat?_eq_some_iff.mp h
  have hzeros : (List.replicate zeros 0).foldl (fun n d => d + 10 * n) 0 = 0 := by
    induction zeros with
    | zero => rfl
    | succ zeros ih => exact ih
  refine toNat?_eq_some_iff.mpr ⟨⟨by simp [hne], fun c hc => ?_⟩, ?_⟩
  · rcases List.mem_append.mp hc with hzero | hc
    · rw [List.eq_of_mem_replicate hzero]
      rfl
    · exact hdigits c hc
  · rw [← hvalue, ofDigits_eq_foldl, ofDigits_eq_foldl, List.map_append, List.map_replicate,
      List.foldl_append]
    exact congrArg (List.foldl _ · _) hzeros

example : ofNat 120 = "120".toList := by decide
example : toNat? "0120".toList = some 120 := by decide +kernel
example : toNat? "1_2".toList = none := by decide +kernel

end LogSweep.Text
