import LogSweep.CommandLine
import Mathlib.Data.List.Basic

/-! Reading a command line, one argument at a time. An argument that starts with no hyphen is the
value that is waited for, or else a path. Paths and options settle what is pending before they have
an effect. The main statement lists all that one argument can do to a reading. -/
namespace LogSweep

/-- The option that gives a parameter its value. The path of the tree has none. -/
def Parameter.flag : Parameter → Bytes
  | root => []
  | config => Utf8.encode "--config".toList
  | logLevel => Utf8.encode "--log-level".toList
  | dryRun => Utf8.encode "--dry-run".toList

namespace CommandLine

/-- The argument behind which all arguments are paths. -/
def endOfOptions : Bytes := [0x2D, 0x2D]

/-- An argument that can be a value or a path: it starts with no hyphen, or is a single one. -/
def IsPlain (arg : Bytes) : Prop := arg.head? ≠ some 0x2D ∨ arg = [0x2D]

/-- An argument ends the options, is a long or a short option, or is plain. -/
lemma argument_cases (arg : Bytes) :
    arg = endOfOptions ∨ (∃ name, name ≠ [] ∧ arg = 0x2D :: 0x2D :: name) ∨
      (∃ letter letters, letter ≠ 0x2D ∧ arg = 0x2D :: letter :: letters) ∨ IsPlain arg := by
  match arg with
  | [] => exact .inr (.inr (.inr (.inl (by simp))))
  | [b] =>
    by_cases hb : b = 0x2D
    · exact .inr (.inr (.inr (.inr (by rw [hb]))))
    · exact .inr (.inr (.inr (.inl (by simpa using hb))))
  | b :: c :: rest =>
    by_cases hb : b = 0x2D
    · subst hb
      by_cases hc : c = 0x2D
      · subst hc
        by_cases hrest : rest = []
        · exact .inl (by rw [hrest]; rfl)
        · exact .inr (.inl ⟨rest, hrest, rfl⟩)
      · exact .inr (.inr (.inl ⟨c, rest, hc, rfl⟩))
    · exact .inr (.inr (.inr (.inl (by simpa using hb))))

/-- A text that starts with no hyphen is a plain argument. -/
lemma isPlain_encode {t : Text} (h : t.head? ≠ some '-') : IsPlain (Utf8.encode t) := by
  left
  cases t with
  | nil => simp
  | cons c t =>
    have hc : c ≠ '-' := by simpa using h
    have hv : c.toNat ≠ 0x2D := fun hv => hc (Char.toNat_inj.mp hv)
    have hlast : c.toNat < 0x110000 := by
      rcases c.valid with h | h
      · exact Nat.lt_trans h (by decide)
      · exact h.2
    rw [Utf8.encode_cons]
    unfold Utf8.encodeChar
    dsimp only
    split_ifs <;> simp only [List.cons_append, List.head?_cons, ne_eq, Option.some.injEq] <;>
      intro hb <;> have := congrArg UInt8.toNat hb <;> simp at this <;> omega

namespace Reading

variable {r q s : Reading} {arg : Bytes} {p : Parameter} {v : Bytes} {t : Text}

/-! Taking a value. -/

@[simp] lemma pending_set (r : Reading) (p : Parameter) (t : Text) :
    (r.set p t).pending = r.pending := by
  cases p <;> rfl

@[simp] lemma rootRead_set (r : Reading) (p : Parameter) (t : Text) :
    (r.set p t).rootRead = r.rootRead := by
  cases p <;> rfl

@[simp] lemma onlyPaths_set (r : Reading) (p : Parameter) (t : Text) :
    (r.set p t).onlyPaths = r.onlyPaths := by
  cases p <;> rfl

lemma has_set (r : Reading) (p p' : Parameter) (t : Text) :
    (r.set p t).has p' = (r.has p' || p == p') := by
  cases p <;> cases p' <;> simp [set, has]

/-- A parameter takes one value, which has to be a text. -/
lemma take_eq_ok :
    r.take p v = .ok q ↔ r.has p = false ∧ ∃ t, Utf8.decode? v = some t ∧ q = r.set p t := by
  unfold take
  cases r.has p with
  | true => simp
  | false => cases Utf8.decode? v <;> simp [eq_comm]

/-- A reading settles if nothing is pending, or if a value is and can be taken. -/
lemma settle_eq_ok : r.settle = .ok s ↔
    (r.pending = none ∧ s = r) ∨
      ∃ p v, r.pending = some (p, some v) ∧ { r with pending := none }.take p v = .ok s := by
  unfold settle
  split <;> simp_all [eq_comm]

lemma settle_of_pending (h : r.pending = some (p, some v)) :
    r.settle = { r with pending := none }.take p v := by
  rw [settle, h]

lemma settle_of_pending_none (h : r.pending = none) : r.settle = .ok r := by
  rw [settle, h]

/-- A reading that settles waits for no value, and settling does nothing but take one. -/
lemma settled (h : r.settle = .ok s) :
    s.pending = none ∧ s.rootRead = r.rootRead ∧ s.onlyPaths = r.onlyPaths ∧
      ∀ p, r.pending ≠ some (p, none) := by
  rcases settle_eq_ok.mp h with ⟨hp, rfl⟩ | ⟨p, v, hp, htake⟩
  · simp [hp]
  · obtain ⟨-, t, -, rfl⟩ := take_eq_ok.mp htake
    simp [hp]

lemma take_onlyPaths : { r with onlyPaths := true }.take p v = .ok q ↔
    ∃ s, r.take p v = .ok s ∧ q = { s with onlyPaths := true } := by
  have hset (t : Text) :
      { r with onlyPaths := true }.set p t = { r.set p t with onlyPaths := true } := by
    cases p <;> rfl
  have hhas : { r with onlyPaths := true }.has p = r.has p := by cases p <;> rfl
  simp only [take_eq_ok, hset, hhas]
  constructor
  · rintro ⟨hno, t, ht, rfl⟩
    exact ⟨_, ⟨hno, t, ht, rfl⟩, rfl⟩
  · rintro ⟨s, ⟨hno, t, ht, rfl⟩, rfl⟩
    exact ⟨hno, t, ht, rfl⟩

/-- Whether all further arguments are paths does not matter to what is pending. -/
lemma settle_onlyPaths : { r with onlyPaths := true }.settle = .ok q ↔
    ∃ s, r.settle = .ok s ∧ q = { s with onlyPaths := true } := by
  unfold settle
  dsimp only
  split
  · simp [eq_comm]
  · simp
  · exact take_onlyPaths (r := { r with pending := none })

/-- A variable is read if it is set and its option is not given. -/
lemma orVariable_eq_ok {value : Option Bytes} : r.orVariable p value = .ok q ↔
    ((value = none ∨ r.has p = true) ∧ q = r) ∨
      ∃ v, value = some v ∧ r.has p = false ∧ r.take p v = .ok q := by
  unfold orVariable
  cases value with
  | none => simp [@eq_comm _ q r]
  | some v => cases r.has p <;> simp [@eq_comm _ q r]

/-! Where an argument is read as what. -/

lemma step_of_onlyPaths (h : r.onlyPaths = true) (arg : Bytes) : r.step arg = r.path arg := by
  unfold step
  rw [if_pos h]

section
variable (options : r.onlyPaths = false)
include options

lemma step_endOfOptions : r.step endOfOptions = .ok { r with onlyPaths := true } := by
  unfold step
  rw [if_neg (by simp [options])]
  rfl

lemma step_long {name : Bytes} (h : name ≠ []) : r.step (0x2D :: 0x2D :: name) = r.long name := by
  unfold step
  rw [if_neg (by simp [options])]
  cases name with
  | nil => exact absurd rfl h
  | cons b name => rfl

lemma step_short {letter : UInt8} (h : letter ≠ 0x2D) (letters : Bytes) :
    r.step (0x2D :: letter :: letters) = r.short (letter :: letters) := by
  unfold step
  rw [if_neg (by simp [options])]
  split <;> simp_all

lemma step_value (plain : IsPlain arg) (waiting : r.pending = some (p, none)) :
    r.step arg = .ok { r with pending := some (p, some arg) } := by
  unfold step
  rw [if_neg (by simp [options])]
  split <;> simp_all [IsPlain]

lemma step_path (plain : IsPlain arg) (full : ∀ p, r.pending ≠ some (p, none)) :
    r.step arg = r.path arg := by
  unfold step
  rw [if_neg (by simp [options])]
  split <;> simp_all [IsPlain]

end

/-! What each kind of argument does. -/

/-- What one argument makes of a reading. -/
inductive Next (r : Reading) (arg : Bytes) : Reading → Prop
  | path {s : Reading} (isPath : r.onlyPaths = true ∨ IsPlain arg) (first : r.rootRead = false)
      (settle : r.settle = .ok s) :
      Next r arg { s with pending := some (.root, some arg), rootRead := true }
  | value {p : Parameter} (options : r.onlyPaths = false) (plain : IsPlain arg)
      (waiting : r.pending = some (p, none)) :
      Next r arg { r with pending := some (p, some arg) }
  | endOfOptions (options : r.onlyPaths = false) (arg_eq : arg = endOfOptions) :
      Next r arg { r with onlyPaths := true }
  | option {s : Reading} {p : Parameter} (options : r.onlyPaths = false)
      (isOption : p = .config ∨ p = .logLevel) (arg_eq : arg = p.flag)
      (settle : r.settle = .ok s) : Next r arg { s with pending := some (p, none) }
  | joined {s q : Reading} {p : Parameter} {v : Bytes} (options : r.onlyPaths = false)
      (isOption : p = .config ∨ p = .logLevel) (arg_eq : arg = p.flag ++ 0x3D :: v)
      (settle : r.settle = .ok s) (taken : s.take p v = .ok q) : Next r arg q
  | dryRun {s : Reading} (options : r.onlyPaths = false) (arg_eq : arg = Parameter.dryRun.flag)
      (settle : r.settle = .ok s) (first : s.dryRun = false) :
      Next r arg { s with dryRun := true }

/-- No short option lets the reading go on. -/
lemma short_ne_ok (r : Reading) (arg : Bytes) : r.short arg ≠ .ok q := by
  unfold short flag
  split <;> cases r.settle <;> simp [bind, Except.bind]

/-- A path is read once, after what is pending has been settled. -/
lemma path_eq_ok : r.path arg = .ok q ↔ r.rootRead = false ∧ ∃ s, r.settle = .ok s ∧
    q = { s with pending := some (.root, some arg), rootRead := true } := by
  unfold path
  cases r.rootRead with
  | true => simp
  | false => cases r.settle <;> simp [bind, Except.bind, pure, Except.pure, eq_comm]

/-- A long option is its name, or its name and a value behind the first equals sign. -/
lemma name_and_value (arg : Bytes) :
    let name := arg.takeWhile (· ≠ 0x3D)
    let value := (arg.dropWhile (· ≠ 0x3D)).tail?
    (value = none ∧ arg = name) ∨ ∃ v, value = some v ∧ arg = name ++ 0x3D :: v := by
  have hsplit := List.takeWhile_append_dropWhile (p := (· ≠ 0x3D)) (l := arg)
  cases hrest : arg.dropWhile (· ≠ 0x3D) with
  | nil =>
    rw [hrest, List.append_nil] at hsplit
    exact .inl ⟨rfl, hsplit.symm⟩
  | cons b v =>
    have hb := List.head?_dropWhile_not (· ≠ 0x3D) arg
    rw [hrest] at hb
    obtain rfl : b = 0x3D := by simpa using hb
    rw [hrest] at hsplit
    exact .inr ⟨v, rfl, hsplit.symm⟩

section
variable (options : r.onlyPaths = false)
include options

/-- All that a long option can do. -/
lemma next_of_long {name : Bytes} (ok : r.long name = .ok q) :
    Next r (0x2D :: 0x2D :: name) q := by
  have hsplit := name_and_value name
  unfold long at ok
  dsimp only at ok hsplit
  generalize name.takeWhile (· ≠ 0x3D) = key at ok hsplit
  generalize (name.dropWhile (· ≠ 0x3D)).tail? = value at ok hsplit
  have hoption {p : Parameter} (isOption : p = .config ∨ p = .logLevel)
      (hp : p.flag = 0x2D :: 0x2D :: key) (hok : r.option p value = .ok q) :
      Next r (0x2D :: 0x2D :: name) q := by
    obtain ⟨s, hs, hq⟩ := bind_eq_ok hok
    rcases hsplit with ⟨rfl, rfl⟩ | ⟨v, rfl, rfl⟩
    · cases hq
      exact .option options isOption hp.symm hs
    · exact .joined options isOption (by rw [hp]; rfl) hs hq
  split_ifs at ok with hconfig hlevel hdry hhelp hversion
  · exact hoption (.inl rfl) (by rw [hconfig]; rfl) ok
  · exact hoption (.inr rfl) (by rw [hlevel]; rfl) ok
  · rcases hsplit with ⟨rfl, rfl⟩ | ⟨v, rfl, rfl⟩
    · obtain ⟨s, hs, hq⟩ := bind_eq_ok ok
      unfold beDry at hq
      split at hq
      · cases hq
      · next hfirst =>
        cases hq
        exact .dryRun options (by rw [hdry]; rfl) hs (Bool.eq_false_iff.mpr hfirst)
    · cases ok
  · cases value with
    | some v => cases ok
    | none =>
      obtain ⟨s, -, hq⟩ := bind_eq_ok ok
      cases hq
  · cases value with
    | some v => cases ok
    | none =>
      obtain ⟨s, -, hq⟩ := bind_eq_ok ok
      cases hq

end

/-- One argument does to a reading what is listed, and nothing else. -/
theorem next_of_step (ok : r.step arg = .ok q) : Next r arg q := by
  cases only : r.onlyPaths with
  | true =>
    rw [step_of_onlyPaths only] at ok
    obtain ⟨first, s, hs, rfl⟩ := path_eq_ok.mp ok
    exact .path (.inl only) first hs
  | false =>
    rcases argument_cases arg with rfl | ⟨name, hname, rfl⟩ | ⟨letter, letters, hl, rfl⟩ | plain
    · rw [step_endOfOptions only] at ok
      cases ok
      exact .endOfOptions only rfl
    · rw [step_long only hname] at ok
      exact next_of_long only ok
    · rw [step_short only hl] at ok
      exact absurd ok (short_ne_ok r _)
    · by_cases waiting : ∃ p, r.pending = some (p, none)
      · obtain ⟨p, hp⟩ := waiting
        rw [step_value only plain hp] at ok
        cases ok
        exact .value only plain hp
      · rw [step_path only plain fun p hp => waiting ⟨p, hp⟩] at ok
        obtain ⟨first, s, hs, rfl⟩ := path_eq_ok.mp ok
        exact .path (.inr plain) first hs

section
variable (options : r.onlyPaths = false)
include options

lemma step_flag (isOption : p = .config ∨ p = .logLevel) :
    r.step p.flag = r.option p none := by
  rcases isOption with rfl | rfl
  · exact (step_long options (List.cons_ne_nil _ _)).trans rfl
  · exact (step_long options (List.cons_ne_nil _ _)).trans rfl

lemma step_flag_append (isOption : p = .config ∨ p = .logLevel) (v : Bytes) :
    r.step (p.flag ++ 0x3D :: v) = r.option p (some v) := by
  rcases isOption with rfl | rfl
  · exact (step_long options (List.cons_ne_nil _ _)).trans rfl
  · exact (step_long options (List.cons_ne_nil _ _)).trans rfl

lemma step_dryRun : r.step Parameter.dryRun.flag = r.settle >>= beDry :=
  (step_long options (List.cons_ne_nil _ _)).trans rfl

end

/-- What is listed does happen. -/
theorem Next.step (h : Next r arg q) : r.step arg = .ok q := by
  cases h with
  | @path s isPath first settle =>
    have hpath : r.path arg = .ok { s with pending := some (.root, some arg), rootRead := true } :=
      path_eq_ok.mpr ⟨first, s, settle, rfl⟩
    cases only : r.onlyPaths with
    | true => rw [step_of_onlyPaths only, hpath]
    | false =>
      have plain := isPath.resolve_left (by simp [only])
      rw [step_path only plain (settled settle).2.2.2, hpath]
  | value options plain waiting => exact step_value options plain waiting
  | endOfOptions options arg_eq => rw [arg_eq, step_endOfOptions options]
  | option options isOption arg_eq settle =>
    rw [arg_eq, step_flag options isOption, Reading.option, settle]
    rfl
  | joined options isOption arg_eq settle taken =>
    rw [arg_eq, step_flag_append options isOption, Reading.option, settle]
    exact taken
  | dryRun options arg_eq settle first =>
    rw [arg_eq, step_dryRun options, settle]
    simp only [bind, Except.bind, beDry, first, Bool.false_eq_true, if_false]

end Reading
end CommandLine
end LogSweep
