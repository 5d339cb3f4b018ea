import LogSweep.Text.Utf8

/-! Paths as bytes: their components, their extension, and how they are joined and shown. -/
namespace LogSweep

/-- What stands between two slashes of a path. -/
abbrev Part := Bytes

/-- A path as it is spelled. Nothing is normalised. -/
abbrev Path := Bytes

namespace Path

def slash : UInt8 := 0x2F

def dot : UInt8 := 0x2E

/-- One step of a path. -/
inductive Component where
  | root
  | here
  | parent
  | name (n : Part)
  deriving DecidableEq, Repr

namespace Component

/-- The component that a part between slashes stands for. -/
def ofPart (n : Part) : Component :=
  if n = [dot] then .here else if n = [dot, dot] then .parent else .name n

def spelling : Component → Part
  | root => [slash]
  | here => [dot]
  | parent => [dot, dot]
  | name n => n

end Component

def ofText (t : Text) : Path := Utf8.encode t

def isAbsolute (p : Path) : Bool := p.head? == some slash

/-- The parts between the slashes of a path that are not empty. -/
def parts (p : Path) : List Part := (p.splitOn slash).filter (!·.isEmpty)

/-- The components of a path: repeated slashes count once, and a `.` counts only where it starts
a relative path. -/
def components (p : Path) : List Component :=
  let cs := p.parts.map Component.ofPart
  if p.isAbsolute then .root :: cs.filter (· ≠ .here)
  else
    match cs with
    | .here :: rest => .here :: rest.filter (· ≠ .here)
    | cs => cs.filter (· ≠ .here)

/-- The name that a path ends in, unless it ends in the root, `.` or `..`. -/
def fileName? (p : Path) : Option Part :=
  match p.components.getLast? with
  | some (.name n) => some n
  | _ => none

/-- What follows the last dot of a name, unless that dot is its first byte. -/
def extensionOf (n : Part) : Option Bytes :=
  let ext := (n.reverse.takeWhile (· ≠ dot)).reverse
  if n.length ≤ ext.length + 1 then none else some ext

/-- The extension of the name that a path ends in. -/
def extension? (p : Path) : Option Bytes := p.fileName?.bind extensionOf

/-- The path `q` seen from the directory `p`. One slash is put between them unless `p` is empty or
ends in one, and an absolute `q` stands for itself. -/
def join (p q : Path) : Path :=
  if q.isAbsolute then q
  else if p.isEmpty || p.getLast? == some slash then p ++ q
  else p ++ slash :: q

/-- The last name of a path, or its whole spelling where it ends in none. -/
def lastName (p : Path) : Part := p.fileName?.getD p

/-- The path as text, with U+FFFD for what is not UTF-8. -/
def display (p : Path) : Text := Utf8.display p

@[simp] theorem Component.spelling_ofPart (n : Part) : (ofPart n).spelling = n := by
  unfold ofPart
  split
  · simp_all [spelling]
  · split <;> simp_all [spelling]

theorem isAbsolute_eq_false {n : Part} (h : slash ∉ n) : isAbsolute n = false := by
  cases n with
  | nil => rfl
  | cons b n =>
    have hb : b ≠ slash := fun hb => h (hb ▸ List.mem_cons_self)
    simpa [isAbsolute] using hb

/-- A joined path ends in the part that was joined. -/
theorem join_eq_append {n : Part} (h : slash ∉ n) (p : Path) : ∃ q, p.join n = q ++ n := by
  unfold join
  rw [if_neg (by simp [isAbsolute_eq_false h])]
  split
  · exact ⟨p, rfl⟩
  · exact ⟨p ++ [slash], by simp⟩

theorem parts_append_slash (p q : Path) : parts (p ++ slash :: q) = parts p ++ parts q := by
  unfold parts
  rw [List.splitOn_append_cons_self, List.filter_append]

theorem parts_join {n : Part} (hne : n ≠ []) (hs : slash ∉ n) (p : Path) :
    (p.join n).parts = p.parts ++ [n] := by
  have hn : parts n = [n] := by
    rw [parts, List.splitOn_eq_singleton hs]
    simpa using hne
  unfold join
  rw [if_neg (by simp [isAbsolute_eq_false hs])]
  split
  · next h =>
    by_cases hp : p = []
    · subst hp
      exact hn
    · have hlast : p.getLast? = some slash := by simpa [hp] using h
      obtain ⟨q, rfl⟩ := List.getLast?_eq_some_iff.mp hlast
      rw [List.append_assoc, List.singleton_append, parts_append_slash, parts_append_slash, hn]
      simp [parts]
  · rw [parts_append_slash, hn]

theorem isAbsolute_join {p : Path} (hp : p ≠ []) {n : Part} (hs : slash ∉ n) :
    (p.join n).isAbsolute = p.isAbsolute := by
  unfold join
  rw [if_neg (by simp [isAbsolute_eq_false hs])]
  cases p with
  | nil => exact absurd rfl hp
  | cons b p => split <;> simp [isAbsolute]

@[simp] theorem display_ofText (t : Text) : display (ofText t) = t := Utf8.display_encode t

example : components (ofText "./a//b/./..".toList) =
    [.here, .name (ofText ['a']), .name (ofText ['b']), .parent] := by decide
example : extension? (ofText "a/..ts/".toList) = some (ofText ['t', 's']) := by decide
example : extension? (ofText "a/.ts".toList) = none := by decide
example : extension? (ofText "a/b.ts/..".toList) = none := by decide
example : join (ofText "src/".toList) (ofText ['a']) = ofText "src/a".toList := by decide

end Path
end LogSweep
