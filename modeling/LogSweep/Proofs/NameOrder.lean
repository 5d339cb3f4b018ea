import LogSweep.Proofs.Candidates
import LogSweep.Proofs.Spelling

/-! The order of the collected files. They are in the order of the names on their ways below the
root, name by name, where a directory has all that lies in it at its own place among its siblings.
No way to a file goes on behind another one, so of two files the names at which their ways part
tell which one comes first. -/
namespace LogSweep

namespace Name

/-- The way `xs` parts from the way `ys` with a smaller name. -/
def Precedes (xs ys : List Name) : Prop :=
  ∃ common n m rest rest', n < m ∧ xs = common ++ n :: rest ∧ ys = common ++ m :: rest'

variable {xs ys : List Name}

instance : Std.Irrefl (α := Name) (· < ·) := ⟨lt_irrefl⟩

instance : Std.Asymm (α := Name) (· < ·) := ⟨fun a _ h h' => a.lt_irrefl (lt_trans h h')⟩

lemma lt_or_eq_or_lt (a b : Name) : a < b ∨ a = b ∨ b < a := by
  by_cases hab : a < b
  · exact .inl hab
  by_cases heq : a = b
  · exact .inr (.inl heq)
  · exact .inr (.inr (lt_of_not_lt hab heq))

instance : Std.Trichotomous (α := Name) (· < ·) :=
  ⟨fun a b hab hba => by simpa [hab, hba] using a.lt_or_eq_or_lt b⟩

lemma Precedes.lt (h : Precedes xs ys) : xs < ys := by
  obtain ⟨common, n, m, rest, rest', hlt, rfl, rfl⟩ := h
  exact List.append_left_lt (List.cons_lt_cons_iff.mpr (.inl hlt))

lemma Precedes.cons (h : Precedes xs ys) (n : Name) : Precedes (n :: xs) (n :: ys) := by
  obtain ⟨common, m, m', rest, rest', hlt, rfl, rfl⟩ := h
  exact ⟨n :: common, m, m', rest, rest', hlt, rfl, rfl⟩

/-- Of two ways the smaller one is the beginning of the other, or it parts from it with a smaller
name. -/
lemma prefix_or_precedes (h : xs < ys) : xs <+: ys ∨ Precedes xs ys := by
  induction xs generalizing ys with
  | nil => exact .inl List.nil_prefix
  | cons n xs ih =>
    cases ys with
    | nil => exact absurd h (List.not_lt_nil _)
    | cons m ys =>
      rcases List.cons_lt_cons_iff.mp h with hlt | ⟨rfl, hlt⟩
      · exact .inr ⟨[], n, m, xs, ys, hlt, rfl, rfl⟩
      · exact (ih hlt).imp (List.prefix_cons_inj n).mpr fun hp => hp.cons n

end Name

namespace Path

/-- The ways of paths below one path are in the order of the parts of the paths. -/
lemma lt_of_parts_below {p : Path} {xs ys : List Name}
    (h : (p.below xs).parts < (p.below ys).parts) : xs < ys := by
  rw [parts_below, parts_below] at h
  generalize p.parts = parts at h
  induction parts with
  | nil =>
    induction xs generalizing ys with
    | nil =>
      cases ys with
      | nil => exact absurd h (List.not_lt_nil _)
      | cons m ys => exact List.nil_lt_cons m ys
    | cons n xs ih =>
      cases ys with
      | nil => exact absurd h (List.not_lt_nil _)
      | cons m ys =>
        rcases List.cons_lt_cons_iff.mp h with hlt | ⟨heq, hlt⟩
        · exact List.cons_lt_cons_iff.mpr (.inl hlt)
        · exact List.cons_lt_cons_iff.mpr (.inr ⟨Name.ext_bytes heq, ih hlt⟩)
  | cons part parts ih =>
    rcases List.cons_lt_cons_iff.mp h with hlt | ⟨-, hlt⟩
    · exact absurd hlt (List.lt_irrefl part)
    · exact ih hlt

end Path

/-- The way to a file does not go on to another one. -/
lemma Entry.eq_of_prefix_file {e : Entry} {xs ys : List Name} {access access' : Access}
    {content content' : Bytes} (hx : e.get? xs = some (.file access content))
    (hy : e.get? ys = some (.file access' content')) (h : xs <+: ys) : xs = ys := by
  obtain ⟨rest, rfl⟩ := h
  rw [get?_append, hx, Option.bind_some] at hy
  cases rest with
  | nil => exact (List.append_nil xs).symm
  | cons n rest => cases hy

namespace Selection

variable {s : Selection} {fs : FileSystem} {ps : List Path}

/-- The collected paths are the paths of ways to files below one entry. -/
lemma exists_ways (h : s.collect fs = .ok ps) :
    ∃ (e : Entry) (ways : List (List Name)), ps = ways.map s.root.below ∧
      ∀ names ∈ ways, ∃ access content, e.get? names = some (.file access content) := by
  rcases Walk.visitsFrom_cases s.excludes fs s.root with hv | ⟨place, e, -, hv⟩
  · refine ⟨.link [], [], ?_, nofun⟩
    rw [collect_eq_ok h, visits, hv]
    rfl
  · have hfile : ∀ p ∈ ps, ∃ names, s.root.below names = p ∧
        ∃ access content, e.get? names = some (.file access content) := by
      intro p hp
      rw [collect_eq_ok h, visits, hv] at hp
      obtain ⟨names, access, content, hpath, hg⟩ :=
        Walk.file_of_mem_visits (Walk.mem_files_iff.mp (List.mem_filter.mp hp).1)
      exact ⟨names, hpath.symm, access, content, hg⟩
    choose! way hway hget using hfile
    refine ⟨e, ps.map way, ?_, fun names hmem => ?_⟩
    · rw [List.map_map]
      exact (List.map_id ps).symm.trans (List.map_congr_left fun p hp => (hway p hp).symm)
    · obtain ⟨p, hp, rfl⟩ := List.mem_map.mp hmem
      exact hget p hp

/-- The collected paths are told by their ways below the root, and these are in strictly increasing
order, name by name and the names by their bytes. So no path is collected twice, and of two files
the one comes first whose way parts from the other with the smaller name. -/
theorem collect_ordered (h : s.collect fs = .ok ps) :
    Function.Injective s.root.below ∧
    ∃ ways : List (List Name), ps = ways.map s.root.below ∧ ways.Pairwise (· < ·) ∧ ps.Nodup ∧
      ∀ (i j : Nat) (xs ys : List Name), ways[i]? = some xs → ways[j]? = some ys →
        (i < j ↔ Name.Precedes xs ys) := by
  obtain ⟨e, ways, rfl, hfile⟩ := exists_ways h
  have hsorted : ways.Pairwise (· < ·) :=
    (List.pairwise_map.mp (collect_pairwise h)).imp fun hparts => Path.lt_of_parts_below hparts
  have hlt {i j : Nat} {xs ys : List Name} (hxs : ways[i]? = some xs) (hys : ways[j]? = some ys)
      (hij : i < j) : xs < ys := by
    obtain ⟨hi, rfl⟩ := List.getElem?_eq_some_iff.mp hxs
    obtain ⟨hj, rfl⟩ := List.getElem?_eq_some_iff.mp hys
    exact List.pairwise_iff_getElem.mp hsorted i j hi hj hij
  refine ⟨fun _ _ => Path.below_injective, ways, rfl, hsorted, collect_nodup h, ?_⟩
  intro i j xs ys hxs hys
  constructor
  · intro hij
    rcases Name.prefix_or_precedes (hlt hxs hys hij) with hbegin | hp
    · obtain ⟨access, content, hx⟩ := hfile xs (List.mem_of_getElem? hxs)
      obtain ⟨access', content', hy⟩ := hfile ys (List.mem_of_getElem? hys)
      obtain rfl := Entry.eq_of_prefix_file hx hy hbegin
      exact absurd (hlt hxs hys hij) (List.lt_irrefl xs)
    · exact hp
  · intro hp
    by_contra hij
    rcases Nat.lt_or_eq_of_le (Nat.not_lt.mp hij) with hji | rfl
    · exact List.lt_asymm hp.lt (hlt hys hxs hji)
    · obtain rfl := Option.some.inj (hxs.symm.trans hys)
      exact List.lt_irrefl xs hp.lt

/-- A directory comes before a file whose name is longer, though a slash is greater than a dot. -/
theorem collect_ordered_directory_before_file :
    let a : Name := ⟨[0x61], by decide⟩
    let file : Name := ⟨[0x61, 0x2E, 0x74], by decide⟩
    let z : Name := ⟨[0x7A, 0x2E, 0x74], by decide⟩
    let src : Entry := .dir {} [(file, .file {} []), (a, .dir {} [(z, .file {} [])])]
    let fs : FileSystem := ⟨.dir {} [(⟨[0x73], by decide⟩, src)], []⟩
    let s : Selection := ⟨[0x73], [['t']], []⟩
    let ps := [s.root.below [a, z], s.root.below [file]]
    s.collect fs = .ok ps ∧ s.root.below [file] < s.root.below [a, z] ∧ ps.Nodup ∧
    [[a, z], [file]].Pairwise (· < ·) ∧ Name.Precedes [a, z] [file] := by
  intro a file z src fs s ps
  have h : s.collect fs = .ok ps := rfl
  obtain ⟨hinjective, ways, hways, hsorted, hnodup, horder⟩ := collect_ordered h
  obtain rfl : [[a, z], [file]] = ways := List.map_injective_iff.mpr hinjective hways
  exact ⟨h, by decide, hnodup, hsorted, (horder 0 1 _ _ rfl rfl).mp Nat.zero_lt_one⟩

end Selection
end LogSweep
