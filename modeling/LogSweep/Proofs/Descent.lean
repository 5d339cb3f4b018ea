import LogSweep.Proofs.Spelling
import LogSweep.Proofs.Veil

/-! Finding a place step by step. A path below the path of a directory is found from this directory,
and along ways that cannot tell two trees apart the same place is found in both, or the same error.
-/
namespace LogSweep

namespace FileSystem
open Entry

variable {root root' : Entry} {fs : FileSystem} {p : Path} {here there place : Place}
  {follow follow' : Path → List Part → Place → Except IoError Place} {followLast : Bool}
  {path xs ys tail : List Part} {names : List Name} {e e' : Entry}

lemma descend_dots (dots : ∀ part ∈ tail, part = [Path.dot])
    (h : descend root follow followLast tail here = .ok there) : there = here := by
  induction tail with
  | nil => exact (Except.ok.inj h).symm
  | cons part tail ih =>
    obtain ⟨rfl, hrest⟩ := List.forall_mem_cons.mp dots
    rw [descend] at h
    split at h
    · split at h
      · cases h
      · rw [if_pos rfl] at h
        exact ih hrest h
    · cases h

/-- Steps that go on behind others start at the directory where these end. -/
lemma descend_append (dots : ∀ part ∈ tail, part = [Path.dot])
    (dir : ∃ access entries, root.get? there = some (.dir access entries))
    (hhere : ∃ links, descend root follow' true ys there = locateWithin root true links ys there)
    (hfollow : ∀ target rest here, follow target (rest ++ tail) here = .ok there →
      ∃ links, follow' target (rest ++ ys) here = locateWithin root true links ys there)
    (h : descend root follow followLast (xs ++ tail) here = .ok there) :
    ∃ links, descend root follow' true (xs ++ ys) here = locateWithin root true links ys there := by
  induction xs generalizing here with
  | nil =>
    obtain rfl := descend_dots dots h
    exact hhere
  | cons part rest ih =>
    rw [List.cons_append, descend] at h ⊢
    split at h
    · next access entries hdir =>
      split at h
      · cases h
      next hsearch =>
      rw [if_neg hsearch]
      split at h
      · next hd =>
        rw [if_pos hd]
        exact ih h
      next hd =>
      rw [if_neg hd]
      split at h
      · next hdd =>
        rw [if_pos hdd]
        exact ih h
      next hdd =>
      rw [if_neg hdd]
      split at h
      · cases h
      · next n target found =>
        have hmore : ¬ ((rest ++ ys).isEmpty && !true) = true := by simp
        rw [if_neg hmore]
        split at h
        · -- the steps do not end at a link
          obtain rfl := Except.ok.inj h
          obtain ⟨access', entries', hd'⟩ := dir
          rw [get?_append_child hdir (child?_of_named? found)] at hd'
          cases hd'
        · exact hfollow target rest here h
      · exact ih h
    · cases h

lemma locateWithin_append {links : Nat} (dots : ∀ part ∈ tail, part = [Path.dot])
    (dir : ∃ access entries, root.get? there = some (.dir access entries))
    (h : locateWithin root followLast links (xs ++ tail) here = .ok there) :
    ∃ links', locateWithin root true links (xs ++ ys) here =
      locateWithin root true links' ys there := by
  induction links generalizing xs here with
  | zero => exact descend_append dots dir ⟨0, rfl⟩ (fun _ _ _ h => by cases h) h
  | succ links ih =>
    refine descend_append dots dir ⟨links + 1, rfl⟩ (fun target rest here h => ?_) h
    rw [← List.append_assoc] at h ⊢
    exact ih h

/-- A path of proper length without a zero is found where its steps are. -/
lemma locate_eq_ok : fs.locate followLast p = .ok place ↔ 0 ∉ p ∧ p ≠ [] ∧ p.length < pathLimit ∧
    locateWithin fs.root followLast maxLinks (steps p) (fs.start p) = .ok place := by
  unfold locate start
  by_cases hz : 0 ∈ p
  · simp [hz]
  by_cases hn : p = []
  · simp [hn]
  by_cases hlong : pathLimit ≤ p.length
  · simp [hz, hn, hlong, Nat.not_lt.mpr hlong]
  · simp [hz, hn, hlong, Nat.not_le.mp hlong]

/-- A path below the path of a directory is found from this directory. -/
lemma locate_below (hl : fs.locate followLast p = .ok place)
    (dir : ∃ access entries, fs.root.get? place = some (.dir access entries)) (hn : names ≠ []) :
    ∃ links, fs.locate true (p.below names) =
      if (p.below names).contains 0 then .error .zeroInPath
      else if pathLimit ≤ (p.below names).length then .error .nameTooLong
      else locateWithin fs.root true links (names.map Name.bytes) place := by
  obtain ⟨-, hp, -, hwithin⟩ := locate_eq_ok.mp hl
  have dots : ∀ part ∈ (if p.getLast? = some Path.slash then [[Path.dot]] else []),
      part = [Path.dot] := by
    split <;> simp
  obtain ⟨links, hbelow⟩ := locateWithin_append dots dir hwithin
  have hnamed : ¬ (p.below names).isEmpty = true := by simpa using Path.below_ne_nil hp names
  refine ⟨links, ?_⟩
  rw [locate, if_neg hnamed, Path.steps_below p hn, Path.isAbsolute_below hp, ← hbelow]
  rfl

/-! Ways on which two trees cannot be told apart. -/

lemma descend_here {access : Access} {entries : List (Name × Entry)} (rest : List Part)
    (dir : root.get? here = some (.dir access entries)) :
    descend root follow followLast ([Path.dot] :: rest) here =
      if !access.search then .error .denied else descend root follow followLast rest here := by
  rw [descend, dir]
  simp only [if_pos]

lemma descend_enter {access : Access} {entries : List (Name × Entry)} {n : Name}
    (rest : List Part) (dir : root.get? here = some (.dir access entries))
    (child : child? n entries = some e) (real : e.isLink = false) :
    descend root follow followLast (n.bytes :: rest) here =
      if !access.search then .error .denied
      else descend root follow followLast rest (here ++ [n]) := by
  rw [descend, dir]
  simp only [if_neg n.bytes_ne_dot, if_neg n.bytes_ne_dot_dot, named?_bytes, child,
    Option.map_some]
  cases e with
  | link target => cases real
  | file access content => rfl
  | dir access entries => rfl

/-- Along names that cannot tell two trees apart, steps lead to the same place in both. -/
lemma descend_alike (h : Alike names e e') (hg : root.get? here = some e)
    (hg' : root'.get? here = some e')
    (spelled : path.filter (· ≠ [Path.dot]) = names.map Name.bytes) :
    descend root' follow' followLast path here = descend root follow followLast path here := by
  induction path generalizing names e e' here with
  | nil => rfl
  | cons part rest ih =>
    by_cases hdot : part = [Path.dot]
    · subst hdot
      rw [List.filter_cons_of_neg (by simp)] at spelled
      have hnext := ih h hg hg' spelled
      cases h with
      | file access content => rw [descend, descend, hg, hg']
      | dir access entries entries' => rw [descend_here rest hg, descend_here rest hg', hnext]
      | child child child' tail => rw [descend_here rest hg, descend_here rest hg', hnext]
    · rw [List.filter_cons_of_pos (by simpa using hdot)] at spelled
      cases h with
      | file access content => cases spelled
      | dir access entries entries' => cases spelled
      | @child n names access entries entries' c c' child child' tail =>
        obtain ⟨rfl, hrest⟩ := List.cons.inj spelled
        obtain ⟨real, real'⟩ := tail.isLink
        have hc := get?_append_child hg child
        have hc' := get?_append_child hg' child'
        rw [descend_enter rest hg child real, descend_enter rest hg' child' real',
          ih tail hc hc' hrest]

lemma locateWithin_alike (links links' : Nat) (h : Alike names e e') (hg : root.get? here = some e)
    (hg' : root'.get? here = some e')
    (spelled : path.filter (· ≠ [Path.dot]) = names.map Name.bytes) :
    locateWithin root' followLast links' path here =
      locateWithin root followLast links path here := by
  cases links <;> cases links' <;> exact descend_alike h hg hg' spelled

lemma filter_bytes (names : List Name) :
    (names.map Name.bytes).filter (· ≠ [Path.dot]) = names.map Name.bytes := by
  rw [List.filter_eq_self]
  intro part hpart
  obtain ⟨n, -, rfl⟩ := List.mem_map.mp hpart
  simpa using n.bytes_ne_dot

end FileSystem
end LogSweep
