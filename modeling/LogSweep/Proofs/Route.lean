import LogSweep.Proofs.Contents

/-! Where the steps of a path lead, links followed however many there are. Steps lead to one place
at most, steps behind other steps start where these end, and the place that is found for a path is
the one that its steps lead to. -/
namespace LogSweep

namespace Entry

/-- The entry is a link. -/
def isLink : Entry → Bool
  | .link _ => true
  | _ => false

end Entry

namespace FileSystem
open Entry

/-- Steps lead from a place to a place. -/
inductive Leads (root : Entry) : List Part → Place → Place → Prop
  | stop (here : Place) : Leads root [] here here
  | stay {rest : List Part} {here there : Place} (tail : Leads root rest here there) :
      Leads root ([Path.dot] :: rest) here there
  | up {rest : List Part} {here there : Place} (tail : Leads root rest here.dropLast there) :
      Leads root ([Path.dot, Path.dot] :: rest) here there
  | follow {part : Part} {rest : List Part} {here there : Place} {access : Access}
      {entries : List (Name × Entry)} {n : Name} {target : Path}
      (dir : root.get? here = some (.dir access entries))
      (found : named? part entries = some (n, .link target))
      (tail : Leads root (steps target ++ rest) (if target.isAbsolute then [] else here) there) :
      Leads root (part :: rest) here there
  | enter {part : Part} {rest : List Part} {here there : Place} {access : Access}
      {entries : List (Name × Entry)} {n : Name} {e : Entry}
      (dir : root.get? here = some (.dir access entries))
      (found : named? part entries = some (n, e)) (real : e.isLink = false)
      (tail : Leads root rest (here ++ [n]) there) :
      Leads root (part :: rest) here there

lemma named?_dot (entries : List (Name × Entry)) : named? [Path.dot] entries = none :=
  List.find?_eq_none.mpr fun x _ hx => x.1.bytes_ne_dot (eq_of_beq hx)

lemma named?_dot_dot (entries : List (Name × Entry)) :
    named? [Path.dot, Path.dot] entries = none :=
  List.find?_eq_none.mpr fun x _ hx => x.1.bytes_ne_dot_dot (eq_of_beq hx)

/-- A step finds one entry at most. -/
lemma entry_unique {root : Entry} {part : Part} {here : Place} {access access' : Access}
    {entries entries' : List (Name × Entry)} {n n' : Name} {e e' : Entry}
    (dir : root.get? here = some (.dir access entries)) (found : named? part entries = some (n, e))
    (dir' : root.get? here = some (.dir access' entries'))
    (found' : named? part entries' = some (n', e')) : n = n' ∧ e = e' := by
  rw [dir] at dir'
  cases dir'
  rw [found] at found'
  cases found'
  exact ⟨rfl, rfl⟩

namespace Leads

variable {root : Entry} {xs ys : List Part} {here there there' : Place}

/-- Steps lead to one place at most. -/
theorem unique (h : Leads root xs here there) (h' : Leads root xs here there') :
    there = there' := by
  induction h with
  | stop here =>
    cases h'
    rfl
  | stay tail ih =>
    cases h' with
    | stay tail' => exact ih tail'
    | follow dir found tail' => simp [named?_dot] at found
    | enter dir found real tail' => simp [named?_dot] at found
  | up tail ih =>
    cases h' with
    | up tail' => exact ih tail'
    | follow dir found tail' => simp [named?_dot_dot] at found
    | enter dir found real tail' => simp [named?_dot_dot] at found
  | follow dir found tail ih =>
    cases h' with
    | stay tail' => simp [named?_dot] at found
    | up tail' => simp [named?_dot_dot] at found
    | follow dir' found' tail' =>
      obtain ⟨rfl, he⟩ := entry_unique dir found dir' found'
      cases he
      exact ih tail'
    | enter dir' found' real tail' =>
      obtain ⟨rfl, he⟩ := entry_unique dir found dir' found'
      cases he
      cases real
  | enter dir found real tail ih =>
    cases h' with
    | stay tail' => simp [named?_dot] at found
    | up tail' => simp [named?_dot_dot] at found
    | follow dir' found' tail' =>
      obtain ⟨rfl, he⟩ := entry_unique dir found dir' found'
      cases he
      cases real
    | enter dir' found' real' tail' =>
      obtain ⟨rfl, he⟩ := entry_unique dir found dir' found'
      cases he
      exact ih tail'

/-- Steps behind other steps start where these end. -/
theorem split (h : Leads root (xs ++ ys) here there) :
    ∃ between, Leads root xs here between ∧ Leads root ys between there := by
  generalize hz : xs ++ ys = zs at h
  induction h generalizing xs with
  | stop here =>
    obtain ⟨rfl, rfl⟩ := List.append_eq_nil_iff.mp hz
    exact ⟨here, .stop here, .stop here⟩
  | stay tail ih =>
    rcases List.append_eq_cons_iff.mp hz with ⟨rfl, rfl⟩ | ⟨xs, rfl, rfl⟩
    · exact ⟨_, .stop _, .stay tail⟩
    · obtain ⟨between, hx, hy⟩ := ih rfl
      exact ⟨between, .stay hx, hy⟩
  | up tail ih =>
    rcases List.append_eq_cons_iff.mp hz with ⟨rfl, rfl⟩ | ⟨xs, rfl, rfl⟩
    · exact ⟨_, .stop _, .up tail⟩
    · obtain ⟨between, hx, hy⟩ := ih rfl
      exact ⟨between, .up hx, hy⟩
  | follow dir found tail ih =>
    rcases List.append_eq_cons_iff.mp hz with ⟨rfl, rfl⟩ | ⟨xs, rfl, rfl⟩
    · exact ⟨_, .stop _, .follow dir found tail⟩
    · obtain ⟨between, hx, hy⟩ := ih (List.append_assoc ..)
      exact ⟨between, .follow dir found hx, hy⟩
  | enter dir found real tail ih =>
    rcases List.append_eq_cons_iff.mp hz with ⟨rfl, rfl⟩ | ⟨xs, rfl, rfl⟩
    · exact ⟨_, .stop _, .enter dir found real tail⟩
    · obtain ⟨between, hx, hy⟩ := ih rfl
      exact ⟨between, .enter dir found real hx, hy⟩

/-- The first of some steps finds an entry of a directory, unless it is `.` or `..`. -/
lemma head_found {part : Part} (h : Leads root (part :: xs) here there) (hd : part ≠ [Path.dot])
    (hdd : part ≠ [Path.dot, Path.dot]) :
    ∃ access entries n e, root.get? here = some (.dir access entries) ∧
      named? part entries = some (n, e) ∧
      (e.isLink = false → Leads root xs (here ++ [n]) there) := by
  cases h with
  | stay tail => exact absurd rfl hd
  | up tail => exact absurd rfl hdd
  | follow dir found tail => exact ⟨_, _, _, _, dir, found, fun real => by cases real⟩
  | enter dir found real tail => exact ⟨_, _, _, _, dir, found, fun _ => tail⟩

/-- Names lead to the place below that they spell, if the entry there is no link. -/
theorem eq_append {names : List Name} {e : Entry} (h : Leads root (names.map Name.bytes) here there)
    (hg : root.get? (here ++ names) = some e) (real : e.isLink = false) :
    there = here ++ names := by
  induction names generalizing here with
  | nil =>
    cases h
    simp
  | cons n names ih =>
    obtain ⟨access, entries, m, x, dir, found, tail⟩ :=
      head_found h n.bytes_ne_dot n.bytes_ne_dot_dot
    have hx := child?_of_named? found
    obtain rfl : n = m := Name.ext_bytes (bytes_of_named? found).symm
    rw [get?_append, dir, Option.bind_some, get?_cons_dir, hx, Option.bind_some] at hg
    -- nothing lies below a link, and the entry at the end is none
    have hlink : x.isLink = false := by
      cases x with
      | link target => cases names <;> simp_all [get?]
      | file access content => rfl
      | dir access entries => rfl
    have hnext : root.get? (here ++ [n] ++ names) = some e := by
      rw [List.append_assoc, List.singleton_append, get?_append, dir, Option.bind_some,
        get?_cons_dir, hx, Option.bind_some, hg]
    rw [ih (tail hlink) hnext, List.append_assoc, List.singleton_append]

end Leads

/-! Finding a place follows the steps. -/

variable {fs : FileSystem} {p : Path}

/-- A link that ends the steps is followed, or it is not what they lead to. -/
def EndsReal (root : Entry) (followLast : Bool) (there : Place) : Prop :=
  followLast = true ∨ ∀ target, root.get? there ≠ some (.link target)

lemma descend_leads {root : Entry} {follow : Path → List Part → Place → Except IoError Place}
    {followLast : Bool} {path : List Part} {here there : Place}
    (real : EndsReal root followLast there)
    (hfollow : ∀ target rest here, follow target rest here = .ok there →
      Leads root (steps target ++ rest) (if target.isAbsolute then [] else here) there)
    (h : descend root follow followLast path here = .ok there) : Leads root path here there := by
  induction path generalizing here with
  | nil =>
    cases h
    exact .stop _
  | cons part rest ih =>
    rw [descend] at h
    split at h
    · next access entries dir =>
      split at h
      · cases h
      split at h
      · next hd =>
        subst hd
        exact .stay (ih h)
      split at h
      · next hdd =>
        subst hdd
        exact .up (ih h)
      split at h
      · cases h
      · next n target found =>
        split at h
        · next hlast =>
          cases h
          have hg := get?_append_child dir (child?_of_named? found)
          rcases real with rfl | real
          · simp at hlast
          · exact absurd hg (real target)
        · exact .follow dir found (hfollow target rest here h)
      · next n e hreal found =>
        refine .enter dir found ?_ (ih h)
        cases e with
        | link target => exact absurd rfl (hreal target)
        | file access content => rfl
        | dir access entries => rfl
    · cases h

lemma locateWithin_leads {root : Entry} {followLast : Bool} {links : Nat} {path : List Part}
    {here there : Place} (real : EndsReal root followLast there)
    (h : locateWithin root followLast links path here = .ok there) :
    Leads root path here there := by
  induction links generalizing path here with
  | zero => exact descend_leads real (fun _ _ _ h => by cases h) h
  | succ links ih => exact descend_leads real (fun target rest here h => ih h) h

/-- Steps were found to end at a link. -/
def EndsAtLink (root : Entry) (found : Except IoError Place) : Prop :=
  ∃ place target, found = .ok place ∧ root.get? place = some (.link target)

/-- Whether a link at the end is followed makes a difference only where there is one. -/
lemma descend_last {root : Entry}
    {follow follow' : Path → List Part → Place → Except IoError Place}
    (hfollow : ∀ target rest here, EndsAtLink root (follow' target rest here) ∨
      follow' target rest here = follow target rest here) (path : List Part) (here : Place) :
    EndsAtLink root (descend root follow' false path here) ∨
      descend root follow' false path here = descend root follow true path here := by
  induction path generalizing here with
  | nil => exact .inr rfl
  | cons part rest ih =>
    rw [descend, descend]
    split
    · next access entries dir =>
      split
      · exact .inr rfl
      split
      · exact ih here
      split
      · exact ih here.dropLast
      split
      · exact .inr rfl
      · next n target found =>
        rw [if_neg (by simp : ¬ (rest.isEmpty && !true) = true)]
        split
        · exact .inl ⟨_, target, rfl, get?_append_child dir (child?_of_named? found)⟩
        · exact hfollow target rest here
      · exact ih _
    · exact .inr rfl

lemma locateWithin_last (root : Entry) (links : Nat) (path : List Part) (here : Place) :
    EndsAtLink root (locateWithin root false links path here) ∨
      locateWithin root false links path here = locateWithin root true links path here := by
  induction links generalizing path here with
  | zero => exact descend_last (fun _ _ _ => .inr rfl) path here
  | succ links ih => exact descend_last (fun target rest here => ih _ _) path here

/-- The place from which the steps of a path start. -/
def start (fs : FileSystem) (p : Path) : Place := if p.isAbsolute then [] else fs.cwd

/-- The steps of a path lead to a place, whether or not anything on the way is forbidden. -/
def LeadsTo (fs : FileSystem) (p : Path) (place : Place) : Prop :=
  Leads fs.root (steps p) (fs.start p) place

/-- The place that is found for a path is where its steps lead. -/
theorem locate_leads {followLast : Bool} {place : Place} (real : EndsReal fs.root followLast place)
    (h : fs.locate followLast p = .ok place) : fs.LeadsTo p place := by
  unfold locate at h
  split at h
  · cases h
  split at h
  · cases h
  split at h
  · cases h
  · exact locateWithin_leads real h

/-- A path names a link, or what it leads to. -/
theorem lstat_cases (fs : FileSystem) (p : Path) :
    (∃ target, fs.lstat p = .ok (.link target)) ∨ fs.lstat p = fs.stat p := by
  rw [lstat, stat, locate, locate]
  split
  · exact .inr rfl
  split
  · exact .inr rfl
  split
  · exact .inr rfl
  rcases locateWithin_last fs.root maxLinks (steps p) (if p.isAbsolute then [] else fs.cwd) with
    ⟨place, target, hplace, hlink⟩ | hsame
  · refine .inl ⟨target, ?_⟩
    rw [hplace]
    change fs.entryAt place = _
    rw [entryAt, hlink]
  · exact .inr (by rw [hsame])

/-- A path that leads to an entry names this entry or a link. -/
theorem lstat_of_stat {e : Entry} (h : fs.stat p = .ok e) :
    fs.lstat p = .ok e ∨ ∃ target, fs.lstat p = .ok (.link target) :=
  (fs.lstat_cases p).symm.imp_left fun hsame => hsame.trans h

/-- A path of a directory leads to it. -/
lemma stat_of_dir {access : Access} {entries : List (Name × Entry)}
    (h : fs.lstat p = .ok (.dir access entries)) : fs.stat p = .ok (.dir access entries) := by
  rcases fs.lstat_cases p with ⟨target, hlink⟩ | hsame
  · cases h.symm.trans hlink
  · exact hsame.symm.trans h

end FileSystem
end LogSweep
