import LogSweep.Proofs.Descent
import LogSweep.Proofs.NameOrder
import LogSweep.Proofs.SweepStep

/-! Where a walk fails. The walk comes to a directory by the names on the way from its root, if none
of them is excluded, and it fails at the first directory to which it comes that cannot be listed,
where a directory comes before all that lies in it. Nothing has been touched or reported by then. -/
namespace LogSweep

namespace Entry

/-- All directories through which names lead can be searched. -/
def searches : List Name → Entry → Bool
  | [], _ => true
  | n :: names, .dir access entries => access.search && (child? n entries).any (searches names)
  | _ :: _, _ => false

/-- The entry is a directory that permits to be read. -/
def isReadable : Entry → Bool
  | .dir access _ => access.read
  | _ => false

/-- Why the directory to which names lead from an entry with a path cannot be listed, if it cannot:
its path is too long, or it cannot be reached or read. The entry may itself be out of reach. -/
def obstacle? (reachable : Bool) (e : Entry) (p : Path) (names : List Name) : Option IoError :=
  if FileSystem.pathLimit ≤ (p.below names).length then some .nameTooLong
  else if reachable && e.searches names && (e.get? names).any isReadable then none
  else some .denied

/-- Names lead from an entry to a directory, through none that has to be skipped. -/
structure Opens (skip : Name → Bool) (e : Entry) (names : List Name) : Prop where
  dir : ∃ access entries, e.get? names = some (.dir access entries)
  kept : ∀ n ∈ names, skip n = false

variable {skip : Name → Bool} {reachable : Bool} {access : Access} {entries : List (Name × Entry)}
  {e : Entry} {p : Path} {n : Name} {names : List Name}

lemma obstacle?_nil : (dir access entries).obstacle? reachable p [] =
    if FileSystem.pathLimit ≤ p.length then some .nameTooLong
    else if reachable && access.read then none else some .denied := by
  rw [obstacle?, searches, Bool.and_true]
  rfl

lemma obstacle?_cons (child : child? n entries = some e) :
    (dir access entries).obstacle? reachable p (n :: names) =
      e.obstacle? (reachable && access.search) (p.join n.bytes) names := by
  rw [obstacle?, obstacle?, searches, get?_cons_dir, child, Option.any_some, Option.bind_some,
    Path.below_cons]
  simp only [Bool.and_assoc]

lemma opens_nil : (dir access entries).Opens skip [] := ⟨⟨access, entries, rfl⟩, nofun⟩

lemma opens_cons : (dir access entries).Opens skip (n :: names) ↔
    ∃ e, child? n entries = some e ∧ skip n = false ∧ e.Opens skip names := by
  constructor
  · rintro ⟨⟨access', entries', hdir⟩, hkept⟩
    rw [get?_cons_dir] at hdir
    obtain ⟨e, child, hdir⟩ := Option.bind_eq_some_iff.mp hdir
    obtain ⟨hn, hnames⟩ := List.forall_mem_cons.mp hkept
    exact ⟨e, child, hn, ⟨_, _, hdir⟩, hnames⟩
  · rintro ⟨e, child, hn, ⟨access', entries', hdir⟩, hnames⟩
    refine ⟨⟨access', entries', ?_⟩, List.forall_mem_cons.mpr ⟨hn, hnames⟩⟩
    rw [get?_cons_dir, child, Option.bind_some, hdir]

/-- No names lead from a file or a link to a directory. -/
lemma isDir_of_opens (h : e.Opens skip names) : e.isDir = true := by
  obtain ⟨access, entries, hdir⟩ := h.dir
  cases e with
  | dir access entries => rfl
  | file access content => cases names <;> cases hdir
  | link target => cases names <;> cases hdir

/-- The names lead to a directory that cannot be listed, and no smaller ones do. -/
structure FirstStuck (skip : Name → Bool) (reachable : Bool) (e : Entry) (p : Path)
    (names : List Name) (cause : IoError) : Prop where
  opens : e.Opens skip names
  stuck : e.obstacle? reachable p names = some cause
  first : ∀ names' cause', e.Opens skip names' → e.obstacle? reachable p names' = some cause' →
    names ≤ names'

end Entry

namespace Walk
open Entry

variable {skip : Name → Bool} {reachable : Bool} {access : Access} {entries : List (Name × Entry)}
  {e : Entry} {p : Path} {n : Name} {names : List Name}

/-- The first failure of a walk. -/
def firstFailure? (vs : List Visit) : Option (Path × IoError) := vs.findSome? Visit.failure?

lemma firstFailure?_flatMap {α : Type} (xs : List α) (f : α → List Visit) :
    firstFailure? (xs.flatMap f) = xs.findSome? fun x => firstFailure? (f x) := by
  induction xs with
  | nil => rfl
  | cons x xs ih =>
    rw [firstFailure?] at ih ⊢
    rw [List.flatMap_cons, List.findSome?_append, List.findSome?_cons, ih]
    change (firstFailure? (f x)).or _ = _
    cases firstFailure? (f x) <;> rfl

/-- Of things in the order of names, those with a smaller name stand in front. -/
lemma mem_front_of_lt {α : Type} {front back : List (Name × α)} {m : Name} {x y : α}
    (h : Ordered (front ++ (n, x) :: back)) (hmem : (m, y) ∈ front ++ (n, x) :: back)
    (hlt : m < n) : (m, y) ∈ front := by
  rcases List.mem_append.mp hmem with hfront | hback
  · exact hfront
  · obtain ⟨-, hordered, -⟩ := List.pairwise_append.mp h
    rcases List.mem_cons.mp hback with heq | hback
    · cases heq
      exact absurd hlt n.lt_irrefl
    · exact absurd (Name.lt_trans hlt ((List.pairwise_cons.mp hordered).1 _ hback)) m.lt_irrefl

lemma mem_visitsBelow_of_kept (child : child? n entries = some e) (kept : skip n = false) :
    (n, visits skip reachable e (p.join n.bytes)) ∈ visitsBelow skip reachable entries p := by
  refine mem_visitsBelow_iff.mpr ⟨e, child, ?_⟩
  rw [kept, Bool.and_false, if_neg Bool.false_ne_true]

/-- A directory that cannot be listed fails at its own path. -/
lemma firstFailure?_of_stuck {cause : IoError}
    (stuck : (dir access entries).obstacle? reachable p [] = some cause) :
    firstFailure? (visits skip reachable (.dir access entries) p) = some (p, cause) := by
  rw [obstacle?_nil] at stuck
  rw [visits]
  split at stuck
  · next hlong =>
    cases stuck
    rw [if_pos hlong]
    rfl
  next hlong =>
  rw [if_neg hlong]
  split at stuck
  · cases stuck
  · next hreach =>
    cases stuck
    rw [if_neg hreach]
    rfl

/-- A directory that can be listed fails where the first of its entries does. -/
lemma firstFailure?_of_listed (skip : Name → Bool)
    (listed : (dir access entries).obstacle? reachable p [] = none) :
    (reachable && access.search) = access.search ∧
    firstFailure? (visits skip reachable (.dir access entries) p) =
      (visitsBelow skip access.search entries p).findSome? fun x => firstFailure? x.2 := by
  rw [obstacle?_nil] at listed
  rw [visits]
  split at listed
  · cases listed
  next hlong =>
  split at listed
  · next hreach =>
    rw [if_neg hlong, if_pos hreach, firstFailure?_flatMap, (Bool.and_eq_true_iff.mp hreach).1]
    exact ⟨Bool.true_and _, rfl⟩
  · cases listed

/-- Where a walk does not fail, it comes to no directory that cannot be listed. -/
theorem obstacle?_eq_none (h : firstFailure? (visits skip reachable e p) = none)
    (opens : e.Opens skip names) : e.obstacle? reachable p names = none := by
  induction e using Entry.induct generalizing p reachable names with
  | file access content => cases isDir_of_opens opens
  | link target => cases isDir_of_opens opens
  | dir access entries ih =>
    cases listed : (dir access entries).obstacle? reachable p [] with
    | some cause =>
      rw [firstFailure?_of_stuck listed] at h
      cases h
    | none =>
      cases names with
      | nil => exact listed
      | cons n names =>
        obtain ⟨e, child, hn, hnames⟩ := opens_cons.mp opens
        obtain ⟨hreach, hbelow⟩ := firstFailure?_of_listed skip listed
        rw [hbelow, List.findSome?_eq_none_iff] at h
        rw [obstacle?_cons child, hreach]
        exact ih n e child (h (n, _) (mem_visitsBelow_of_kept child hn)) hnames

/-- A walk fails at the first directory to which it comes that cannot be listed. -/
theorem exists_firstStuck {q : Path} {cause : IoError}
    (h : firstFailure? (visits skip reachable e p) = some (q, cause)) :
    ∃ names, q = p.below names ∧ e.FirstStuck skip reachable p names cause := by
  induction e using Entry.induct generalizing p reachable with
  | file access content => cases h
  | link target => cases h
  | dir access entries ih =>
    cases listed : (dir access entries).obstacle? reachable p [] with
    | some cause' =>
      rw [firstFailure?_of_stuck listed] at h
      cases h
      exact ⟨[], rfl, opens_nil, listed, fun names' _ _ _ => List.nil_le names'⟩
    | none =>
      obtain ⟨hreach, hbelow⟩ := firstFailure?_of_listed skip listed
      rw [hbelow] at h
      obtain ⟨front, ⟨n, vs⟩, back, hsplit, hfails, hfront⟩ := List.findSome?_eq_some_iff.mp h
      have hmem : (n, vs) ∈ visitsBelow skip access.search entries p := by
        rw [hsplit]
        exact List.mem_append_right front List.mem_cons_self
      obtain ⟨e, child, hvs⟩ := mem_visitsBelow_iff.mp hmem
      dsimp only at hfails
      rw [hvs] at hfails
      split at hfails
      · cases hfails
      next hkept =>
      obtain ⟨names, rfl, hfirst⟩ := ih n e child hfails
      have hn : skip n = false := by
        simpa [isDir_of_opens hfirst.opens] using hkept
      refine ⟨n :: names, rfl, opens_cons.mpr ⟨e, child, hn, hfirst.opens⟩, ?_, ?_⟩
      · rw [obstacle?_cons child, hreach]
        exact hfirst.stuck
      · intro names' cause' opens' stuck'
        cases names' with
        | nil =>
          rw [listed] at stuck'
          cases stuck'
        | cons m names' =>
          obtain ⟨e', child', hm, hnames'⟩ := opens_cons.mp opens'
          rw [obstacle?_cons child', hreach] at stuck'
          rw [List.cons_le_cons_iff]
          rcases n.lt_or_eq_or_lt m with hlt | rfl | hlt
          · exact .inl hlt
          · obtain rfl := Option.some.inj (child.symm.trans child')
            exact .inr ⟨rfl, hfirst.first names' cause' hnames' stuck'⟩
          · -- what comes before the failure did not fail
            have hordered := ordered_visitsBelow skip access.search entries p
            have hmem' : (m, visits skip access.search e' (p.join m.bytes)) ∈ _ :=
              mem_visitsBelow_of_kept child' hm
            rw [hsplit] at hordered hmem'
            have hnone := hfront _ (mem_front_of_lt hordered hmem' hlt)
            rw [obstacle?_eq_none hnone hnames'] at stuck'
            cases stuck'

end Walk

namespace FileSystem
open Entry

/-- The entries of the directory to which a path leads, if it can be listed. -/
def list (fs : FileSystem) (p : Path) : Except IoError (List (Name × Entry)) :=
  match fs.stat p with
  | .error e => .error e
  | .ok (.dir access entries) => if access.read then .ok entries else .error .denied
  | .ok _ => .error .notDirectory

variable {fs : FileSystem} {root : Entry} {here : Place} {access : Access}
  {entries : List (Name × Entry)} {e : Entry} {p : Path} {names : List Name}

lemma list_of_error {cause : IoError} (h : fs.stat p = .error cause) :
    fs.list p = .error cause := by
  rw [list, h]

lemma list_of_dir (h : fs.stat p = .ok (.dir access entries)) :
    fs.list p = if access.read then .ok entries else .error .denied := by
  rw [list, h]

/-- Names lead as far as the directories on their way can be searched. -/
lemma descend_names {follow : Path → List Part → Place → Except IoError Place}
    (hg : root.get? here = some e) (dir : e.get? names = some (.dir access entries)) :
    descend root follow true (names.map Name.bytes) here =
      if e.searches names then .ok (here ++ names) else .error .denied := by
  induction names generalizing here e with
  | nil => rw [List.append_nil]; rfl
  | cons n names ih =>
    cases e with
    | file access' content => cases dir
    | link target => cases dir
    | dir access' entries' =>
      rw [get?_cons_dir] at dir
      obtain ⟨c, child, dir⟩ := Option.bind_eq_some_iff.mp dir
      have real : c.isLink = false := by
        cases c with
        | link target => cases names <;> cases dir
        | file access content => rfl
        | dir access entries => rfl
      rw [List.map_cons, descend_enter _ hg child real, ih (get?_append_child hg child) dir,
        searches, child, Option.any_some, List.append_assoc, List.singleton_append]
      cases access'.search <;> rfl

lemma locateWithin_names (links : Nat) (hg : root.get? here = some e)
    (dir : e.get? names = some (.dir access entries)) :
    locateWithin root true links (names.map Name.bytes) here =
      if e.searches names then .ok (here ++ names) else .error .denied := by
  cases links <;> exact descend_names hg dir

/-- A directory below the one to which a path leads is listed unless there is an obstacle. -/
theorem list_below (resolves : fs.stat p = .ok e) (dir : e.get? names = some (.dir access entries))
    (zero : ∀ n ∈ names, 0 ∉ n.bytes) :
    fs.list (p.below names) =
      match e.obstacle? true p names with
      | some cause => .error cause
      | none => .ok entries := by
  obtain ⟨place, hl, hg⟩ := entry_of_locate resolves
  obtain ⟨hzero, hp, hshort, -⟩ := locate_eq_ok.mp hl
  rw [obstacle?, Bool.true_and, dir, Option.any_some, isReadable]
  cases names with
  | nil =>
    obtain rfl := Option.some.inj dir
    rw [Path.below_nil, if_neg (Nat.not_le.mpr hshort), list_of_dir resolves, searches,
      Bool.true_and]
    cases access.read <;> rfl
  | cons n names =>
    have parent : ∃ access entries, fs.root.get? place = some (.dir access entries) := by
      cases e with
      | dir access' entries' => exact ⟨_, _, hg⟩
      | file access' content => cases dir
      | link target => cases dir
    obtain ⟨links, hlocate⟩ := locate_below hl parent (List.cons_ne_nil n names)
    have hz : ¬ (p.below (n :: names)).contains 0 = true := by
      rw [List.contains_iff_mem, Path.mem_below (by decide)]
      rintro (hz | ⟨m, hm, hz⟩)
      · exact hzero hz
      · exact zero m hm hz
    rw [if_neg hz] at hlocate
    by_cases hlong : pathLimit ≤ (p.below (n :: names)).length
    · have hstat : fs.stat (p.below (n :: names)) = .error .nameTooLong := by
        rw [stat, hlocate, if_pos hlong]
        rfl
      rw [if_pos hlong, list_of_error hstat]
    · rw [if_neg hlong, locateWithin_names links hg dir] at hlocate
      rw [if_neg hlong]
      cases hsearch : e.searches (n :: names) with
      | false =>
        have hstat : fs.stat (p.below (n :: names)) = .error .denied := by
          rw [stat, hlocate, hsearch]
          rfl
        rw [list_of_error hstat]
        rfl
      | true =>
        have hstat : fs.stat (p.below (n :: names)) = .ok (.dir access entries) := by
          rw [stat, hlocate, hsearch, if_pos rfl]
          refine entryAt_eq_ok.mpr ?_
          rw [get?_append, hg, Option.bind_some, dir]
        rw [list_of_dir hstat, Bool.true_and]
        cases access.read <;> rfl

end FileSystem

namespace Selection
open FileSystem Entry Walk

/-- The walk of a selection starts from a directory: the root leads to it, and it has no excluded
name, unless the root is a link to it. -/
structure Enters (s : Selection) (fs : FileSystem) (start : Entry) : Prop where
  found : fs.stat s.root = .ok start
  entered : s.excludes s.root.lastName = false ∨ ∃ target, fs.lstat s.root = .ok (.link target)

/-- The names are on the way from the start of the walk to a directory, and none is excluded. -/
structure Reaches (s : Selection) (fs : FileSystem) (start : Entry) (names : List Name) : Prop where
  enters : s.Enters fs start
  opens : start.Opens (fun n => s.excludes n.bytes) names

/-- A walk cannot start from a root that is missing or cannot be resolved, and it cannot go on at the
first directory it reaches that cannot be listed. A directory comes before all that lies in it, and
what lies beside each other comes in the order of names. -/
inductive Fails (s : Selection) (fs : FileSystem) : Path → IoError → Prop
  | unresolved {cause : IoError} (root : fs.stat s.root = .error cause) : Fails s fs s.root cause
  | unlisted {start : Entry} {names : List Name} {cause : IoError}
      (reached : s.Reaches fs start names)
      (unlisted : start.obstacle? true s.root names = some cause)
      (first : ∀ names' cause', s.Reaches fs start names' →
        start.obstacle? true s.root names' = some cause' → names ≤ names') :
      Fails s fs (s.root.below names) cause

variable {s : Selection} {fs : FileSystem} {start : Entry} {names : List Name} {p : Path}
  {cause : IoError}

lemma collect_eq_error :
    s.collect fs = .error (p, cause) ↔ firstFailure? (s.visits fs) = some (p, cause) := by
  unfold collect firstFailure?
  dsimp only
  cases (s.visits fs).findSome? Visit.failure? with
  | none => simp
  | some failure => simp

/-- A root that cannot be resolved is the first failure. -/
lemma firstFailure?_of_unresolved (h : fs.stat s.root = .error cause) :
    firstFailure? (s.visits fs) = some (s.root, cause) := by
  unfold visits visitsFrom
  rcases fs.lstat_cases s.root with ⟨target, hl⟩ | hl
  · rw [hl, h]
    rfl
  · rw [hl, h]
    rfl

/-- A walk that enters a directory fails where it fails there. -/
lemma firstFailure?_of_enters {access : Access} {entries : List (Name × Entry)}
    (h : s.Enters fs (.dir access entries)) :
    firstFailure? (s.visits fs) = firstFailure?
      (Walk.visits (fun n => s.excludes n.bytes) true (.dir access entries) s.root) := by
  obtain ⟨found, entered⟩ := h
  unfold visits visitsFrom
  rcases lstat_of_stat found with hl | ⟨target, hl⟩
  · rcases entered with hkept | ⟨target, hlink⟩
    · rw [hl]
      simp only [hkept, Bool.false_eq_true, if_false]
    · cases hl.symm.trans hlink
  · rw [hl, found]

/-- A walk that enters no directory does not fail. -/
lemma firstFailure?_of_not_enters (found : fs.stat s.root = .ok start)
    (h : start.isDir = true → ¬ s.Enters fs start) : firstFailure? (s.visits fs) = none := by
  unfold visits visitsFrom
  rcases lstat_of_stat found with hl | ⟨target, hl⟩
  · rw [hl]
    cases start with
    | file access content => rfl
    | link target =>
      rw [found]
      rfl
    | dir access entries =>
      dsimp only
      split
      · rfl
      · next hkept => exact absurd ⟨found, .inl (by simpa using hkept)⟩ (h rfl)
  · rw [hl, found]
    cases start with
    | file access content => rfl
    | link target => rfl
    | dir access entries => exact absurd ⟨found, .inr ⟨target, hl⟩⟩ (h rfl)

lemma Enters.reaches_iff (h : s.Enters fs start) :
    s.Reaches fs start names ↔ start.Opens (fun n => s.excludes n.bytes) names :=
  ⟨Reaches.opens, fun opens => ⟨h, opens⟩⟩

lemma Reaches.eq_dir (h : s.Reaches fs start names) :
    ∃ access entries, start = .dir access entries := by
  have hdir := isDir_of_opens h.opens
  cases start with
  | dir access entries => exact ⟨_, _, rfl⟩
  | file access content => cases hdir
  | link target => cases hdir

/-- A walk that does not fail reaches no directory that cannot be listed. -/
lemma obstacle?_of_reached (h : firstFailure? (s.visits fs) = none)
    (reached : s.Reaches fs start names) : start.obstacle? true s.root names = none := by
  obtain ⟨access, entries, rfl⟩ := reached.eq_dir
  rw [firstFailure?_of_enters reached.enters] at h
  exact obstacle?_eq_none h reached.opens

/-- A walk fails in one of the two ways. -/
lemma fails_of_firstFailure? (h : firstFailure? (s.visits fs) = some (p, cause)) :
    s.Fails fs p cause := by
  cases found : fs.stat s.root with
  | error cause' =>
    rw [firstFailure?_of_unresolved found] at h
    cases h
    exact .unresolved found
  | ok start =>
    by_cases henters : start.isDir = true ∧ s.Enters fs start
    · obtain ⟨hdir, enters⟩ := henters
      cases start with
      | file access content => cases hdir
      | link target => cases hdir
      | dir access entries =>
        rw [firstFailure?_of_enters enters] at h
        obtain ⟨names, rfl, hfirst⟩ := exists_firstStuck h
        exact .unlisted (enters.reaches_iff.mpr hfirst.opens) hfirst.stuck
          fun names' cause' reached' => hfirst.first names' cause' reached'.opens
    · rw [firstFailure?_of_not_enters found fun hdir enters => henters ⟨hdir, enters⟩] at h
      cases h

/-- A walk fails at one path only. -/
lemma Fails.unique {p' : Path} {cause' : IoError} (h : s.Fails fs p cause)
    (h' : s.Fails fs p' cause') : p = p' ∧ cause = cause' := by
  cases h with
  | unresolved root =>
    cases h' with
    | unresolved root' =>
      rw [root] at root'
      cases root'
      exact ⟨rfl, rfl⟩
    | unlisted reached' => cases root.symm.trans reached'.enters.found
  | @unlisted start names cause reached unlisted first =>
    cases h' with
    | unresolved root' => cases root'.symm.trans reached.enters.found
    | @unlisted start' names' cause' reached' unlisted' first' =>
      obtain rfl : start = start' :=
        Except.ok.inj (reached.enters.found.symm.trans reached'.enters.found)
      obtain rfl : names = names' := List.le_antisymm (first _ _ reached' unlisted')
        (first' _ _ reached unlisted)
      rw [unlisted] at unlisted'
      cases unlisted'
      exact ⟨rfl, rfl⟩

/-- A walk fails exactly where one of the two ways says. -/
lemma firstFailure?_iff : firstFailure? (s.visits fs) = some (p, cause) ↔ s.Fails fs p cause := by
  refine ⟨fails_of_firstFailure?, fun h => ?_⟩
  cases hfirst : firstFailure? (s.visits fs) with
  | some failure =>
    obtain ⟨rfl, rfl⟩ := (fails_of_firstFailure? (p := failure.1) hfirst).unique h
    rfl
  | none =>
    cases h with
    | unresolved root =>
      rw [firstFailure?_of_unresolved root] at hfirst
      cases hfirst
    | unlisted reached unlisted first =>
      rw [obstacle?_of_reached hfirst reached] at unlisted
      cases unlisted

/-- A walk that fails ends a sweep before it touches a file. -/
lemma tree_of_failure (h : s.collect fs = .error (p, cause)) (dryRun : Bool)
    (report : Reporter) :
    Sweep.tree s dryRun report fs = ⟨fs, [], .error (.walk p cause)⟩ := by
  rw [Sweep.tree, h]

lemma run_of_failure (h : s.collect fs = .error (p, cause)) (out : Output) (dryRun : Bool) :
    Run.sweep out s dryRun fs =
      ⟨fs, [.tell (.sweepStarting s dryRun)], .error (.walk p cause)⟩ := by
  rw [Run.sweep, tree_of_failure h]

/-- Collecting fails if and only if the root cannot be resolved or some directory that is reached
cannot be listed, and then with the first of these. That a directory cannot be listed is what the
file system itself answers for its path, if the names on it could be those of files. Where
collecting fails, no file has been changed, no path reported and nothing written to the output. -/
theorem collect_eq_error_iff_fails (s : Selection) (fs : FileSystem) :
    (∀ p cause, s.collect fs = .error (p, cause) ↔ s.Fails fs p cause) ∧
    ((∃ failure, s.collect fs = .error failure) ↔
      (∃ cause, fs.stat s.root = .error cause) ∨
      ∃ start names cause, s.Reaches fs start names ∧
        start.obstacle? true s.root names = some cause) ∧
    (∀ start names, s.Reaches fs start names → (∀ n ∈ names, 0 ∉ n.bytes) → ∀ cause,
      fs.list (s.root.below names) = .error cause ↔
        start.obstacle? true s.root names = some cause) ∧
    ∀ p cause, s.collect fs = .error (p, cause) →
      (∀ dryRun report, let w := Sweep.tree s dryRun report fs
        w.files = fs ∧ w.reported = [] ∧ w.outcome = .error (.walk p cause)) ∧
      ∀ out env r setup, (Layers.setupIn fs env (Path.ofText ['.']) r).2 = .ok setup →
        ofSettings setup.settings = s →
        let run := Run.request out env r fs
        run.files = fs ∧ run.report = [] ∧ run.outcome = .error (.walk p cause) := by
  refine ⟨fun p cause => collect_eq_error.trans firstFailure?_iff, ⟨?_, ?_⟩, ?_, ?_⟩
  · rintro ⟨⟨p, cause⟩, h⟩
    cases firstFailure?_iff.mp (collect_eq_error.mp h) with
    | unresolved root => exact .inl ⟨_, root⟩
    | unlisted reached unlisted first => exact .inr ⟨_, _, _, reached, unlisted⟩
  · intro h
    cases hfirst : firstFailure? (s.visits fs) with
    | some failure => exact ⟨failure, collect_eq_error.mpr hfirst⟩
    | none =>
      rcases h with ⟨cause, root⟩ | ⟨start, names, cause, reached, unlisted⟩
      · rw [firstFailure?_of_unresolved root] at hfirst
        cases hfirst
      · rw [obstacle?_of_reached hfirst reached] at unlisted
        cases unlisted
  · intro start names reached zero cause
    obtain ⟨access, entries, dir⟩ := reached.opens.dir
    rw [list_below reached.enters.found dir zero]
    cases start.obstacle? true s.root names <;> simp
  · intro p cause h
    refine ⟨fun dryRun report => ?_, fun out env r setup configured hs => ?_⟩
    · rw [tree_of_failure h]
      exact ⟨rfl, rfl, rfl⟩
    · subst hs
      rw [Run.request_configured configured, run_of_failure h]
      exact ⟨rfl, Run.report_tells _ ⟨fs, _, _⟩, rfl⟩

/-- The first failure counts, behind a file that would have been cleaned and an excluded directory
that cannot be listed either. -/
theorem collect_eq_error_iff_fails_two_closed :
    let closed : Entry := .dir { read := false } []
    let fs : FileSystem := ⟨.dir {} [(⟨[0x7A], by decide⟩, closed), (⟨[0x79], by decide⟩, closed),
      (⟨Utf8.encode "node_modules".toList, by decide⟩, closed),
      (⟨Utf8.encode "a.ts".toList, by decide⟩,
        .file {} (Utf8.encode "logger.info();".toList))], []⟩
    let r : Request := { root := some ['.'] }
    let settings : Settings := { root := ['.'] }
    let p : Path := [0x2E, 0x2F, 0x79]
    let run := Run.request {} {} r fs
    (Layers.setupIn fs {} (Path.ofText ['.']) r).2 = .ok ⟨settings, false⟩ ∧
    (ofSettings settings).Fails fs p .denied ∧
    run.files = fs ∧ run.report = [] ∧ run.outcome = .error (.walk p .denied) := by
  intro closed fs r settings p run
  have configured : (Layers.setupIn fs {} (Path.ofText ['.']) r).2 = .ok ⟨settings, false⟩ := rfl
  have failed : (ofSettings settings).collect fs = .error (p, .denied) := by decide +kernel
  obtain ⟨failsAt, -, -, atomic⟩ := collect_eq_error_iff_fails (ofSettings settings) fs
  refine ⟨configured, (failsAt p .denied).mp failed, ?_⟩
  exact (atomic p .denied failed).2 {} {} r ⟨settings, false⟩ configured rfl

end Selection
end LogSweep
