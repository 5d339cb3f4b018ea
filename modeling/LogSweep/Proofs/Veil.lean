import LogSweep.Proofs.Candidates

/-! Trees without what lies in the directories that a walk does not enter. Such a directory stands
there empty, whatever it permits and contains. Names that lead to a file of the veiled tree lead to
the same file of the tree itself, and writing this file comes before or after the veil. -/
namespace LogSweep

namespace Entry

mutual

/-- The tree without what its directories of some names permit and contain. The top itself is no
such directory. -/
def veil (skip : Name → Bool) : Entry → Entry
  | .file access content => .file access content
  | .link target => .link target
  | .dir access entries => .dir access (veilOf skip entries)

def veilOf (skip : Name → Bool) : List (Name × Entry) → List (Name × Entry)
  | [] => []
  | (n, e) :: rest =>
    (n, if e.isDir && skip n then .dir {} [] else e.veil skip) :: veilOf skip rest

end

/-- An entry of a veiled directory. -/
def veilNamed (skip : Name → Bool) (n : Name) (e : Entry) : Entry :=
  if e.isDir && skip n then .dir {} [] else e.veil skip

variable {skip : Name → Bool} {e e' : Entry} {n : Name} {access : Access} {content : Bytes}
  {entries : List (Name × Entry)} {names place : List Name}

lemma veilOf_cons (skip : Name → Bool) (n : Name) (e : Entry) (rest : List (Name × Entry)) :
    veilOf skip ((n, e) :: rest) = (n, e.veilNamed skip n) :: veilOf skip rest := rfl

lemma veilNamed_hidden (h : (e.isDir && skip n) = true) : e.veilNamed skip n = .dir {} [] :=
  if_pos h

lemma veilNamed_open (h : (e.isDir && skip n) = false) : e.veilNamed skip n = e.veil skip :=
  if_neg (Bool.eq_false_iff.mp h)

@[simp] lemma isDir_veil (skip : Name → Bool) (e : Entry) : (e.veil skip).isDir = e.isDir := by
  cases e <;> rfl

@[simp] lemma isDir_veilNamed (skip : Name → Bool) (n : Name) (e : Entry) :
    (e.veilNamed skip n).isDir = e.isDir := by
  unfold veilNamed
  split
  · next h => exact (Bool.and_eq_true_iff.mp h).1.symm
  · exact isDir_veil skip e

lemma child?_veilOf (skip : Name → Bool) (n : Name) (entries : List (Name × Entry)) :
    child? n (veilOf skip entries) = (child? n entries).map (veilNamed skip n) := by
  induction entries with
  | nil => rfl
  | cons x rest ih =>
    obtain ⟨m, e⟩ := x
    rw [veilOf_cons, child?_cons, child?_cons, ih]
    split
    · next h => rw [h, Option.map_some]
    · rfl

lemma eq_of_veil_eq_file (h : e.veil skip = .file access content) : e = .file access content := by
  cases e with
  | file access' content' => exact h
  | link target => cases h
  | dir access' entries => cases h

lemma eq_of_veil_eq_dir (h : e.veil skip = .dir access entries) :
    ∃ entries', e = .dir access entries' ∧ veilOf skip entries' = entries := by
  cases e with
  | file access' content' => cases h
  | link target => cases h
  | dir access' entries' =>
    cases h
    exact ⟨entries', rfl, rfl⟩

/-- The first name on the way to a file of a veiled tree leads to an entry that is not hidden. -/
lemma child_of_veil (h : (e.veil skip).get? (n :: names) = some (.file access content)) :
    ∃ access' entries c, e = .dir access' entries ∧ child? n entries = some c ∧
      (c.isDir && skip n) = false ∧ (c.veil skip).get? names = some (.file access content) := by
  cases e with
  | file access' content' => cases h
  | link target => cases h
  | dir access' entries =>
    rw [veil, get?_cons_dir, child?_veilOf] at h
    obtain ⟨x, hx, hg⟩ := Option.bind_eq_some_iff.mp h
    obtain ⟨c, hc, rfl⟩ := Option.map_eq_some_iff.mp hx
    have hopen : (c.isDir && skip n) = false := by
      by_contra hhidden
      rw [veilNamed_hidden (Bool.eq_true_of_not_eq_false hhidden)] at hg
      cases names <;> cases hg
    rw [veilNamed_open hopen] at hg
    exact ⟨access', entries, c, rfl, hc, hopen, hg⟩

theorem get?_of_veil (h : (e.veil skip).get? names = some (.file access content)) :
    e.get? names = some (.file access content) := by
  induction names generalizing e with
  | nil =>
    rw [get?_nil] at h ⊢
    exact congrArg some (eq_of_veil_eq_file (Option.some.inj h))
  | cons n names ih =>
    obtain ⟨access', entries, c, rfl, hc, -, hg⟩ := child_of_veil h
    rw [get?_cons_of_child hc, ih hg]

/-! Writing a file. -/

lemma alterChild_congr {f g : Entry → Entry}
    (h : ∀ c, child? n entries = some c → f c = g c) :
    alterChild n (Option.map f) entries = alterChild n (Option.map g) entries := by
  induction entries with
  | nil => rfl
  | cons x rest ih =>
    obtain ⟨m, e⟩ := x
    rw [alterChild, alterChild]
    by_cases hm : m = n
    · have he := h e (by rw [child?_cons, if_pos hm])
      rw [if_pos hm, if_pos hm, Option.map_some, he]
      rfl
    · rw [if_neg hm, if_neg hm, ih fun c hc => h c (by rw [child?_cons, if_neg hm, hc])]

/-- A change below a place is made before or after a change at this place. -/
lemma alter_alter_append {f g : Entry → Entry} (place names : Place) (e : Entry)
    (h : ∀ x, e.get? place = some x →
      f (alter (Option.map g) names x) = alter (Option.map g) names (f x)) :
    alter (Option.map f) place (alter (Option.map g) (place ++ names) e) =
      alter (Option.map g) (place ++ names) (alter (Option.map f) place e) := by
  induction place generalizing e with
  | nil =>
    rw [alter_nil, alter_nil]
    exact h e (get?_nil e)
  | cons n place ih =>
    rcases e.eq_dir_or with ⟨access, entries, rfl⟩ | he
    · rw [List.cons_append, alter_cons_dir, alter_cons_dir, alter_cons_dir, alter_cons_dir,
        alterChild_alterChild, alterChild_alterChild]
      refine congrArg _ (alterChild_congr fun c hc => ih c fun x hx => h x ?_)
      rw [get?_cons_of_child hc, hx]
    · rw [List.cons_append, alter_cons_of_not_dir he, alter_cons_of_not_dir he,
        alter_cons_of_not_dir he]

lemma get?_alter_append (f : Entry → Entry) (place names : Place) (e : Entry) :
    (alter (Option.map f) place e).get? (place ++ names) =
      (e.get? place).bind fun x => (f x).get? names := by
  induction place generalizing e with
  | nil => rw [alter_nil, get?_nil, List.nil_append, Option.bind_some]
  | cons n place ih =>
    rcases e.eq_dir_or with ⟨access, entries, rfl⟩ | he
    · rw [List.cons_append, alter_cons_dir, get?_cons_dir, get?_cons_dir, child?_alterChild,
        if_pos rfl]
      cases child? n entries with
      | none => rfl
      | some c => exact ih c
    · rw [List.cons_append, alter_cons_of_not_dir he]
      cases e with
      | file access content => rfl
      | link target => rfl
      | dir access entries => cases he

/-- What lies at a place stays where a file is written that is neither there nor below. -/
lemma get?_put_of_not_prefix (content : Bytes) {q : Place} (h : ¬ q <+: place) (e : Entry) :
    (e.put content place).get? q = e.get? q := by
  induction place generalizing e q with
  | nil =>
    rw [put, alter_nil]
    cases q with
    | nil => exact absurd List.prefix_rfl h
    | cons m q => cases e <;> rfl
  | cons n place ih =>
    cases q with
    | nil => exact absurd List.nil_prefix h
    | cons m q =>
      rcases e.eq_dir_or with ⟨access, entries, rfl⟩ | he
      · rw [put, alter_cons_dir, get?_cons_dir, get?_cons_dir, child?_alterChild]
        split
        · next heq =>
          subst heq
          cases child? m entries with
          | none => rfl
          | some c => exact ih (fun hq => h (List.cons_prefix_cons.mpr ⟨rfl, hq⟩)) c
        · rfl
      · rw [put, alter_cons_of_not_dir he]

lemma isDir_put (content : Bytes) (place : Place) (e : Entry) :
    (e.put content place).isDir = e.isDir := by
  cases place with
  | nil =>
    rw [put, alter_nil]
    cases e <;> rfl
  | cons n place =>
    rcases e.eq_dir_or with ⟨access, entries, rfl⟩ | he
    · rw [put, alter_cons_dir]
      rfl
    · rw [put, alter_cons_of_not_dir he]

lemma veilOf_alterChild {f g : Entry → Entry}
    (h : ∀ c, child? n entries = some c → (f c).veilNamed skip n = g (c.veilNamed skip n)) :
    veilOf skip (alterChild n (Option.map f) entries) =
      alterChild n (Option.map g) (veilOf skip entries) := by
  induction entries with
  | nil => rfl
  | cons x rest ih =>
    obtain ⟨m, e⟩ := x
    rw [veilOf_cons, alterChild, alterChild]
    by_cases hm : m = n
    · subst hm
      have he := h e (by rw [child?_cons, if_pos rfl])
      rw [if_pos rfl, if_pos rfl]
      change veilOf skip ((m, f e) :: rest) = (m, g (e.veilNamed skip m)) :: veilOf skip rest
      rw [veilOf_cons, he]
    · have hrest := ih fun c hc => h c (by rw [child?_cons, if_neg hm, hc])
      rw [if_neg hm, if_neg hm, veilOf_cons, hrest]

/-- A file that is not hidden is written under the veil or before it. -/
theorem veil_put (content' : Bytes) (h : (e.veil skip).get? names = some (.file access content)) :
    (e.put content' names).veil skip = (e.veil skip).put content' names := by
  induction names generalizing e with
  | nil =>
    rw [get?_nil] at h
    rw [eq_of_veil_eq_file (Option.some.inj h)]
    rfl
  | cons n names ih =>
    obtain ⟨access', entries, c, rfl, hc, hopen, hg⟩ := child_of_veil h
    rw [put, put, veil, alter_cons_dir, alter_cons_dir, veil]
    refine congrArg _ (veilOf_alterChild fun c' hc' => ?_)
    obtain rfl : c = c' := Option.some.inj (hc.symm.trans hc')
    have hopen' : ((c.put content' names).isDir && skip n) = false := by rwa [isDir_put]
    rw [veilNamed_open hopen]
    exact (veilNamed_open hopen').trans (ih hg)

/-- A file that is not hidden does not lie in a hidden directory. -/
lemma not_prefix_of_veil (h : (e.veil skip).get? names = some (.file access content))
    {access' : Access} (hd : e.get? (place ++ [n]) = some (.dir access' entries))
    (hidden : skip n = true) : ¬ place ++ [n] <+: names := by
  induction place generalizing e names with
  | nil =>
    intro hprefix
    obtain ⟨names, rfl⟩ := hprefix
    obtain ⟨access'', entries', c, rfl, hc, hopen, -⟩ := child_of_veil h
    rw [List.nil_append, get?_cons_of_child hc, get?_nil] at hd
    rw [Option.some.inj hd, hidden] at hopen
    cases hopen
  | cons m place ih =>
    intro hprefix
    obtain ⟨names, rfl⟩ := hprefix
    obtain ⟨access'', entries', c, rfl, hc, -, hg⟩ := child_of_veil h
    rw [List.cons_append, get?_cons_of_child hc] at hd
    exact ih hg hd (List.prefix_append _ _)

/-! Ways on which two trees cannot be told apart. -/

/-- Names lead through the directories of two trees, past no link, to directories of the same access
or to the same file. -/
inductive Alike : List Name → Entry → Entry → Prop
  | file (access : Access) (content : Bytes) :
      Alike [] (.file access content) (.file access content)
  | dir (access : Access) (entries entries' : List (Name × Entry)) :
      Alike [] (.dir access entries) (.dir access entries')
  | child {n : Name} {names : List Name} {access : Access} {entries entries' : List (Name × Entry)}
      {e e' : Entry} (child : child? n entries = some e) (child' : child? n entries' = some e')
      (tail : Alike names e e') : Alike (n :: names) (.dir access entries) (.dir access entries')

lemma Alike.isLink (h : Alike names e e') : e.isLink = false ∧ e'.isLink = false := by
  cases h <;> exact ⟨rfl, rfl⟩

lemma Alike.split (h : Alike (place ++ names) e e') :
    ∃ x x', e.get? place = some x ∧ e'.get? place = some x' ∧ Alike names x x' := by
  induction place generalizing e e' with
  | nil => exact ⟨e, e', get?_nil e, get?_nil e', h⟩
  | cons n place ih =>
    cases h with
    | child child child' tail =>
      obtain ⟨x, x', hx, hx', htail⟩ := ih tail
      exact ⟨x, x', by rw [get?_cons_of_child child, hx], by rw [get?_cons_of_child child', hx'],
        htail⟩

/-- The way to a file that is not hidden. -/
lemma alike_of_veil (h : e'.veil skip = e.veil skip)
    (hg : (e.veil skip).get? names = some (.file access content)) : Alike names e e' := by
  induction names generalizing e e' with
  | nil =>
    rw [get?_nil] at hg
    have he := Option.some.inj hg
    rw [eq_of_veil_eq_file he, eq_of_veil_eq_file (h.trans he)]
    exact .file access content
  | cons n names ih =>
    obtain ⟨a, entries, c, rfl, hc, hopen, hg⟩ := child_of_veil hg
    obtain ⟨entries', rfl, hentries⟩ := eq_of_veil_eq_dir h
    have hchild := congrArg (child? n) hentries
    rw [child?_veilOf, child?_veilOf, hc] at hchild
    obtain ⟨c', hc', hveil⟩ := Option.map_eq_some_iff.mp hchild
    have hdir := congrArg isDir hveil
    rw [isDir_veilNamed, isDir_veilNamed] at hdir
    have hopen' : (c'.isDir && skip n) = false := by rw [hdir, hopen]
    rw [veilNamed_open hopen, veilNamed_open hopen'] at hveil
    exact .child hc hc' (ih hveil hg)

end Entry

namespace Walk

mutual

/-- A walk does not see what is hidden in the directories that it does not enter. -/
theorem visits_veil (skip : Name → Bool) :
    ∀ (reachable : Bool) (e : Entry) (p : Path),
      visits skip reachable (e.veil skip) p = visits skip reachable e p
  | _, .file _ _, _ => rfl
  | _, .link _, _ => rfl
  | reachable, .dir access entries, p => by
    rw [Entry.veil, visits, visits, visitsBelow_veilOf skip access.search entries p]

theorem visitsBelow_veilOf (skip : Name → Bool) :
    ∀ (reachable : Bool) (entries : List (Name × Entry)) (p : Path),
      visitsBelow skip reachable (Entry.veilOf skip entries) p =
        visitsBelow skip reachable entries p
  | _, [], _ => rfl
  | reachable, (n, e) :: rest, p => by
    rw [Entry.veilOf_cons, visitsBelow, visitsBelow, Entry.isDir_veilNamed,
      visitsBelow_veilOf skip reachable rest p]
    cases hhidden : e.isDir && skip n with
    | true => rfl
    | false => rw [Entry.veilNamed_open hhidden, visits_veil skip reachable e]

end

end Walk
end LogSweep
