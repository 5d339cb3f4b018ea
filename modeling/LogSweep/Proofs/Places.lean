import LogSweep.FileSystem.Content
import Mathlib.Data.List.Basic

/-! Entries by name and by place, and what becomes of them where the file at one place is changed.
Such a change is seen at its place only, and changes at different places do not depend on their
order. -/
namespace LogSweep.Entry

/-! Entries by name. -/

lemma child?_nil (n : Name) : child? n [] = none := rfl

lemma child?_cons (n m : Name) (e : Entry) (rest : List (Name × Entry)) :
    child? n ((m, e) :: rest) = if m = n then some e else child? n rest := by
  by_cases h : m = n <;> simp [child?, h]

lemma named?_cons (part : Bytes) (n : Name) (e : Entry) (rest : List (Name × Entry)) :
    named? part ((n, e) :: rest) = if n.bytes = part then some (n, e) else named? part rest := by
  by_cases h : n.bytes = part <;> simp [named?, h]

/-- A name is looked up by its bytes. -/
lemma named?_bytes (n : Name) (entries : List (Name × Entry)) :
    named? n.bytes entries = (child? n entries).map fun e => (n, e) := by
  induction entries with
  | nil => rfl
  | cons x rest ih =>
    obtain ⟨m, e⟩ := x
    rw [named?_cons, child?_cons, ih]
    by_cases h : m = n
    · subst h
      simp
    · have hb : m.bytes ≠ n.bytes := fun hb => h (Name.ext_bytes hb)
      simp [h, hb]

lemma bytes_of_named? {part : Bytes} {n : Name} {e : Entry} {entries : List (Name × Entry)}
    (h : named? part entries = some (n, e)) : n.bytes = part := by
  unfold named? at h
  have hb := List.find?_some h
  exact eq_of_beq hb

lemma child?_of_named? {part : Bytes} {n : Name} {e : Entry} {entries : List (Name × Entry)}
    (h : named? part entries = some (n, e)) : child? n entries = some e := by
  obtain rfl := bytes_of_named? h
  rw [named?_bytes] at h
  obtain ⟨e', he, hn⟩ := Option.map_eq_some_iff.mp h
  cases hn
  exact he

lemma mem_of_child? {n : Name} {e : Entry} {entries : List (Name × Entry)}
    (h : child? n entries = some e) : (n, e) ∈ entries := by
  rw [child?, Option.map_eq_some_iff] at h
  obtain ⟨x, hx, rfl⟩ := h
  have hn := List.find?_some hx
  obtain rfl : x.1 = n := by simpa using hn
  exact List.mem_of_find?_eq_some hx

/-- What holds of files and links, and of a directory if it holds of all its entries, holds of every
tree. -/
theorem induct {P : Entry → Prop} (file : ∀ access content, P (.file access content))
    (link : ∀ target, P (.link target))
    (dir : ∀ access entries, (∀ n e, child? n entries = some e → P e) → P (.dir access entries)) :
    ∀ e, P e
  | .file access content => file access content
  | .link target => link target
  | .dir access entries => dir access entries fun n e h =>
    have := List.sizeOf_lt_of_mem (mem_of_child? h)
    induct file link dir e
termination_by e => sizeOf e
decreasing_by
  simp only [Prod.mk.sizeOf_spec, Entry.dir.sizeOf_spec] at this ⊢
  omega

/-! Entries by place. -/

@[simp] lemma get?_nil (e : Entry) : e.get? [] = some e := by cases e <;> rfl

lemma get?_cons_dir (n : Name) (place : Place) (access : Access) (entries : List (Name × Entry)) :
    get? (n :: place) (.dir access entries) = (child? n entries).bind (get? place) := rfl

lemma get?_append (a b : Place) (e : Entry) : e.get? (a ++ b) = (e.get? a).bind (get? b) := by
  induction a generalizing e with
  | nil => simp
  | cons n a ih =>
    cases e with
    | dir access entries =>
      rw [List.cons_append, get?_cons_dir, get?_cons_dir]
      cases child? n entries with
      | none => rfl
      | some x => exact ih x
    | file access content => rfl
    | link target => rfl

lemma get?_cons_of_child {n : Name} {entries : List (Name × Entry)} {x : Entry}
    (h : child? n entries = some x) (access : Access) (place : Place) :
    get? (n :: place) (.dir access entries) = x.get? place := by
  rw [get?_cons_dir, h, Option.bind_some]

/-- What a directory at a place contains. -/
lemma get?_append_child {e x : Entry} {place : Place} {access : Access}
    {entries : List (Name × Entry)} {n : Name} (dir : e.get? place = some (.dir access entries))
    (h : child? n entries = some x) : e.get? (place ++ [n]) = some x := by
  rw [get?_append, dir, Option.bind_some, get?_cons_of_child h, get?_nil]

lemma eq_dir_or (e : Entry) :
    (∃ access entries, e = .dir access entries) ∨ e.isDir = false := by
  cases e with
  | file access content => exact .inr rfl
  | link target => exact .inr rfl
  | dir access entries => exact .inl ⟨access, entries, rfl⟩

/-! The file at one place. -/

/-- What a file permits and contains. -/
def file? : Entry → Option (Access × Bytes)
  | .file access content => some (access, content)
  | _ => none

/-- What the file at a place permits and contains. -/
def fileAt (e : Entry) (place : Place) : Option (Access × Bytes) := (e.get? place).bind file?

/-- The entry with another access and content, if it is a file. -/
def onFile (g : Access × Bytes → Access × Bytes) : Entry → Entry
  | .file access content => .file (g (access, content)).1 (g (access, content)).2
  | e => e

/-- The tree with another access and content of the file at a place. -/
def alterFile (g : Access × Bytes → Access × Bytes) (place : Place) (e : Entry) : Entry :=
  alter (Option.map (onFile g)) place e

variable {g g' : Access × Bytes → Access × Bytes} {n : Name} {place q : Place} {e : Entry}

lemma file?_onFile (g : Access × Bytes → Access × Bytes) (e : Entry) :
    (e.onFile g).file? = e.file?.map g := by
  cases e <;> rfl

lemma child?_alterChild (n m : Name) (f : Entry → Entry) (entries : List (Name × Entry)) :
    child? m (alterChild n (Option.map f) entries) =
      if m = n then (child? n entries).map f else child? m entries := by
  induction entries with
  | nil => simp [alterChild, child?_nil]
  | cons x rest ih =>
    obtain ⟨k, e⟩ := x
    rw [alterChild]
    by_cases hk : k = n
    · subst hk
      simp only [if_pos, Option.map_some, Option.toList_some, List.cons_append, List.nil_append,
        child?_cons, eq_comm (a := k)]
      split <;> simp_all
    · rw [if_neg hk, child?_cons, child?_cons, child?_cons, ih, if_neg hk]
      by_cases hm : m = n
      · subst hm
        simp [hk]
      · simp [hm]

lemma alter_nil (f : Entry → Entry) (e : Entry) : alter (Option.map f) [] e = f e := by
  cases e <;> rfl

lemma alter_cons_dir (f : Entry → Entry) (n : Name) (place : Place) (access : Access)
    (entries : List (Name × Entry)) :
    alter (Option.map f) (n :: place) (.dir access entries) =
      .dir access (alterChild n (Option.map (alter (Option.map f) place)) entries) := by
  cases place with
  | nil =>
    have h : alter (Option.map f) [] = f := funext (alter_nil f)
    rw [h]
    rfl
  | cons m place => rfl

/-- Nothing lies below an entry that is no directory. -/
lemma alter_cons_of_not_dir (h : e.isDir = false) (f : Option Entry → Option Entry) (n : Name)
    (place : Place) : alter f (n :: place) e = e := by
  cases e with
  | dir access entries => simp [isDir] at h
  | file access c => cases place <;> rfl
  | link target => cases place <;> rfl

lemma alterFile_nil (g : Access × Bytes → Access × Bytes) (e : Entry) :
    alterFile g [] e = e.onFile g := alter_nil ..

lemma alterFile_cons_dir (g : Access × Bytes → Access × Bytes) (n : Name) (place : Place)
    (access : Access) (entries : List (Name × Entry)) :
    alterFile g (n :: place) (.dir access entries) =
      .dir access (alterChild n (Option.map (alterFile g place)) entries) := alter_cons_dir ..

lemma alterFile_cons_of_not_dir (h : e.isDir = false) (g : Access × Bytes → Access × Bytes)
    (n : Name) (place : Place) : alterFile g (n :: place) e = e := alter_cons_of_not_dir h ..

lemma isDir_onFile (g : Access × Bytes → Access × Bytes) (e : Entry) :
    (e.onFile g).isDir = e.isDir := by
  cases e <;> rfl

lemma onFile_dir (g : Access × Bytes → Access × Bytes) (access : Access)
    (entries : List (Name × Entry)) : (dir access entries).onFile g = .dir access entries := rfl

lemma fileAt_cons_dir (n : Name) (place : Place) (access : Access)
    (entries : List (Name × Entry)) :
    fileAt (.dir access entries) (n :: place) = (child? n entries).bind (fileAt · place) := by
  rw [fileAt, get?_cons_dir]
  cases child? n entries <;> rfl

lemma fileAt_cons_of_not_dir (h : e.isDir = false) (n : Name) (place : Place) :
    e.fileAt (n :: place) = none := by
  cases e with
  | dir access entries => simp [isDir] at h
  | file access content => rfl
  | link target => rfl

/-- Changing a file changes what is at its place and no other file. -/
lemma fileAt_alterFile (g : Access × Bytes → Access × Bytes) (place q : Place) (e : Entry) :
    (e.alterFile g place).fileAt q = if q = place then (e.fileAt q).map g else e.fileAt q := by
  induction place generalizing e q with
  | nil =>
    rw [alterFile_nil]
    cases q with
    | nil => simp [fileAt, file?_onFile]
    | cons m q => cases e <;> simp [fileAt, onFile, get?]
  | cons n place ih =>
    rcases e.eq_dir_or with ⟨access, entries, rfl⟩ | he
    · rw [alterFile_cons_dir]
      cases q with
      | nil => simp [fileAt, file?]
      | cons m q =>
        rw [fileAt_cons_dir, fileAt_cons_dir, child?_alterChild]
        by_cases hm : m = n
        · subst hm
          cases child? m entries with
          | none => simp
          | some x => simpa using ih q x
        · simp [hm]
    · rw [alterFile_cons_of_not_dir he]
      split
      · next h => rw [h, fileAt_cons_of_not_dir he]; rfl
      · rfl

lemma alterChild_comm {n m : Name} (h : n ≠ m) (f f' : Entry → Entry)
    (entries : List (Name × Entry)) :
    alterChild n (Option.map f) (alterChild m (Option.map f') entries) =
      alterChild m (Option.map f') (alterChild n (Option.map f) entries) := by
  induction entries with
  | nil => rfl
  | cons x rest ih =>
    obtain ⟨k, e⟩ := x
    by_cases hn : k = n
    · subst hn
      simp [alterChild, h]
    · by_cases hm : k = m
      · subst hm
        simp [alterChild, hn]
      · simp [alterChild, hn, hm, ih]

lemma alterChild_alterChild (n : Name) (f f' : Entry → Entry) (entries : List (Name × Entry)) :
    alterChild n (Option.map f) (alterChild n (Option.map f') entries) =
      alterChild n (Option.map fun e => f (f' e)) entries := by
  induction entries with
  | nil => rfl
  | cons x rest ih =>
    obtain ⟨k, e⟩ := x
    by_cases hn : k = n
    · subst hn
      simp [alterChild]
    · simp [alterChild, hn, ih]

lemma onFile_alterFile_cons (g g' : Access × Bytes → Access × Bytes) (n : Name) (place : Place)
    (e : Entry) :
    (e.alterFile g' (n :: place)).onFile g = (e.onFile g).alterFile g' (n :: place) := by
  rcases e.eq_dir_or with ⟨access, entries, rfl⟩ | he
  · rw [onFile_dir, alterFile_cons_dir, onFile_dir]
  · rw [alterFile_cons_of_not_dir he, alterFile_cons_of_not_dir (by rw [isDir_onFile, he])]

/-- Files at different places are changed in either order. -/
theorem alterFile_comm (h : place ≠ q) (g g' : Access × Bytes → Access × Bytes) (e : Entry) :
    (e.alterFile g' q).alterFile g place = (e.alterFile g place).alterFile g' q := by
  induction place generalizing e q with
  | nil =>
    cases q with
    | nil => exact absurd rfl h
    | cons m q => rw [alterFile_nil, alterFile_nil, onFile_alterFile_cons]
  | cons n place ih =>
    cases q with
    | nil => rw [alterFile_nil, alterFile_nil, onFile_alterFile_cons]
    | cons m q =>
      rcases e.eq_dir_or with ⟨access, entries, rfl⟩ | he
      · simp only [alterFile_cons_dir]
        by_cases hn : n = m
        · subst hn
          have hne : place ≠ q := fun he => h (by rw [he])
          simp only [alterChild_alterChild, ih hne]
        · rw [alterChild_comm hn]
      · simp only [alterFile_cons_of_not_dir he]

end LogSweep.Entry
