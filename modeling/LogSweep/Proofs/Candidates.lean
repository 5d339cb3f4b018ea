import LogSweep.Proofs.Route
import LogSweep.Proofs.WalkOrder

/-! The files that a selection collects. They lie below the place to which the root of the selection
leads, each by the names on its path, so no two of their paths lead to the same file. -/
namespace LogSweep

namespace FileSystem

variable {fs : FileSystem} {p : Path} {place : Place} {e : Entry}

lemma entryAt_eq_ok : fs.entryAt place = .ok e ↔ fs.root.get? place = some e := by
  unfold entryAt
  split <;> simp_all

lemma lstat_of_locate (hl : fs.locate false p = .ok place) (hg : fs.root.get? place = some e) :
    fs.lstat p = .ok e := by
  rw [lstat, hl]
  exact entryAt_eq_ok.mpr hg

lemma entry_of_locate {followLast : Bool} (h : fs.locate followLast p >>= fs.entryAt = .ok e) :
    ∃ place, fs.locate followLast p = .ok place ∧ fs.root.get? place = some e := by
  cases hl : fs.locate followLast p with
  | error cause =>
    rw [hl] at h
    cases h
  | ok place =>
    rw [hl] at h
    exact ⟨place, rfl, entryAt_eq_ok.mp h⟩

lemma ne_nil_of_locate {followLast : Bool} (h : fs.locate followLast p = .ok place) : p ≠ [] := by
  rintro rfl
  simp [locate] at h

lemma ne_nil_of_lstat (h : fs.lstat p = .ok e) : p ≠ [] := by
  obtain ⟨place, hl, -⟩ := entry_of_locate h
  exact ne_nil_of_locate hl

lemma ne_nil_of_stat (h : fs.stat p = .ok e) : p ≠ [] := by
  obtain ⟨place, hl, -⟩ := entry_of_locate h
  exact ne_nil_of_locate hl

/-- The steps of a path lead where its parts do. -/
lemma Leads.of_steps {root : Entry} {here there : Place} (h : Leads root (steps p) here there) :
    Leads root p.parts here there := by
  obtain ⟨between, hparts, hrest⟩ := h.split
  split at hrest
  · cases hrest with
    | stay tail =>
      cases tail
      exact hparts
    | follow dir found tail => simp [named?_dot] at found
    | enter dir found real tail => simp [named?_dot] at found
  · cases hrest
    exact hparts

end FileSystem

namespace Walk
open FileSystem

/-- A walk from a path starts from an entry that is no link, at the place where the path leads. -/
structure StartsAt (fs : FileSystem) (root : Path) (place : Place) (e : Entry) : Prop where
  named : root ≠ []
  leads : Leads fs.root (steps root) (fs.start root) place
  entry : fs.root.get? place = some e
  real : e.isLink = false

variable {fs : FileSystem} {root : Path} {place : Place} {e : Entry}

lemma startsAt_of_locate {followLast : Bool} (hl : fs.locate followLast root = .ok place)
    (hg : fs.root.get? place = some e) (real : e.isLink = false) : StartsAt fs root place e := by
  refine ⟨ne_nil_of_locate hl, locate_leads (.inr fun target ht => ?_) hl, hg, real⟩
  rw [hg] at ht
  cases ht
  cases real

/-- A walk visits no files, or all that lies below the entry from which it starts. -/
lemma visitsFrom_cases (skip : Bytes → Bool) (fs : FileSystem) (root : Path) :
    (visitsFrom skip fs root).filterMap Visit.file? = [] ∨
    ∃ place e, StartsAt fs root place e ∧
      visitsFrom skip fs root = visits (fun n => skip n.bytes) true e root := by
  unfold visitsFrom
  cases hs : fs.lstat root with
  | error cause => exact .inl rfl
  | ok e =>
    obtain ⟨place, hl, hg⟩ := entry_of_locate hs
    cases e with
    | file access content => exact .inr ⟨place, _, startsAt_of_locate hl hg rfl, rfl⟩
    | dir access entries =>
      dsimp only
      split
      · exact .inl rfl
      · exact .inr ⟨place, _, startsAt_of_locate hl hg rfl, rfl⟩
    | link target =>
      dsimp only
      split
      · exact .inl rfl
      · next access entries hd =>
        obtain ⟨place, hl, hg⟩ := entry_of_locate hd
        exact .inr ⟨place, _, startsAt_of_locate hl hg rfl, rfl⟩
      · exact .inl rfl

/-- Below the start of a walk, the path made of the names on the way to a file leads to the file. -/
lemma StartsAt.leads_below (start : StartsAt fs root place e) {names : List Name}
    {access : Access} {content : Bytes} {there : Place}
    (hg : e.get? names = some (.file access content))
    (hl : fs.LeadsTo (root.below names) there) : there = place ++ names := by
  unfold LeadsTo at hl
  by_cases hn : names = []
  · subst hn
    rw [List.append_nil]
    exact hl.unique start.leads
  · rw [Path.steps_below root hn, FileSystem.start, Path.isAbsolute_below start.named] at hl
    obtain ⟨between, hroot, hnames⟩ := hl.split
    obtain rfl : between = place := hroot.unique start.leads.of_steps
    refine hnames.eq_append (e := .file access content) ?_ rfl
    rw [Entry.get?_append, start.entry, Option.bind_some, hg]

end Walk

namespace Selection
open FileSystem

variable {s : Selection} {fs : FileSystem} {ps : List Path}

lemma collect_eq_ok (h : s.collect fs = .ok ps) :
    ps = ((s.visits fs).filterMap Visit.file?).filter s.isCandidate := by
  unfold collect at h
  dsimp only at h
  split at h
  · cases h
  · exact (Except.ok.inj h).symm

/-- The collected paths come in the order of the names on them. -/
theorem collect_pairwise (h : s.collect fs = .ok ps) :
    ps.Pairwise fun p q => p.parts < q.parts := by
  rw [collect_eq_ok h]
  refine List.Pairwise.filter _ ?_
  rcases Walk.visitsFrom_cases s.excludes fs s.root with hv | ⟨place, e, -, hv⟩
  · rw [visits, hv]
    exact .nil
  · rw [visits, hv]
    exact Walk.visits_files_pairwise ..

theorem collect_nodup (h : s.collect fs = .ok ps) : ps.Nodup := by
  refine List.Pairwise.imp ?_ (collect_pairwise h)
  rintro p q hlt rfl
  exact List.lt_irrefl _ hlt

/-- No two collected paths lead to the same place. -/
theorem collect_apart (h : s.collect fs = .ok ps) {p q : Path} (hp : p ∈ ps) (hq : q ∈ ps)
    {place : Place} (hlp : fs.LeadsTo p place) (hlq : fs.LeadsTo q place) : p = q := by
  rw [collect_eq_ok h] at hp hq
  have hp := (List.mem_filter.mp hp).1
  have hq := (List.mem_filter.mp hq).1
  rcases Walk.visitsFrom_cases s.excludes fs s.root with hv | ⟨start, e, hs, hv⟩
  · rw [visits, hv] at hp
    cases hp
  · rw [visits, hv, Walk.mem_files_iff] at hp hq
    obtain ⟨names, _, _, rfl, hg⟩ := Walk.file_of_mem_visits hp
    obtain ⟨names', _, _, rfl, hg'⟩ := Walk.file_of_mem_visits hq
    have heq := (hs.leads_below hg hlp).symm.trans (hs.leads_below hg' hlq)
    rw [List.append_cancel_left heq]

end Selection
end LogSweep
