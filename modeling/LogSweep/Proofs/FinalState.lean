import LogSweep.Proofs.Candidates
import LogSweep.Proofs.NormalForm
import LogSweep.Proofs.SweepStep
import Mathlib.Algebra.BigOperators.Group.List.Basic
import Mathlib.Algebra.Order.Ring.Nat

/-! The exact state that a sweep leaves. The files are cleaned in the order in which they were
collected, up to the end or up to the one at which the sweep fails, and as their paths lead to
different places, each of them is met as it was before the sweep. -/
namespace LogSweep

namespace FileSystem

/-- What cleaning the file at a path gives, if it can be read as a text. -/
def cleaning? (fs : FileSystem) (p : Path) : Option Cleaning :=
  (fs.readText p).toOption.map Text.clean

/-- Cleaning changes the file at a path. -/
def modifies (fs : FileSystem) (p : Path) : Bool := (fs.cleaning? p).any Cleaning.changed

/-- The number of lines that cleaning removes from the file at a path. -/
def removedFrom (fs : FileSystem) (p : Path) : Nat := (fs.cleaning? p).elim 0 Cleaning.removed

/-- Two paths do not lead to the same place. -/
def Apart (fs : FileSystem) (p q : Path) : Prop :=
  ∀ place, fs.locate true p = .ok place → fs.locate true q ≠ .ok place

variable {fs fs' : FileSystem} {p q : Path} {t : Text}

lemma cleaning?_of_readText (h : fs.readText p = .ok t) : fs.cleaning? p = some t.clean := by
  rw [cleaning?, h]
  rfl

lemma cleaning?_congr (h : fs'.readText p = fs.readText p) : fs'.cleaning? p = fs.cleaning? p := by
  rw [cleaning?, cleaning?, h]

lemma modifies_of_readText (h : fs.readText p = .ok t) : fs.modifies p = t.clean.changed := by
  rw [modifies, cleaning?_of_readText h]
  rfl

lemma removedFrom_of_readText (h : fs.readText p = .ok t) :
    fs.removedFrom p = t.clean.removed := by
  rw [removedFrom, cleaning?_of_readText h]
  rfl

lemma Apart.symm (h : fs.Apart p q) : fs.Apart q p := fun place hq hp => h place hp hq

lemma apart_congr (h : fs'.bare = fs.bare) : fs'.Apart p q ↔ fs.Apart p q := by
  simp only [Apart, locate_congr (shape_of_bare h)]

end FileSystem

lemma Selection.collect_pairwise_apart {s : Selection} {fs : FileSystem} {ps : List Path}
    (h : s.collect fs = .ok ps) : ps.Pairwise fs.Apart :=
  (collect_nodup h).imp_of_mem fun hp hq hne _ hlp hlq =>
    hne (collect_apart h hp hq (FileSystem.locate_leads (.inl rfl) hlp)
      (FileSystem.locate_leads (.inl rfl) hlq))

/-- From one file system to another, the first `n` of some files are cleaned, the later ones hold
what they held, and all else is as it was. -/
structure Cleaned (fs : FileSystem) (ps : List Path) (n : Nat) (fs' : FileSystem) : Prop where
  bare_eq : fs'.bare = fs.bare
  first : ∀ p ∈ ps.take n, ∃ t, fs.readText p = .ok t ∧ fs'.readText p = .ok t.clean.text
  later : ∀ p ∈ ps.drop n, ∀ place, fs.locate true p = .ok place →
    fs'.contentAt place = fs.contentAt place
  others : ∀ place, (∀ p ∈ ps, fs.locate true p ≠ .ok place) →
    fs'.contentAt place = fs.contentAt place

namespace Cleaned
open FileSystem

variable {fs fs₁ fs₂ : FileSystem} {p q : Path} {ps : List Path} {n : Nat}

lemma none (fs : FileSystem) (ps : List Path) : Cleaned fs ps 0 fs :=
  ⟨rfl, by simp, fun _ _ _ _ => rfl, fun _ _ => rfl⟩

lemma unmodified {t : Text} (hr : fs.readText p = .ok t) (hc : t.clean.changed = false) :
    Cleaned fs [p] 1 fs := by
  refine ⟨rfl, ?_, fun _ _ _ _ => rfl, fun _ _ => rfl⟩
  intro q hq
  obtain rfl : q = p := by simpa using hq
  exact ⟨t, hr, by rw [Text.clean_of_not_changed hc, hr]⟩

lemma written {t : Text} (hr : fs.readText p = .ok t)
    (hw : fs.writeText p t.clean.text = .ok fs₁) : Cleaned fs [p] 1 fs₁ := by
  obtain ⟨place, hl, rfl⟩ := write_eq_ok hw
  refine ⟨bare_put .., ?_, by simp, fun q hq => ?_⟩
  · intro q hq
    obtain rfl : q = p := by simpa using hq
    exact ⟨t, hr, readText_put hl hr _⟩
  · have hne : q ≠ place := by
      rintro rfl
      exact hq p (by simp) hl
    rw [contentAt_put, if_neg hne]

/-- A file apart from all others is met as it was. -/
lemma readText_eq (h : Cleaned fs ps n fs₁) (apart : ∀ p ∈ ps, fs.Apart q p) :
    fs₁.readText q = fs.readText q :=
  readText_congr h.bare_eq fun place hl => h.others place fun p hp => apart p hp place hl

lemma contentAt_eq_of_one (hp : Cleaned fs [p] 1 fs₁) {place : Place}
    (hne : fs.locate true p ≠ .ok place) : fs₁.contentAt place = fs.contentAt place :=
  hp.others place fun r hr => by rwa [List.mem_singleton.mp hr]

lemma readText_eq_of_one (hp : Cleaned fs [p] 1 fs₁) (apart : fs.Apart p q) :
    fs₁.readText q = fs.readText q :=
  hp.readText_eq fun r hr => by
    rw [List.mem_singleton.mp hr]
    exact apart.symm

lemma cleaning?_eq_of_one (hp : Cleaned fs [p] 1 fs₁) (apart : fs.Apart p q) :
    fs₁.cleaning? q = fs.cleaning? q :=
  cleaning?_congr (hp.readText_eq_of_one apart)

lemma filter_modifies (hp : Cleaned fs [p] 1 fs₁) (apart : ∀ q ∈ ps, fs.Apart p q) :
    ps.filter fs₁.modifies = ps.filter fs.modifies :=
  List.filter_congr fun q hq => by rw [modifies, modifies, hp.cleaning?_eq_of_one (apart q hq)]

lemma map_removedFrom (hp : Cleaned fs [p] 1 fs₁) (apart : ∀ q ∈ ps, fs.Apart p q) :
    ps.map fs₁.removedFrom = ps.map fs.removedFrom :=
  List.map_congr_left fun q hq => by
    rw [removedFrom, removedFrom, hp.cleaning?_eq_of_one (apart q hq)]

/-- One file is cleaned, and then others are. -/
lemma cons (hp : Cleaned fs [p] 1 fs₁) (apart : ∀ q ∈ ps, fs.Apart p q)
    (h : Cleaned fs₁ ps n fs₂) : Cleaned fs (p :: ps) (n + 1) fs₂ := by
  have hloc (q : Path) : fs₁.locate true q = fs.locate true q :=
    locate_congr (shape_of_bare hp.bare_eq) true q
  refine ⟨h.bare_eq.trans hp.bare_eq, fun q hq => ?_, fun q hq place hl => ?_, fun place hne => ?_⟩
  · rw [List.take_succ_cons] at hq
    rcases List.mem_cons.mp hq with rfl | hq
    · obtain ⟨t, hr, hr₁⟩ := hp.first q (by simp)
      refine ⟨t, hr, ?_⟩
      rw [h.readText_eq fun r hr => (apart_congr hp.bare_eq).mpr (apart r hr), hr₁]
    · obtain ⟨t, hr₁, hr₂⟩ := h.first q hq
      rw [hp.readText_eq_of_one (apart q (List.mem_of_mem_take hq))] at hr₁
      exact ⟨t, hr₁, hr₂⟩
  · have hap := (apart q (List.mem_of_mem_drop hq)).symm
    rw [h.later q hq place (by rw [hloc, hl])]
    exact hp.contentAt_eq_of_one (hap place hl)
  · rw [h.others place fun q hq => by rw [hloc]; exact hne q (List.mem_cons_of_mem p hq)]
    exact hp.contentAt_eq_of_one (hne p List.mem_cons_self)

end Cleaned

namespace Sweep
open FileSystem

/-- A sweep of some files comes to its end. -/
structure Completes (fs : FileSystem) (ps : List Path) (w : Sweep) (t : Tally) : Prop where
  cleaned : Cleaned fs ps ps.length w.files
  examined : t.examined = ps.length
  modified : t.modified = ps.filter fs.modifies
  removed : t.removed = (ps.map fs.removedFrom).sum
  reported : w.reported = ps.filter fs.modifies

/-- A sweep of some files fails at the one with the number `k`. Where it cannot be read or written it
is as it was, and where the report about it fails it is cleaned already. -/
inductive FailsAt (fs : FileSystem) (ps : List Path) (w : Sweep) (k : Nat) : Failure → Prop
  | read {p : Path} {cause : IoError} (path : ps[k]? = some p)
      (refused : fs.readText p = .error cause) (cleaned : Cleaned fs ps k w.files)
      (reported : w.reported = (ps.take k).filter fs.modifies) :
      FailsAt fs ps w k (.read p cause)
  | write {p : Path} {cause : IoError} (path : ps[k]? = some p) (modified : fs.modifies p)
      (cleaned : Cleaned fs ps k w.files)
      (reported : w.reported = (ps.take k).filter fs.modifies) :
      FailsAt fs ps w k (.write p cause)
  | report {p : Path} {cause : IoError} (path : ps[k]? = some p) (modified : fs.modifies p)
      (cleaned : Cleaned fs ps (k + 1) w.files)
      (reported : w.reported = (ps.take k).filter fs.modifies ++ [p]) :
      FailsAt fs ps w k (.report cause)

/-- A sweep comes to its end or fails at one of its files. -/
inductive Exact (fs : FileSystem) (ps : List Path) (w : Sweep) : Prop
  | completes {t : Tally} (ok : w.outcome = .ok t) (state : Completes fs ps w t)
  | fails {e : Failure} {k : Nat} (error : w.outcome = .error e) (state : FailsAt fs ps w k e)

variable {fs fs₁ : FileSystem} {p : Path} {ps : List Path} {w w' : Sweep}

lemma Completes.cons {t t' : Tally} (hp : Cleaned fs [p] 1 fs₁) (apart : ∀ q ∈ ps, fs.Apart p q)
    (h : Completes fs₁ ps w t) (files : w'.files = w.files)
    (reported : w'.reported = [p].filter fs.modifies ++ w.reported)
    (examined : t'.examined = t.examined + 1)
    (modified : t'.modified = [p].filter fs.modifies ++ t.modified)
    (removed : t'.removed = fs.removedFrom p + t.removed) : Completes fs (p :: ps) w' t' where
  cleaned := by
    rw [files]
    exact hp.cons apart h.cleaned
  examined := by rw [examined, h.examined, List.length_cons]
  modified := by
    rw [modified, h.modified, hp.filter_modifies apart, ← List.filter_append, List.singleton_append]
  removed := by
    rw [removed, h.removed, hp.map_removedFrom apart, List.map_cons, List.sum_cons]
  reported := by
    rw [reported, h.reported, hp.filter_modifies apart, ← List.filter_append, List.singleton_append]

lemma FailsAt.cons {k : Nat} {e : Failure} (hp : Cleaned fs [p] 1 fs₁)
    (apart : ∀ q ∈ ps, fs.Apart p q) (h : FailsAt fs₁ ps w k e) (files : w'.files = w.files)
    (reported : w'.reported = [p].filter fs.modifies ++ w.reported) :
    FailsAt fs (p :: ps) w' (k + 1) e := by
  have hfilter : ((p :: ps).take (k + 1)).filter fs.modifies =
      [p].filter fs.modifies ++ (ps.take k).filter fs₁.modifies := by
    rw [hp.filter_modifies fun q hq => apart q (List.mem_of_mem_take hq), ← List.filter_append]
    rfl
  have hap {q : Path} (hq : ps[k]? = some q) : fs.Apart p q := apart q (List.mem_of_getElem? hq)
  cases h with
  | @read q cause path refused cleaned rep =>
    refine .read (by simpa using path) ?_ (files ▸ hp.cons apart cleaned) ?_
    · rw [← refused, hp.readText_eq_of_one (hap path)]
    · rw [reported, rep, hfilter]
  | @write q cause path modified cleaned rep =>
    refine .write (by simpa using path) ?_ (files ▸ hp.cons apart cleaned) ?_
    · rwa [modifies, ← hp.cleaning?_eq_of_one (hap path)]
    · rw [reported, rep, hfilter]
  | @report q cause path modified cleaned rep =>
    refine .report (by simpa using path) ?_ (files ▸ hp.cons apart cleaned) ?_
    · rwa [modifies, ← hp.cleaning?_eq_of_one (hap path)]
    · rw [reported, rep, hfilter, List.append_assoc]

lemma Exact.cons {f : Tally → Tally} (hp : Cleaned fs [p] 1 fs₁)
    (apart : ∀ q ∈ ps, fs.Apart p q) (h : Exact fs₁ ps w) (files : w'.files = w.files)
    (reported : w'.reported = [p].filter fs.modifies ++ w.reported)
    (outcome : w'.outcome = w.outcome.map f) (examined : ∀ t, (f t).examined = t.examined + 1)
    (modified : ∀ t, (f t).modified = [p].filter fs.modifies ++ t.modified)
    (removed : ∀ t, (f t).removed = fs.removedFrom p + t.removed) : Exact fs (p :: ps) w' := by
  cases h with
  | completes ok state =>
    exact .completes (by rw [outcome, ok]; rfl)
      (state.cons hp apart files reported (examined _) (modified _) (removed _))
  | fails error state =>
    exact .fails (by rw [outcome, error]; rfl) (state.cons hp apart files reported)

/-- Wherever a sweep ends, the files in front are cleaned, and those of them that changed are
reported. -/
lemma Exact.progress (h : Exact fs ps w) :
    ∃ n, Cleaned fs ps n w.files ∧ w.reported = (ps.take n).filter fs.modifies := by
  cases h with
  | completes ok state => exact ⟨_, state.cleaned, by rw [state.reported, List.take_length]⟩
  | fails error state =>
    cases state with
    | read path refused cleaned reported => exact ⟨_, cleaned, reported⟩
    | write path modified cleaned reported => exact ⟨_, cleaned, reported⟩
    | report path modified cleaned reported =>
      refine ⟨_, cleaned, ?_⟩
      rw [reported, List.take_add_one, path, List.filter_append, Option.toList_some,
        List.filter_cons_of_pos modified, List.filter_nil]

/-- Files whose paths lead to different places are swept exactly. -/
theorem each_exact {report : Reporter} (quiet : report.IsQuiet) (earlier : List Path)
    (apart : ps.Pairwise fs.Apart) : Exact fs ps (each false report earlier ps fs) := by
  induction ps generalizing earlier fs with
  | nil => exact .completes rfl ⟨Cleaned.none fs [], rfl, rfl, rfl, rfl⟩
  | cons p ps ih =>
    obtain ⟨hap, hps⟩ := List.pairwise_cons.mp apart
    cases read : fs.readText p with
    | error e =>
      rw [each_cons_unreadable read]
      exact .fails rfl (.read rfl read (Cleaned.none ..) rfl)
    | ok t =>
      have hmodifies := modifies_of_readText read
      cases changed : t.clean.changed with
      | false =>
        have hm : fs.modifies p = false := hmodifies.trans changed
        -- only modified files are counted, and from this one no line was removed
        have hz : fs.removedFrom p = 0 := by
          rw [removedFrom_of_readText read, Text.clean_of_not_changed changed]
        rw [each_cons_unmodified read changed]
        refine (ih earlier hps).cons (Cleaned.unmodified read changed) hap rfl ?_ rfl
          (fun _ => rfl) (fun t => ?_) (fun t => ?_)
        · simp [hm]
        · simp [Tally.examineOne, hm]
        · simp [Tally.examineOne, hz]
      | true =>
        have hm : fs.modifies p = true := hmodifies.trans changed
        cases write : fs.writeText p t.clean.text with
        | error e =>
          rw [each_cons_unwritable read changed write]
          exact .fails rfl (.write rfl hm (Cleaned.none ..) (by simp))
        | ok written =>
          have hp := Cleaned.written read write
          have hfile := (FileResult.written read changed rfl write).eq
          cases answer : (report earlier p written).2 with
          | some e =>
            rw [each_cons_refused quiet hfile answer]
            exact .fails rfl (.report rfl hm (hp.cons hap (Cleaned.none ..)) (by simp))
          | none =>
            have hps' : ps.Pairwise written.Apart := hps.imp fun h => (apart_congr hp.bare_eq).mpr h
            rw [each_cons_accepted quiet hfile answer]
            refine (ih (earlier ++ [p]) hps').cons hp hap rfl ?_ rfl
              (fun _ => rfl) (fun t => ?_) (fun t' => ?_)
            · simp [hm]
            · simp [Tally.examineOne, Tally.modifyOne, hm]
            · simp [Tally.examineOne, Tally.modifyOne, removedFrom_of_readText read]

/-- A sweep fails at one file only. -/
lemma FailsAt.unique {k k' : Nat} {e : Failure} (hps : ps.Nodup) (h : FailsAt fs ps w k e)
    (h' : FailsAt fs ps w k' e) : k = k' := by
  have hinj {p : Path} (hk : ps[k]? = some p) (hk' : ps[k']? = some p) : k = k' :=
    (List.getElem?_inj (List.getElem?_eq_some_iff.mp hk).1 hps).mp (hk.trans hk'.symm)
  cases h with
  | read path refused cleaned reported =>
    cases h' with
    | read path' refused' cleaned' reported' => exact hinj path path'
  | write path modified cleaned reported =>
    cases h' with
    | write path' modified' cleaned' reported' => exact hinj path path'
  | report path modified cleaned reported =>
    cases h' with
    | report path' modified' cleaned' reported' =>
      rw [reported] at reported'
      obtain ⟨-, hlast⟩ := List.append_inj' reported' rfl
      cases hlast
      exact hinj path path'

/-- A sweep that writes either fails before it touches a file, as the walk fails, or it cleans the
files that were collected: all of them, or those before the one file at which it fails. -/
theorem tree_exact (s : Selection) (fs : FileSystem) {report : Reporter}
    (quiet : report.IsQuiet) :
    (∀ t, (tree s false report fs).outcome = .ok t →
      ∃ ps, s.collect fs = .ok ps ∧ Completes fs ps (tree s false report fs) t) ∧
    (∀ e, (tree s false report fs).outcome = .error e →
      (∃ p cause, s.collect fs = .error (p, cause) ∧ e = .walk p cause ∧
        (tree s false report fs).files = fs ∧ (tree s false report fs).reported = []) ∨
      ∃ ps, s.collect fs = .ok ps ∧ ∃! k, FailsAt fs ps (tree s false report fs) k e) := by
  unfold tree
  cases hc : s.collect fs with
  | error failure =>
    obtain ⟨p, cause⟩ := failure
    refine ⟨fun t ht => ?_, fun e he => ?_⟩
    · cases ht
    · cases he
      exact .inl ⟨p, cause, rfl, rfl, rfl, rfl⟩
  | ok ps =>
    cases each_exact quiet [] (Selection.collect_pairwise_apart hc) with
    | completes ok state =>
      refine ⟨fun t ht => ⟨ps, rfl, ?_⟩, fun e he => ?_⟩
      · rw [ok] at ht
        cases ht
        exact state
      · rw [ok] at he
        cases he
    | @fails e k error state =>
      refine ⟨fun t ht => ?_, fun e' he => .inr ⟨ps, rfl, k, ?_, ?_⟩⟩
      · rw [error] at ht
        cases ht
      · rw [error] at he
        cases he
        exact state
      · intro k' hk'
        rw [error] at he
        cases he
        exact hk'.unique (Selection.collect_nodup hc) state

theorem tree_exact_two_files :
    let fs (content : Bytes) : FileSystem :=
      ⟨.dir {} [(⟨[0x62, 0x2E, 0x70], by decide⟩, .file {} content),
        (⟨[0x61, 0x2E, 0x70], by decide⟩, .file {} (Utf8.encode "logger.info();\nx".toList))], []⟩
    let s : Selection := ⟨[0x2E], [['p']], []⟩
    let first : Path := [0x2E, 0x2F, 0x61, 0x2E, 0x70]
    let second : Path := [0x2E, 0x2F, 0x62, 0x2E, 0x70]
    let w (content : Bytes) : Sweep := tree s false (Output.reporter {}) (fs content)
    Completes (fs [0x78]) [first, second] (w [0x78]) ⟨2, [first], 1⟩ ∧
    ∃! k, FailsAt (fs [0xFF]) [first, second] (w [0xFF]) k (.read second .invalidText) := by
  intro fs s first second w
  have hc (content : Bytes) : s.collect (fs content) = .ok [first, second] := rfl
  constructor
  · obtain ⟨ps, hps, h⟩ := (tree_exact s (fs [0x78]) (Output.reporter_isQuiet {})).1 _ rfl
    obtain rfl : [first, second] = ps := Except.ok.inj ((hc _).symm.trans hps)
    exact h
  · rcases (tree_exact s (fs [0xFF]) (Output.reporter_isQuiet {})).2 _ rfl with
      ⟨p, cause, -, he, -⟩ | ⟨ps, hps, h⟩
    · cases he
    · obtain rfl : [first, second] = ps := Except.ok.inj ((hc _).symm.trans hps)
      exact h

end Sweep
end LogSweep
