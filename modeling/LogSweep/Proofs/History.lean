import LogSweep.Program
import LogSweep.Proofs.NormalForm
import LogSweep.Proofs.SweepStep

/-! Histories of operations. However often and in whatever way a file system is swept, with runs
that succeed and runs that fail, every file that holds a text holds it as it was or cleaned once,
and nothing else changes. -/
namespace LogSweep

/-- One use of the program or of a part of it. -/
inductive Operation where
  | collect (s : Selection)
  | file (dryRun : Bool) (p : Path)
  | tree (s : Selection) (dryRun : Bool) (report : Reporter) (quiet : report.IsQuiet)
  | request (out : Output) (env : Environment) (r : Request)
  | execute (out : Output) (env : Environment) (args : List Bytes)

namespace Operation

/-- The files after an operation, whether it succeeds or fails. Collecting only reads. -/
def files : Operation → FileSystem → FileSystem
  | .collect _, fs => fs
  | .file dryRun p, fs => (Sweep.file dryRun p fs).files
  | .tree s dryRun report _, fs => (Sweep.tree s dryRun report fs).files
  | .request out env r, fs => (Run.request out env r fs).files
  | .execute out env args, fs => (Program.execute out env args fs).files

/-- The files after operations one after the other. -/
def filesAfter (ops : List Operation) (fs : FileSystem) : FileSystem :=
  ops.foldl (fun fs op => op.files fs) fs

end Operation

/-- Every file holds the content that it had, or what cleaning the text that it had gives. All else
is as it was. -/
structure AllOrNothing (old new : FileSystem) : Prop where
  bare_eq : new.bare = old.bare
  content : ∀ place, new.contentAt place = old.contentAt place ∨
    ∃ content t, old.contentAt place = some content ∧ Utf8.decode? content = some t ∧
      new.contentAt place = some (Utf8.encode t.clean.text)

namespace AllOrNothing

variable {old fs : FileSystem}

lemma refl (fs : FileSystem) : AllOrNothing fs fs := ⟨rfl, fun _ => .inl rfl⟩

/-- Cleaning the text that a file holds now gives what cleaning the text that it had gives. -/
lemma put (h : AllOrNothing old fs) {place : Place} {content : Bytes} {t : Text}
    (hc : fs.contentAt place = some content) (ht : Utf8.decode? content = some t) :
    AllOrNothing old (fs.put (Utf8.encode t.clean.text) place) := by
  refine ⟨by rw [FileSystem.bare_put, h.bare_eq], fun q => ?_⟩
  rw [FileSystem.contentAt_put]
  by_cases hq : q = place
  · subst hq
    rw [if_pos rfl, hc, Option.map_some]
    rcases h.content q with hold | ⟨first, t', hold, ht', hnew⟩
    · exact .inr ⟨content, t, hold ▸ hc, ht, rfl⟩
    · -- the file was cleaned before, and cleaning it once more changes nothing
      have he : content = Utf8.encode t'.clean.text := Option.some.inj (hc.symm.trans hnew)
      have htt : t = t'.clean.text := by simpa [he, eq_comm] using ht
      refine .inr ⟨first, t', hold, ht', ?_⟩
      rw [htt, Text.clean_of_isNormal (Text.isNormal_clean t')]
  · rw [if_neg hq]
    exact h.content q

lemma file (h : AllOrNothing old fs) (dryRun : Bool) (p : Path) :
    AllOrNothing old (Sweep.file dryRun p fs).files := by
  rcases (Sweep.file_result dryRun p fs).files_eq with hf | ⟨place, content, t, hc, ht, -, hf⟩
  · rwa [hf]
  · rw [hf]
    exact h.put hc ht

lemma tree (h : AllOrNothing old fs) (s : Selection) (dryRun : Bool) {report : Reporter}
    (quiet : report.IsQuiet) : AllOrNothing old (Sweep.tree s dryRun report fs).files :=
  Sweep.tree_preserves (fun p _ hfs => hfs.file dryRun p)
    (fun earlier p fs hfs => by rwa [quiet earlier p fs]) s fs h

lemma run (h : AllOrNothing old fs) (out : Output) (s : Selection) (dryRun : Bool) :
    AllOrNothing old (Run.sweep out s dryRun fs).files := by
  have ht := h.tree s dryRun out.reporter_isQuiet
  unfold Run.sweep
  dsimp only
  split
  · exact ht
  · split <;> exact ht

lemma request (h : AllOrNothing old fs) (out : Output) (env : Environment) (r : Request) :
    AllOrNothing old (Run.request out env r fs).files := by
  unfold Run.request
  split
  · exact h
  · exact h.run out _ _

lemma execute (h : AllOrNothing old fs) (out : Output) (env : Environment) (args : List Bytes) :
    AllOrNothing old (Program.execute out env args fs).files := by
  unfold Program.execute
  split
  · next i _ =>
    have hr := h.request out env i.request
    unfold Program.invoke
    dsimp only
    split <;> exact hr
  all_goals exact h

lemma operation (h : AllOrNothing old fs) (op : Operation) : AllOrNothing old (op.files fs) := by
  cases op with
  | collect s => exact h
  | file dryRun p => exact h.file dryRun p
  | tree s dryRun report quiet => exact h.tree s dryRun quiet
  | request out env r => exact h.request out env r
  | execute out env args => exact h.execute out env args

lemma operations (h : AllOrNothing old fs) (ops : List Operation) :
    AllOrNothing old (Operation.filesAfter ops fs) := by
  induction ops generalizing fs with
  | nil => exact h
  | cons op ops ih => exact ih (h.operation op)

end AllOrNothing

/-- After any sequence of operations the bare tree is the same, so no file, directory or link has
come or gone; a file that held a text holds exactly this text or exactly what cleaning it gives,
and a file that held no text holds the same bytes. -/
theorem filesAfter_allOrNothing (ops : List Operation) (fs : FileSystem) :
    (Operation.filesAfter ops fs).bare = fs.bare ∧
    ∀ place content, fs.contentAt place = some content →
      (∀ t, Utf8.decode? content = some t →
        (Operation.filesAfter ops fs).contentAt place = some content ∨
        (Operation.filesAfter ops fs).contentAt place = some (Utf8.encode t.clean.text)) ∧
      (Utf8.decode? content = none →
        (Operation.filesAfter ops fs).contentAt place = some content) := by
  have h := (AllOrNothing.refl fs).operations ops
  refine ⟨h.bare_eq, fun place content hc => ?_⟩
  rcases h.content place with hsame | ⟨content', t', hc', ht', hnew⟩
  · rw [hc] at hsame
    exact ⟨fun _ _ => .inl hsame, fun _ => hsame⟩
  · obtain rfl : content = content' := Option.some.inj (hc.symm.trans hc')
    constructor
    · intro t ht
      obtain rfl : t = t' := Option.some.inj (ht.symm.trans ht')
      exact .inr hnew
    · intro hn
      rw [ht'] at hn
      cases hn

theorem filesAfter_two_files :
    let a : Name := ⟨[0x61], by decide⟩
    let b : Name := ⟨[0x62], by decide⟩
    let t : Text := "logger.info();\nx".toList
    let fs : FileSystem := ⟨.dir {} [(a, .file {} (Utf8.encode t)), (b, .file {} [0xFF])], []⟩
    let ops : List Operation :=
      [.file false [0x61], .execute { refusal := some .noSpace } {} [], .file false [0x62]]
    (Operation.filesAfter ops fs).bare = fs.bare ∧
    ((Operation.filesAfter ops fs).contentAt [a] = some (Utf8.encode t) ∨
      (Operation.filesAfter ops fs).contentAt [a] = some (Utf8.encode t.clean.text)) ∧
    (Operation.filesAfter ops fs).contentAt [b] = some [0xFF] := by
  intro a b t fs ops
  have h := filesAfter_allOrNothing ops fs
  exact ⟨h.1, (h.2 [a] _ rfl).1 t (Utf8.decode?_encode t), (h.2 [b] [0xFF] rfl).2 (by decide)⟩

end LogSweep
