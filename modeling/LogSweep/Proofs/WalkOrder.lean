import LogSweep.Proofs.Contents
import LogSweep.Walk
import Mathlib.Data.List.Sort

/-! The files that a walk visits: each lies where its path says, below the path from which the walk
starts, and they come in the order of the names on their paths, so none comes twice. -/
namespace LogSweep

namespace Name

lemma lt_iff {a b : Name} : a < b ↔ a.bytes < b.bytes := Iff.rfl

lemma lt_irrefl (a : Name) : ¬ a < a := List.lt_irrefl a.bytes

lemma lt_trans {a b c : Name} (h : a < b) (h' : b < c) : a < c := by
  rw [lt_iff] at *
  exact List.lt_trans h h'

lemma lt_of_not_lt {a b : Name} (h : ¬ a < b) (hne : a ≠ b) : b < a := by
  by_contra hba
  have hle : b.bytes ≤ a.bytes := List.not_lt.mp h
  have hle' : a.bytes ≤ b.bytes := List.not_lt.mp hba
  exact hne (ext_bytes (List.le_antisymm hle' hle))

end Name

namespace Path

/-- The path to which names lead below a path. -/
def below (p : Path) (names : List Name) : Path := names.foldl (fun q n => q.join n.bytes) p

@[simp] lemma below_nil (p : Path) : p.below [] = p := rfl

lemma below_cons (p : Path) (n : Name) (names : List Name) :
    p.below (n :: names) = (p.join n.bytes).below names := rfl

lemma parts_join_name (p : Path) (n : Name) : (p.join n.bytes).parts = p.parts ++ [n.bytes] :=
  parts_join n.bytes_ne_nil n.slash_notMem_bytes p

lemma parts_below (p : Path) (names : List Name) :
    (p.below names).parts = p.parts ++ names.map Name.bytes := by
  induction names generalizing p with
  | nil => simp
  | cons n names ih => rw [below_cons, ih, parts_join_name, List.append_assoc]; rfl

lemma join_name_ne_nil (p : Path) (n : Name) : p.join n.bytes ≠ [] := by
  obtain ⟨q, hq⟩ := join_eq_append n.slash_notMem_bytes p
  rw [hq]
  exact List.append_ne_nil_of_right_ne_nil q n.bytes_ne_nil

lemma isAbsolute_below {p : Path} (hp : p ≠ []) (names : List Name) :
    (p.below names).isAbsolute = p.isAbsolute := by
  induction names generalizing p with
  | nil => rfl
  | cons n names ih =>
    rw [below_cons, ih (join_name_ne_nil p n), isAbsolute_join hp n.slash_notMem_bytes]

/-- A path below another one ends in no slash. -/
lemma steps_below (p : Path) {names : List Name} (h : names ≠ []) :
    FileSystem.steps (p.below names) = p.parts ++ names.map Name.bytes := by
  obtain ⟨init, n, rfl⟩ := (List.eq_nil_or_concat' names).resolve_left h
  have hlast : (p.below (init ++ [n])).getLast? ≠ some slash := by
    have hb : p.below (init ++ [n]) = (p.below init).join n.bytes := by simp [below]
    obtain ⟨q, hq⟩ := join_eq_append n.slash_notMem_bytes (p.below init)
    rw [hb, hq, List.getLast?_append_of_ne_nil q n.bytes_ne_nil]
    exact fun hs => n.slash_notMem_bytes (List.mem_of_getLast? hs)
  rw [FileSystem.steps, if_neg hlast, List.append_nil, parts_below]

end Path

namespace Walk

/-- Things by name, in the order of names. -/
def Ordered {α : Type} (l : List (Name × α)) : Prop := l.Pairwise fun x y => x.1 < y.1

/-- A thing takes the place of one of its name and leaves all others. -/
lemma mem_arrange_iff {α : Type} {n : Name} {x : α} {l : List (Name × α)} (hl : Ordered l)
    {y : Name × α} : y ∈ arrange n x l ↔ y = (n, x) ∨ y ∈ l ∧ y.1 ≠ n := by
  induction l with
  | nil => simp [arrange]
  | cons z rest ih =>
    obtain ⟨m, w⟩ := z
    obtain ⟨hz, hrest⟩ := List.pairwise_cons.mp hl
    rw [arrange]
    split
    · next hlt =>
      have hbefore : ∀ z ∈ (m, w) :: rest, n < z.1 := by
        intro z hmem
        rcases List.mem_cons.mp hmem with rfl | hmem
        · exact hlt
        · exact Name.lt_trans hlt (hz z hmem)
      have hne : ∀ z ∈ (m, w) :: rest, z.1 ≠ n := fun z hmem he =>
        n.lt_irrefl (he ▸ hbefore z hmem)
      rw [List.mem_cons]
      exact or_congr_right ⟨fun h => ⟨h, hne y h⟩, fun h => h.1⟩
    · next hlt =>
      split
      · next heq =>
        subst heq
        have hne : ∀ z ∈ rest, z.1 ≠ n := fun z hmem he => n.lt_irrefl (he ▸ hz z hmem)
        simp only [List.mem_cons]
        grind
      · next hne =>
        simp only [List.mem_cons, ih hrest]
        grind

lemma ordered_arrange {α : Type} {n : Name} {x : α} {l : List (Name × α)} (hl : Ordered l) :
    Ordered (arrange n x l) := by
  induction l with
  | nil => simp [arrange, Ordered]
  | cons z rest ih =>
    obtain ⟨m, w⟩ := z
    obtain ⟨hz, hrest⟩ := List.pairwise_cons.mp hl
    rw [arrange]
    split
    · next hlt =>
      refine List.pairwise_cons.mpr ⟨fun y hy => ?_, hl⟩
      rcases List.mem_cons.mp hy with rfl | hy
      · exact hlt
      · exact Name.lt_trans hlt (hz y hy)
    · next hlt =>
      split
      · next heq =>
        subst heq
        exact List.pairwise_cons.mpr ⟨hz, hrest⟩
      · next hne =>
        refine List.pairwise_cons.mpr ⟨fun y hy => ?_, ih hrest⟩
        rcases (mem_arrange_iff hrest).mp hy with rfl | ⟨hy, -⟩
        · exact Name.lt_of_not_lt hlt hne
        · exact hz y hy

/-- What is made of the entries of a directory, by name and in the order of names. -/
def byName {α : Type} (f : Name → Entry → α) : List (Name × Entry) → List (Name × α)
  | [] => []
  | (n, e) :: rest => arrange n (f n e) (byName f rest)

section
variable {α β : Type} {f f' : Name → Entry → α} {entries : List (Name × Entry)}

lemma ordered_byName (f : Name → Entry → α) (entries : List (Name × Entry)) :
    Ordered (byName f entries) := by
  induction entries with
  | nil => exact .nil
  | cons x rest ih => exact ordered_arrange ih

/-- Only the first entry of a name counts. -/
lemma mem_byName_iff {n : Name} {x : α} :
    (n, x) ∈ byName f entries ↔ ∃ e, Entry.child? n entries = some e ∧ x = f n e := by
  induction entries with
  | nil => simp [byName, Entry.child?_nil]
  | cons y rest ih =>
    obtain ⟨m, e⟩ := y
    rw [byName, mem_arrange_iff (ordered_byName ..), Entry.child?_cons, ih]
    by_cases hm : m = n
    · subst hm
      simp
    · simp [hm, Ne.symm hm]

lemma byName_congr (h : ∀ n e, Entry.child? n entries = some e → f n e = f' n e) :
    byName f entries = byName f' entries := by
  have : Std.Irrefl fun x y : Name × α => x.1 < y.1 := ⟨fun x => x.1.lt_irrefl⟩
  have : Std.Antisymm fun x y : Name × α => x.1 < y.1 :=
    ⟨fun x _ h h' => absurd (Name.lt_trans h h') x.1.lt_irrefl⟩
  refine (ordered_byName f entries).eq_of_mem_iff (ordered_byName f' entries) ?_
  rintro ⟨n, x⟩
  rw [mem_byName_iff, mem_byName_iff]
  refine exists_congr fun e => and_congr_right fun he => ?_
  rw [h n e he]

lemma map_arrange (g : α → β) (n : Name) (x : α) (l : List (Name × α)) :
    (arrange n x l).map (fun y => (y.1, g y.2)) =
      arrange n (g x) (l.map fun y => (y.1, g y.2)) := by
  induction l with
  | nil => rfl
  | cons y rest ih =>
    obtain ⟨m, y⟩ := y
    simp only [arrange, List.map_cons]
    split
    · rfl
    split
    · rfl
    · rw [List.map_cons, ih]

lemma map_byName (g : α → β) (f : Name → Entry → α) (entries : List (Name × Entry)) :
    (byName f entries).map (fun y => (y.1, g y.2)) = byName (fun n e => g (f n e)) entries := by
  induction entries with
  | nil => rfl
  | cons x rest ih => rw [byName, map_arrange, ih, byName]

lemma flatMap_byName_congr {γ : Type} {f : Name → Entry → α} {f' : Name → Entry → β}
    (g : α → List γ) (g' : β → List γ)
    (h : ∀ n e, Entry.child? n entries = some e → g (f n e) = g' (f' n e)) :
    (byName f entries).flatMap (fun y => g y.2) =
      (byName f' entries).flatMap fun y => g' y.2 := by
  have hmap := byName_congr h
  rw [← map_byName g f, ← map_byName g' f'] at hmap
  simpa only [List.flatMap_map] using congrArg (List.flatMap (·.2)) hmap

end

lemma visitsBelow_eq_byName (skip : Name → Bool) (reachable : Bool) (entries : List (Name × Entry))
    (p : Path) :
    visitsBelow skip reachable entries p = byName
      (fun n e => if e.isDir && skip n then [] else visits skip reachable e (p.join n.bytes))
      entries := by
  induction entries with
  | nil => rfl
  | cons x rest ih => rw [visitsBelow, ih, byName]

lemma ordered_visitsBelow (skip : Name → Bool) (reachable : Bool) (entries : List (Name × Entry))
    (p : Path) : Ordered (visitsBelow skip reachable entries p) := by
  rw [visitsBelow_eq_byName]
  exact ordered_byName ..

/-- The visits below a directory come from its entries by name. -/
lemma mem_visitsBelow_iff {skip : Name → Bool} {reachable : Bool} {entries : List (Name × Entry)}
    {p : Path} {n : Name} {vs : List Visit} :
    (n, vs) ∈ visitsBelow skip reachable entries p ↔ ∃ e, Entry.child? n entries = some e ∧
      vs = if e.isDir && skip n then [] else visits skip reachable e (p.join n.bytes) := by
  rw [visitsBelow_eq_byName, mem_byName_iff]

lemma mem_files_iff {q : Path} {vs : List Visit} :
    q ∈ vs.filterMap Visit.file? ↔ .file q ∈ vs := by
  rw [List.mem_filterMap]
  constructor
  · rintro ⟨v, hv, hq⟩
    cases v with
    | file p =>
      cases hq
      exact hv
    | failure p e => cases hq
  · exact fun h => ⟨_, h, rfl⟩

variable {skip : Name → Bool} {reachable : Bool} {e : Entry} {p q : Path}

/-- A file is visited by the path of the place where it lies. -/
theorem file_of_mem_visits (h : .file q ∈ visits skip reachable e p) :
    ∃ names access content, q = p.below names ∧ e.get? names = some (.file access content) := by
  induction e using Entry.induct generalizing p reachable with
  | file access content =>
    rw [visits, List.mem_singleton] at h
    cases h
    exact ⟨[], access, content, rfl, rfl⟩
  | link target => simp [visits] at h
  | dir access entries ih =>
    rw [visits] at h
    split at h
    · simp at h
    split at h
    · obtain ⟨⟨n, vs⟩, hmem, hq⟩ := List.mem_flatMap.mp h
      obtain ⟨e, he, rfl⟩ := mem_visitsBelow_iff.mp hmem
      split at hq
      · simp at hq
      · obtain ⟨names, access', content, hpath, hg⟩ := ih n e he hq
        refine ⟨n :: names, access', content, hpath, ?_⟩
        rw [Entry.get?_cons_dir, he, Option.bind_some, hg]
    · simp at h

/-- The files that are visited below an entry of a directory have its name on their paths. -/
lemma below_of_mem_visitsBelow {entries : List (Name × Entry)} {n : Name} {vs : List Visit}
    (h : (n, vs) ∈ visitsBelow skip reachable entries p) (hq : q ∈ vs.filterMap Visit.file?) :
    ∃ names, q = p.below (n :: names) := by
  obtain ⟨e, he, rfl⟩ := mem_visitsBelow_iff.mp h
  split at hq
  · cases hq
  · obtain ⟨names, access, content, hpath, -⟩ := file_of_mem_visits (mem_files_iff.mp hq)
    exact ⟨names, hpath⟩

/-- The files of a walk come in the order of the names on their paths. -/
theorem visits_files_pairwise (skip : Name → Bool) (reachable : Bool) (e : Entry) (p : Path) :
    ((visits skip reachable e p).filterMap Visit.file?).Pairwise
      fun a b => a.parts < b.parts := by
  induction e using Entry.induct generalizing p reachable with
  | file access content => simp [visits, Visit.file?]
  | link target => simp [visits]
  | dir access entries ih =>
    rw [visits]
    split
    · exact .nil
    split
    · rw [List.filterMap_flatMap, List.pairwise_flatMap]
      constructor
      · rintro ⟨n, vs⟩ hmem
        obtain ⟨e, he, rfl⟩ := mem_visitsBelow_iff.mp hmem
        dsimp only
        split
        · exact .nil
        · exact ih n e he _ _
      · refine List.Pairwise.imp_of_mem ?_ (ordered_visitsBelow skip access.search entries p)
        rintro ⟨n, vs⟩ ⟨m, ws⟩ hn hm hlt a ha b hb
        obtain ⟨names, rfl⟩ := below_of_mem_visitsBelow hn ha
        obtain ⟨names', rfl⟩ := below_of_mem_visitsBelow hm hb
        rw [Path.parts_below, Path.parts_below]
        exact List.append_left_lt (List.Lex.rel hlt)
    · exact .nil

end Walk
end LogSweep
