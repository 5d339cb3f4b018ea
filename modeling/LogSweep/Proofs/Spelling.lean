import LogSweep.Proofs.Decoding
import LogSweep.Proofs.WalkOrder

/-! The spelling of paths against the names that are excluded. A path below another one has the
components of this one and then its names, so what is excluded by its last name keeps out all that
lies below, as long as no excluded name has a slash. -/
namespace LogSweep

namespace Path

variable {p : Path}

lemma ofPart_name (n : Name) : Component.ofPart n.bytes = .name n.bytes := by
  rw [Component.ofPart, if_neg n.bytes_ne_dot, if_neg n.bytes_ne_dot_dot]

lemma below_ne_nil (hp : p ≠ []) (names : List Name) : p.below names ≠ [] := by
  induction names generalizing p with
  | nil => exact hp
  | cons n names ih => exact ih (join_name_ne_nil p n)

lemma below_append (p : Path) (names more : List Name) :
    p.below (names ++ more) = (p.below names).below more :=
  List.foldl_append

/-- Names below a path are components behind those of the path. -/
theorem components_below (hp : p ≠ []) (names : List Name) :
    (p.below names).components = p.components ++ names.map fun n => .name n.bytes := by
  have hnames : (names.map Name.bytes).map Component.ofPart =
      names.map fun n => Component.name n.bytes := by
    rw [List.map_map]
    exact List.map_congr_left fun n _ => ofPart_name n
  have hkeep : (names.map fun n => Component.name n.bytes).filter (· ≠ .here) =
      names.map fun n => Component.name n.bytes := by
    rw [List.filter_eq_self]
    simp
  unfold components
  dsimp only
  rw [isAbsolute_below hp, parts_below, List.map_append, hnames]
  split
  · rw [List.filter_append, hkeep, List.cons_append]
  · cases p.parts.map Component.ofPart with
    | nil =>
      cases names with
      | nil => rfl
      | cons n names => exact hkeep
    | cons c cs =>
      have hfilter : (c :: cs ++ names.map fun n => Component.name n.bytes).filter (· ≠ .here) =
          (c :: cs).filter (· ≠ .here) ++ names.map fun n => Component.name n.bytes := by
        rw [List.filter_append, hkeep]
      cases c with
      | here => simp only [List.cons_append, List.filter_append, hkeep]
      | root => exact hfilter
      | parent => exact hfilter
      | name m => exact hfilter

lemma lastName_join (hp : p ≠ []) (n : Name) : (p.join n.bytes).lastName = n.bytes := by
  have hc : (p.join n.bytes).components = p.components ++ [.name n.bytes] :=
    components_below hp [n]
  rw [lastName, fileName?, hc, List.getLast?_concat]
  rfl

/-- A path without a slash is one component. -/
lemma components_of_notMem (hs : slash ∉ p) (hp : p ≠ []) : p.components = [.ofPart p] := by
  have hparts : p.parts = [p] := by
    rw [parts, List.splitOn_eq_singleton hs]
    simpa using hp
  unfold components
  rw [hparts, isAbsolute_eq_false hs]
  cases h : Component.ofPart p <;> simp [h]

/-! What the components of a path tell. -/

variable {p' : Path} {names names' : List Name}

/-- The component at which a path starts, where it shows: the root, or a `.` in front of a relative
path. -/
def start (p : Path) : List Component :=
  if p.isAbsolute then [.root] else if p.parts.head? = some [dot] then [.here] else []

lemma ofPart_ne_root (n : Part) : Component.ofPart n ≠ .root := by
  unfold Component.ofPart
  split_ifs <;> nofun

lemma ofPart_eq_here {n : Part} : Component.ofPart n = .here ↔ n = [dot] := by
  unfold Component.ofPart
  split_ifs <;> simp_all

/-- The components of a path are those of its parts but for each `.`, behind the one at which the
path starts. -/
lemma components_eq (p : Path) :
    p.components = p.start ++ (p.parts.map Component.ofPart).filter (· ≠ .here) := by
  unfold components start
  dsimp only
  split
  · rfl
  · cases p.parts with
    | nil => rfl
    | cons n parts =>
      by_cases hn : n = [dot]
      · subst hn
        rfl
      · have hpart : Component.ofPart n ≠ .here := fun h => hn (ofPart_eq_here.mp h)
        rw [List.map_cons, List.head?_cons, if_neg (by simpa using hn), List.nil_append]
        split
        · next heq => exact absurd (List.cons.inj heq).1 hpart
        · rfl

lemma root_mem_components : .root ∈ p.components ↔ p.isAbsolute = true := by
  rw [components_eq, start]
  split_ifs with h <;> simp [h, ofPart_ne_root]

/-- The parts of a path that are not `.` are told by its components. -/
lemma filter_parts (p : Path) :
    p.parts.filter (· ≠ [dot]) =
      (p.components.filter fun c => c ≠ .root ∧ c ≠ .here).map Component.spelling := by
  have hnone : p.start.filter (fun c => c ≠ .root ∧ c ≠ .here) = [] := by
    unfold start
    split_ifs <;> rfl
  rw [components_eq, List.filter_append, hnone, List.nil_append, List.filter_filter, List.filter_map,
    List.map_map]
  have hspelling : Component.spelling ∘ Component.ofPart = id :=
    funext Component.spelling_ofPart
  rw [hspelling, List.map_id]
  exact List.filter_congr fun n _ => by simp [ofPart_ne_root, ofPart_eq_here]

lemma below_injective (h : p.below names = p.below names') : names = names' := by
  have hparts := congrArg parts h
  rw [parts_below, parts_below, List.append_cancel_left_eq] at hparts
  exact List.map_injective_iff.mpr (fun _ _ => Name.ext_bytes) hparts

/-- Names below paths with the same components give paths with the same components. -/
lemma components_below_congr (hp' : p' ≠ []) (hp : p ≠ []) (h : p'.components = p.components)
    (names : List Name) : (p'.below names).components = (p.below names).components := by
  rw [components_below hp', h, components_below hp]

/-- Any byte but the slash comes from the path or from a name. -/
lemma mem_below {b : UInt8} (hb : b ≠ slash) (p : Path) (names : List Name) :
    b ∈ p.below names ↔ b ∈ p ∨ ∃ n ∈ names, b ∈ n.bytes := by
  induction names generalizing p with
  | nil => simp
  | cons n names ih =>
    have hjoin : b ∈ p.join n.bytes ↔ b ∈ p ∨ b ∈ n.bytes := by
      unfold join
      rw [if_neg (by simp [isAbsolute_eq_false n.slash_notMem_bytes])]
      split <;> simp [hb]
    rw [below_cons, ih, hjoin, List.exists_mem_cons_iff, or_assoc]

end Path

namespace Selection

variable {s : Selection} {p : Path}

/-- A file is a candidate by the components of its path. -/
lemma isCandidate_congr {p' : Path} (h : p'.components = p.components) :
    s.isCandidate p' = s.isCandidate p := by
  rw [isCandidate, isCandidate, hasExtension, hasExtension, Path.extension?, Path.extension?,
    Path.fileName?, Path.fileName?, h]

/-- Where the last name of a path is excluded, or its whole spelling instead, one of its components
is. -/
lemma excludes_component (named : ∀ n ∈ s.excluded, '/' ∉ n) (hp : p ≠ [])
    (h : s.excludes p.lastName = true) : ∃ c ∈ p.components, s.excludes c.spelling = true := by
  unfold Path.lastName Path.fileName? at h
  split at h
  · next n hlast => exact ⟨_, List.mem_of_getLast? hlast, h⟩
  · -- the spelling is excluded, so it has no slash and is a component itself
    have hs : Path.slash ∉ p := fun hs => by
      obtain ⟨t, ht, hmem⟩ := (Option.any_eq_true ..).mp h
      exact named t (by simpa using hmem) (Utf8.char_mem_of_decode? ht hs (by decide))
    refine ⟨.ofPart p, ?_, ?_⟩
    · rw [Path.components_of_notMem hs hp]
      exact List.mem_singleton_self _
    · rwa [Path.Component.spelling_ofPart]

/-- No file below a path with an excluded last name is a candidate. -/
theorem not_isCandidate_below (named : ∀ n ∈ s.excluded, '/' ∉ n) (hp : p ≠ [])
    (h : s.excludes p.lastName = true) (names : List Name) :
    s.isCandidate (p.below names) = false := by
  obtain ⟨c, hc, hx⟩ := excludes_component named hp h
  have hmem : c ∈ (p.below names).components := by
    rw [Path.components_below hp]
    exact List.mem_append_left _ hc
  have hany : (p.below names).components.any (fun c => s.excludes c.spelling) = true :=
    List.any_eq_true.mpr ⟨c, hmem, hx⟩
  rw [isCandidate, hany, Bool.not_true, Bool.and_false]

end Selection
end LogSweep
