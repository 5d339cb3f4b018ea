import LogSweep.Proofs.Spelling
import Mathlib.Data.List.TakeWhile

/-! What decides on a file, read off the bytes of its path. The components of a path spell the
parts between its slashes but for those that show nothing, and its extension is what stands behind
the last dot of the last of them. So slashes and dots that show nothing change no answer. -/
namespace LogSweep

namespace Path

variable {p q : Path} {n stem ext : Part}

/-- The parts of a path that show: of those between its slashes the ones that are neither empty nor
`.`, behind the root of an absolute path or the `.` at the start of a relative one. -/
def shownParts (p : Path) : List Part :=
  let shown := (p.splitOn slash).filter fun n => n ≠ [] ∧ n ≠ [dot]
  if p.isAbsolute then [slash] :: shown
  else if (p.splitOn slash).head? = some [dot] then [dot] :: shown
  else shown

lemma slash_notMem_of_mem_splitOn (hn : n ∈ p.splitOn slash) : slash ∉ n := by
  induction p generalizing n with
  | nil =>
    obtain rfl : n = [] := by simpa using hn
    exact List.not_mem_nil
  | cons b p ih =>
    rw [List.splitOn_cons_eq_if_modifyHead] at hn
    split at hn
    · rcases List.mem_cons.mp hn with rfl | hn
      · exact List.not_mem_nil
      · exact ih hn
    · next hb =>
      obtain ⟨m, ms, hsplit⟩ := List.exists_cons_of_ne_nil (List.splitOn_ne_nil slash p)
      rw [hsplit, List.modifyHead_cons] at hn
      rw [hsplit] at ih
      rcases List.mem_cons.mp hn with rfl | hn
      · have hm := ih List.mem_cons_self
        simp only [List.mem_cons, not_or]
        exact ⟨fun h => hb (beq_iff_eq.mpr h.symm), hm⟩
      · exact ih (List.mem_cons_of_mem _ hn)

/-- A relative path starts with its first part. -/
lemma head?_parts_of_relative (hp : p ≠ []) (relative : p.isAbsolute = false) :
    ∃ n, p.parts.head? = some n ∧ (p.splitOn slash).head? = some n := by
  cases p with
  | nil => exact absurd rfl hp
  | cons b p =>
    have hb : (b == slash) = false := relative
    obtain ⟨m, ms, hsplit⟩ := List.exists_cons_of_ne_nil (List.splitOn_ne_nil slash p)
    refine ⟨b :: m, ?_, ?_⟩ <;>
      simp [parts, List.splitOn_cons_eq_if_modifyHead, hb, hsplit]

/-- The components of a path spell the parts that show. -/
theorem map_spelling_components (p : Path) :
    p.components.map Component.spelling = p.shownParts := by
  have hspelling : Component.spelling ∘ Component.ofPart = id :=
    funext Component.spelling_ofPart
  have hshown : (p.splitOn slash).filter (fun n => n ≠ [] ∧ n ≠ [dot]) =
      ((p.parts.map Component.ofPart).filter (· ≠ .here)).map Component.spelling := by
    rw [List.filter_map, List.map_map, hspelling, List.map_id, parts, List.filter_filter]
    exact List.filter_congr fun n _ => by cases n <;> simp [ofPart_eq_here]
  rw [components_eq, List.map_append, ← hshown, start, shownParts]
  by_cases habsolute : p.isAbsolute = true
  · rw [if_pos habsolute, if_pos habsolute]
    rfl
  · rw [if_neg habsolute, if_neg habsolute]
    by_cases hp : p = []
    · subst hp
      rfl
    · obtain ⟨n, hparts, hsplit⟩ :=
        head?_parts_of_relative hp (Bool.eq_false_iff.mpr habsolute)
      rw [hparts, hsplit]
      split <;> rfl

lemma name_mem_components (h : .name n ∈ p.components) :
    slash ∉ n ∧ n ≠ [dot] ∧ n ≠ [dot, dot] := by
  rw [components_eq, List.mem_append] at h
  have hstart : .name n ∉ p.start := by
    unfold start
    split_ifs <;> simp
  have hmem := (List.mem_filter.mp (h.resolve_left hstart)).1
  obtain ⟨m, hm, hname⟩ := List.mem_map.mp hmem
  have hslash := slash_notMem_of_mem_splitOn (List.mem_of_mem_filter hm)
  unfold Component.ofPart at hname
  split_ifs at hname with hdot hdots
  cases hname
  exact ⟨hslash, hdot, hdots⟩

/-- The name that a path ends in is its last part that shows, unless that is the root, `.` or `..`.
-/
theorem fileName?_eq_some_iff : p.fileName? = some n ↔
    p.shownParts.getLast? = some n ∧ n ∉ ([[slash], [dot], [dot, dot]] : List Part) := by
  rw [← map_spelling_components, List.getLast?_map, fileName?]
  cases hlast : p.components.getLast? with
  | none => simp
  | some c =>
    cases c with
    | root => simp +contextual [Component.spelling, eq_comm]
    | here => simp +contextual [Component.spelling, eq_comm]
    | parent => simp +contextual [Component.spelling, eq_comm]
    | name m =>
      obtain ⟨hslash, hdot, hdots⟩ := name_mem_components (List.mem_of_getLast? hlast)
      have hroot : m ≠ [slash] := fun hm => hslash (hm ▸ List.mem_singleton_self slash)
      constructor
      · intro h
        obtain rfl := Option.some.inj h
        exact ⟨rfl, by simp [hroot, hdot, hdots]⟩
      · exact fun h => h.1

lemma extensionOf_append (h : dot ∉ ext) (stem : Part) :
    extensionOf (stem ++ dot :: ext) = if stem = [] then none else some ext := by
  have hrun : (stem ++ dot :: ext).reverse.takeWhile (· ≠ dot) = ext.reverse := by
    have hall : ∀ b ∈ ext.reverse, decide (b ≠ dot) = true := fun b hb =>
      decide_eq_true fun hdot => h (hdot ▸ List.mem_reverse.mp hb)
    rw [List.reverse_append, List.reverse_cons, List.append_assoc,
      List.takeWhile_append_of_pos hall, List.singleton_append,
      List.takeWhile_cons_of_neg (by simp), List.append_nil]
  rw [extensionOf, hrun]
  cases stem with
  | nil => simp
  | cons b stem => simp; omega

lemma extensionOf_eq_none (h : dot ∉ n) : extensionOf n = none := by
  have hrun : n.reverse.takeWhile (· ≠ dot) = n.reverse := by
    rw [List.takeWhile_eq_self_iff]
    simpa using fun b hb (hdot : b = dot) => h (hdot ▸ hb)
  rw [extensionOf, hrun]
  simp

/-- The extension of a name is what stands behind its last dot, where something stands in front. -/
theorem extensionOf_eq_some_iff :
    extensionOf n = some ext ↔ ∃ stem, stem ≠ [] ∧ n = stem ++ dot :: ext ∧ dot ∉ ext := by
  constructor
  · intro h
    by_cases hdot : dot ∈ n
    · obtain ⟨behind, front, hn, hbehind⟩ :=
        List.eq_append_cons_of_mem (List.mem_reverse.mpr hdot)
      have hn : n = front.reverse ++ dot :: behind.reverse := by
        rw [← List.reverse_reverse n, hn]
        simp
      have hbehind : dot ∉ behind.reverse := fun hmem => hbehind (List.mem_reverse.mp hmem)
      rw [hn, extensionOf_append hbehind] at h
      split at h
      · cases h
      · next hfront =>
        obtain rfl := Option.some.inj h
        exact ⟨front.reverse, hfront, hn, hbehind⟩
    · rw [extensionOf_eq_none hdot] at h
      cases h
  · rintro ⟨stem, hstem, rfl, hext⟩
    rw [extensionOf_append hext, if_neg hstem]

lemma extension?_eq_some_iff : p.extension? = some ext ↔ ∃ stem,
    p.shownParts.getLast? = some (stem ++ dot :: ext) ∧
      stem ++ dot :: ext ∉ ([[slash], [dot], [dot, dot]] : List Part) ∧ stem ≠ [] ∧ dot ∉ ext := by
  simp only [extension?, Option.bind_eq_some_iff, fileName?_eq_some_iff, extensionOf_eq_some_iff]
  constructor
  · rintro ⟨n, ⟨hlast, hname⟩, stem, hstem, rfl, hext⟩
    exact ⟨stem, hlast, hname, hstem, hext⟩
  · rintro ⟨stem, hlast, hname, hstem, hext⟩
    exact ⟨_, ⟨hlast, hname⟩, stem, hstem, rfl, hext⟩

/-- The extension of a path has neither a dot nor a slash. -/
lemma notMem_of_extension? (h : p.extension? = some ext) : dot ∉ ext ∧ slash ∉ ext := by
  obtain ⟨n, hn, hext⟩ := Option.bind_eq_some_iff.mp h
  obtain ⟨stem, -, rfl, hdot⟩ := extensionOf_eq_some_iff.mp hext
  unfold fileName? at hn
  split at hn
  · next m hlast =>
    obtain rfl := Option.some.inj hn
    have hslash := (name_mem_components (List.mem_of_getLast? hlast)).1
    exact ⟨hdot, fun hmem => hslash (by simp [hmem])⟩
  · cases hn

/-! Slashes and dots that show nothing. -/

lemma components_slash_cons (q : Path) :
    components (slash :: q) = .root :: (q.parts.map Component.ofPart).filter (· ≠ .here) := by
  have hparts : parts (slash :: q) = parts q := parts_append_slash [] q
  rw [components_eq, hparts]
  rfl

/-- What follows a slash puts its components behind those in front. -/
lemma components_append_slash (hp : p ≠ []) (q : Path) :
    (p ++ slash :: q).components =
      p.components ++ (q.parts.map Component.ofPart).filter (· ≠ .here) := by
  have hstart : (p ++ slash :: q).start = p.start := by
    have habsolute : (p ++ slash :: q).isAbsolute = p.isAbsolute := by
      rw [isAbsolute, isAbsolute, List.head?_append_of_ne_nil p hp]
    rw [start, start, habsolute, parts_append_slash]
    by_cases h : p.isAbsolute = true
    · rw [if_pos h, if_pos h]
    · obtain ⟨n, hparts, -⟩ := head?_parts_of_relative hp (Bool.eq_false_iff.mpr h)
      rw [List.head?_append, hparts, Option.some_or]
  rw [components_eq, hstart, parts_append_slash, List.map_append, List.filter_append,
    ← List.append_assoc, ← components_eq]

/-- Parts that are `.` show nothing behind a slash. -/
lemma filter_ofPart_dots (h : ∀ n ∈ q.parts, n = [dot]) :
    (q.parts.map Component.ofPart).filter (· ≠ .here) = [] := by
  rw [List.filter_eq_nil_iff]
  intro c hc
  obtain ⟨n, hn, rfl⟩ := List.mem_map.mp hc
  simpa [ofPart_eq_here] using h n hn

/-- A slash at the end of a path and parts behind it that are `.` are no components. -/
theorem components_append_dots (hp : p ≠ []) (h : ∀ n ∈ q.parts, n = [dot]) :
    (p ++ slash :: q).components = p.components := by
  rw [components_append_slash hp, filter_ofPart_dots h, List.append_nil]

/-- Slashes at the end of a path are no components. -/
lemma components_append_slashes (hp : p ≠ []) (slashes : Nat) :
    (p ++ List.replicate slashes slash).components = p.components := by
  cases slashes with
  | zero => rw [List.replicate_zero, List.append_nil]
  | succ slashes =>
    have hparts : parts (List.replicate slashes slash) = [] := by
      induction slashes with
      | zero => rfl
      | succ slashes ih => exact (parts_append_slash [] _).trans ih
    exact components_append_dots hp (by simp [hparts])

/-- A slash within a path and parts behind it that are `.` are no components. -/
theorem components_insert_dots (p : Path) (h : ∀ n ∈ q.parts, n = [dot]) (rest : Path) :
    (p ++ slash :: q ++ slash :: rest).components = (p ++ slash :: rest).components := by
  rw [components_append_slash (by simp)]
  by_cases hp : p = []
  · subst hp
    rw [List.nil_append, components_slash_cons, filter_ofPart_dots h, List.nil_append,
      components_slash_cons]
    rfl
  · rw [components_append_dots hp h, components_append_slash hp]

end Path

namespace Selection

variable {s : Selection} {p : Path} {n : Part}

lemma excludes_eq_true_iff : s.excludes n = true ↔ ∃ x ∈ s.excluded, Utf8.encode x = n := by
  simp only [excludes, Option.any_eq_true, List.contains_iff_mem, Utf8.decode?_eq_some_iff]
  exact exists_congr fun x => and_comm

/-- A component is excluded if a part that shows is the name. -/
lemma any_excludes_eq_false_iff : (p.components.any fun c => s.excludes c.spelling) = false ↔
    ∀ x ∈ s.excluded, Utf8.encode x ∉ p.shownParts := by
  rw [← Path.map_spelling_components, List.any_eq_false]
  constructor
  · rintro h x hx hmem
    obtain ⟨c, hc, hspelling⟩ := List.mem_map.mp hmem
    exact h c hc (excludes_eq_true_iff.mpr ⟨x, hx, hspelling.symm⟩)
  · intro h c hc hexcluded
    obtain ⟨x, hx, hspelling⟩ := excludes_eq_true_iff.mp hexcluded
    exact h x hx (hspelling ▸ List.mem_map_of_mem hc)

lemma hasExtension_eq_true_iff : s.hasExtension p = true ↔
    ∃ ext x, p.extension? = some ext ∧ Utf8.decode? ext = some x ∧ x ∈ s.extensions := by
  simp only [hasExtension, Option.any_eq_true, Option.bind_eq_some_iff, List.contains_iff_mem]
  constructor
  · rintro ⟨x, ⟨ext, hext, hx⟩, hmem⟩
    exact ⟨ext, x, hext, hx, hmem⟩
  · rintro ⟨ext, x, hext, hx, hmem⟩
    exact ⟨x, ⟨ext, hext, hx⟩, hmem⟩

lemma isCandidate_eq_true_iff : s.isCandidate p = true ↔
    s.hasExtension p = true ∧ ∀ x ∈ s.excluded, Utf8.encode x ∉ p.shownParts := by
  rw [isCandidate, Bool.and_eq_true, Bool.not_eq_true', any_excludes_eq_false_iff]

/-- Extensions with a dot or a slash could as well be left out. -/
lemma hasExtension_filter :
    { s with extensions := s.extensions.filter fun x => '.' ∉ x ∧ '/' ∉ x }.hasExtension p =
      s.hasExtension p := by
  rw [Bool.eq_iff_iff, hasExtension_eq_true_iff, hasExtension_eq_true_iff]
  constructor
  · rintro ⟨ext, x, hext, hx, hmem⟩
    exact ⟨ext, x, hext, hx, List.mem_of_mem_filter hmem⟩
  · rintro ⟨ext, x, hext, hx, hmem⟩
    obtain ⟨hdot, hslash⟩ := Path.notMem_of_extension? hext
    obtain rfl := Utf8.decode?_eq_some_iff.mp hx
    have hdot' : '.' ∉ x := fun h =>
      hdot (List.mem_flatMap.mpr ⟨'.', h, List.mem_singleton_self Path.dot⟩)
    have hslash' : '/' ∉ x := fun h =>
      hslash (List.mem_flatMap.mpr ⟨'/', h, List.mem_singleton_self Path.slash⟩)
    exact ⟨_, x, hext, hx, List.mem_filter.mpr ⟨hmem, by simp [hdot', hslash']⟩⟩

/-- Parts that are `.` behind a slash at the end of a path keep the answer, though of the empty path
they make the root. -/
lemma isCandidate_append_dots {q : Path} (h : ∀ n ∈ q.parts, n = [Path.dot]) :
    s.isCandidate (p ++ Path.slash :: q) = s.isCandidate p := by
  by_cases hp : p = []
  · subst hp
    have hroot : Path.components (Path.slash :: q) = [.root] := by
      rw [Path.components_slash_cons, Path.filter_ofPart_dots h]
    rw [List.nil_append, isCandidate, hasExtension, Path.extension?, Path.fileName?, hroot]
    rfl
  · exact isCandidate_congr (Path.components_append_dots hp h)

/-- The answer for a file is decided by the bytes of its path. The last part that shows is to be a
name with an extension, which decodes to one of those of the selection, and no part that shows may
be excluded. So the answer stays as it is where a slash is followed by parts that are empty or `.`,
and by another slash or the end. Extensions with a dot or a slash in them have no effect. And more
extensions and fewer excluded names only let more paths through. -/
theorem isCandidate_iff_shownParts (s : Selection) (p : Path) :
    (s.isCandidate p = true ↔
      (∃ stem ext x, p.shownParts.getLast? = some (stem ++ Path.dot :: ext) ∧
        stem ++ Path.dot :: ext ∉
          ([[Path.slash], [Path.dot], [Path.dot, Path.dot]] : List Part) ∧
        stem ≠ [] ∧ Path.dot ∉ ext ∧ Utf8.decode? ext = some x ∧ x ∈ s.extensions) ∧
      ∀ x ∈ s.excluded, Utf8.encode x ∉ p.shownParts) ∧
    (∀ q : Path, (∀ n ∈ q.splitOn Path.slash, n = [] ∨ n = [Path.dot]) →
      s.isCandidate (p ++ Path.slash :: q) = s.isCandidate p ∧
      ∀ rest, s.isCandidate (p ++ Path.slash :: q ++ Path.slash :: rest) =
        s.isCandidate (p ++ Path.slash :: rest)) ∧
    { s with extensions := s.extensions.filter fun x => '.' ∉ x ∧ '/' ∉ x }.isCandidate p =
      s.isCandidate p ∧
    ∀ s' : Selection, s.extensions ⊆ s'.extensions → s'.excluded ⊆ s.excluded →
      s.isCandidate p = true → s'.isCandidate p = true := by
  refine ⟨?_, fun q hq => ?_, ?_, fun s' hextensions hexcluded h => ?_⟩
  · rw [isCandidate_eq_true_iff, hasExtension_eq_true_iff]
    refine and_congr_left fun _ => ?_
    simp only [Path.extension?_eq_some_iff]
    constructor
    · rintro ⟨ext, x, ⟨stem, hlast, hname, hstem, hext⟩, hx, hmem⟩
      exact ⟨stem, ext, x, hlast, hname, hstem, hext, hx, hmem⟩
    · rintro ⟨stem, ext, x, hlast, hname, hstem, hext, hx, hmem⟩
      exact ⟨ext, x, ⟨stem, hlast, hname, hstem, hext⟩, hx, hmem⟩
  · have hdots : ∀ n ∈ q.parts, n = [Path.dot] := fun n hn =>
      (hq n (List.mem_of_mem_filter hn)).resolve_left (by simpa using (List.mem_filter.mp hn).2)
    exact ⟨isCandidate_append_dots hdots, fun rest =>
      isCandidate_congr (Path.components_insert_dots p hdots rest)⟩
  · rw [isCandidate, hasExtension_filter]
    rfl
  · obtain ⟨hextension, hfree⟩ := isCandidate_eq_true_iff.mp h
    obtain ⟨ext, x, hext, hx, hmem⟩ := hasExtension_eq_true_iff.mp hextension
    exact isCandidate_eq_true_iff.mpr
      ⟨hasExtension_eq_true_iff.mpr ⟨ext, x, hext, hx, hextensions hmem⟩,
        fun x hx => hfree x (hexcluded hx)⟩

theorem isCandidate_iff_shownParts_hidden :
    let s : Selection := ⟨[], [['d', '.', 't', 's'], ['t', 's']], [['x'], ['/']]⟩
    let p : Path := Path.ofText "./a//x..ts".toList
    let q : Path := Path.ofText "./".toList
    p.shownParts = [".", "a", "x..ts"].map (Path.ofText ·.toList) ∧ s.isCandidate p = true ∧
      s.isCandidate (p ++ Path.slash :: q) = true ∧
      s.isCandidate (p ++ Path.slash :: q ++ Path.slash :: Path.ofText "b.ts".toList) = true ∧
      (⟨[], [['t', 's']], [['x'], ['/']]⟩ : Selection).isCandidate p = true ∧
      (⟨[], ['j', 's'] :: s.extensions, []⟩ : Selection).isCandidate p = true := by
  intro s p q
  obtain ⟨hiff, hdots, hfilter, hmore⟩ := isCandidate_iff_shownParts s p
  have hp : s.isCandidate p = true := hiff.mpr
    ⟨⟨[0x78, Path.dot], [0x74, 0x73], ['t', 's'], by decide, by decide, by decide, by decide,
      by decide, by decide⟩, by decide⟩
  obtain ⟨hend, hrest⟩ := hdots q (by decide)
  exact ⟨by decide, hp, hend.trans hp, (hrest _).trans (by decide), hfilter.trans hp,
    hmore _ (List.subset_cons_self _ _) (List.nil_subset _) hp⟩

end Selection
end LogSweep
