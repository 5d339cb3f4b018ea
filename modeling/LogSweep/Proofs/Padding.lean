import LogSweep.Proofs.Shrinking

/-! Blanks around the words of a line. No call, and no closing marker, begins or ends with a blank,
so lines are told apart by what stands between their first and their last blanks. Hence the lines of
a text may be indented, followed by blanks or ended by returns: the same ones are removed. -/
namespace LogSweep

namespace Text

variable {o p q : Text}

/-- A text without blanks begins another one or not, whatever blanks follow that. -/
lemma prefix_append_iff (ho : ∀ c ∈ o, isBlank c = false) (hq : ∀ c ∈ q, isBlank c = true)
    (t : Text) : o <+: t ++ q ↔ o <+: t := by
  refine ⟨?_, fun h => h.trans (List.prefix_append t q)⟩
  rintro ⟨rest, h⟩
  rcases List.append_eq_append_iff.mp h.symm with ⟨shared, rfl, hshared⟩ | ⟨tail, rfl, -⟩
  · -- what the text shares with the blanks behind is both blank and not
    cases shared with
    | nil => simp
    | cons c shared =>
      have hblank := hq c (by simp [hshared])
      rw [ho c (by simp)] at hblank
      cases hblank
  · exact List.prefix_append o tail

lemma after?_append_blank (ho : ∀ c ∈ o, isBlank c = false) (hq : ∀ c ∈ q, isBlank c = true)
    (t : Text) : after? o (t ++ q) = (after? o t).map (· ++ q) := by
  by_cases h : o <+: t
  · obtain ⟨rest, rfl⟩ := h
    rw [List.append_assoc, after?_append, after?_append, Option.map_some]
  · have h' : ¬ o <+: t ++ q := fun hp => h ((prefix_append_iff ho hq t).mp hp)
    rw [← List.isPrefixOf_iff_prefix] at h h'
    simp [after?, h, h']

lemma findSome?_after?_append_blank {os : List Text} (ho : ∀ o ∈ os, ∀ c ∈ o, isBlank c = false)
    (hq : ∀ c ∈ q, isBlank c = true) (t : Text) :
    os.findSome? (after? · (t ++ q)) = (os.findSome? (after? · t)).map (· ++ q) := by
  induction os with
  | nil => rfl
  | cons o os ih =>
    rw [List.findSome?_cons, List.findSome?_cons, after?_append_blank (ho o List.mem_cons_self) hq,
      ih fun x hx => ho x (List.mem_cons_of_mem _ hx)]
    cases after? o t <;> rfl

lemma contains_blank_append (hne : o ≠ []) (ho : ∀ c ∈ o, isBlank c = false)
    (hp : ∀ c ∈ p, isBlank c = true) (t : Text) : contains o (p ++ t) = contains o t := by
  obtain ⟨d, o, rfl⟩ := List.exists_cons_of_ne_nil hne
  induction p with
  | nil => rfl
  | cons c p ih =>
    have hdc : d ≠ c := by
      rintro rfl
      have hblank := hp d List.mem_cons_self
      rw [ho d List.mem_cons_self] at hblank
      cases hblank
    rw [List.cons_append, contains, ih fun x hx => hp x (List.mem_cons_of_mem _ hx)]
    simp [hdc]

lemma contains_append_blank (hne : o ≠ []) (ho : ∀ c ∈ o, isBlank c = false)
    (hq : ∀ c ∈ q, isBlank c = true) (t : Text) : contains o (t ++ q) = contains o t := by
  have hprefix (t : Text) : o.isPrefixOf (t ++ q) = o.isPrefixOf t := by
    rw [Bool.eq_iff_iff, List.isPrefixOf_iff_prefix, List.isPrefixOf_iff_prefix,
      prefix_append_iff ho hq]
  induction t with
  | nil => simpa using contains_blank_append hne ho hq []
  | cons c t ih =>
    rw [List.cons_append, contains, contains, ih, ← List.cons_append, hprefix]

end Text

namespace Call

variable {p q : Text}

lemma isBlank_of_mem_opening {o : Text} (ho : o ∈ openings) : ∀ c ∈ o, Text.isBlank c = false := by
  have h : openings.all (·.all (!Text.isBlank ·)) = true := by decide
  simpa using List.all_eq_true.mp h o ho

lemma isBlank_of_mem_closing : ∀ c ∈ closing, Text.isBlank c = false := by
  have h : closing.all (!Text.isBlank ·) = true := by decide
  simpa using h

lemma arguments?_blank_append (hp : ∀ c ∈ p, Text.isBlank c = true) (line : Text) :
    arguments? (p ++ line) = arguments? line := by
  rw [arguments?, Text.dropBlank_append hp, arguments?]

/-- The blanks behind a line end the arguments of its call. -/
lemma arguments?_append_blank (hq : ∀ c ∈ q, Text.isBlank c = true) (line : Text) :
    arguments? (line ++ q) = (arguments? line).map (· ++ q) := by
  induction line with
  | nil =>
    have h := arguments?_blank_append hq []
    rw [List.append_nil] at h
    rw [List.nil_append, h]
    rfl
  | cons c line ih =>
    cases hc : Text.isBlank c with
    | true =>
      have hskip (line : Text) : arguments? (c :: line) = arguments? line :=
        arguments?_blank_append (p := [c]) (by simpa using hc) line
      rw [List.cons_append, hskip, hskip, ih]
    | false =>
      have hstay (line : Text) : Text.dropBlank (c :: line) = c :: line := by
        rw [Text.dropBlank_cons, hc]
        rfl
      rw [List.cons_append, arguments?, arguments?, hstay, hstay, ← List.cons_append]
      exact Text.findSome?_after?_append_blank (fun o => isBlank_of_mem_opening) hq (c :: line)

lemma closesWhole_append_blank (hq : ∀ c ∈ q, Text.isBlank c = true) (rest : Text) :
    closesWhole (rest ++ q) = closesWhole rest := by
  have hqs : ';' ∉ q := fun h => absurd (hq _ h) (by decide)
  have hall : q.all Text.isBlank = true := List.all_eq_true.mpr hq
  by_cases h : ';' ∈ rest
  · obtain ⟨inner, tail, rfl, hinner⟩ := List.eq_append_cons_of_mem h
    rw [List.append_assoc, List.cons_append, closesWhole_append hinner, closesWhole_append hinner,
      List.all_append, hall, Bool.and_true]
  · rw [closesWhole_of_notMem h, closesWhole_of_notMem (by simp [h, hqs])]

section
variable (hp : ∀ c ∈ p, Text.isBlank c = true) (hq : ∀ c ∈ q, Text.isBlank c = true) (line : Text)
include hp hq

/-! Blanks on both sides of a line change none of its three kinds. -/

lemma starts_padded : starts (p ++ line ++ q) = starts line := by
  rw [starts, List.append_assoc, arguments?_blank_append hp, arguments?_append_blank hq,
    Option.isSome_map, starts]

lemma isWhole_padded : isWhole (p ++ line ++ q) = isWhole line := by
  rw [isWhole, List.append_assoc, arguments?_blank_append hp, arguments?_append_blank hq,
    Option.any_map, isWhole]
  simp only [closesWhole_append_blank hq]

lemma closes_padded : closes (p ++ line ++ q) = closes line := by
  rw [closes, List.append_assoc, Text.contains_blank_append (by decide) isBlank_of_mem_closing hp,
    Text.contains_append_blank (by decide) isBlank_of_mem_closing hq, closes]

end

end Call

namespace Text

/-! Lines that come with the items of a list. -/

section
variable {α : Type} {f g : α → Text}

/-- Two ways to write an item on a line look the same to a scan. -/
structure SameKind (f g : α → Text) : Prop where
  starts : ∀ x, Call.starts (f x) = Call.starts (g x)
  isWhole : ∀ x, Call.isWhole (f x) = Call.isWhole (g x)
  closes : ∀ x, Call.closes (f x) = Call.closes (g x)

/-- The items whose lines are not dropped, in order. -/
def undroppedBy (line : α → Text) (xs : List α) : List α :=
  (List.range xs.length).filterMap fun i => if Dropped (xs.map line) i then none else xs[i]?

lemma map_undroppedBy (line : α → Text) (xs : List α) :
    (undroppedBy line xs).map line = survivors (xs.map line) := by
  rw [survivors_eq_undropped, undropped, undroppedBy, List.map_filterMap, List.length_map]
  refine List.filterMap_congr fun i _ => ?_
  rw [List.getElem?_map]
  split <;> rfl

lemma mem_of_mem_undroppedBy {line : α → Text} {xs : List α} {x : α}
    (h : x ∈ undroppedBy line xs) : x ∈ xs := by
  obtain ⟨i, -, hi⟩ := List.mem_filterMap.mp h
  split at hi
  · cases hi
  · exact List.mem_of_getElem? hi

namespace SameKind

lemma any_isWhole (h : SameKind f g) (xs : List α) (i : Nat) :
    (xs.map f)[i]?.any Call.isWhole = (xs.map g)[i]?.any Call.isWhole := by
  simp [Option.any_map, h.isWhole]

lemma any_opens (h : SameKind f g) (xs : List α) (i : Nat) :
    (xs.map f)[i]?.any Call.opens = (xs.map g)[i]?.any Call.opens := by
  simp [Option.any_map, Call.opens, h.starts, h.isWhole]

lemma all_leavesOpen (h : SameKind f g) (xs : List α) (i : Nat) :
    (xs.map f)[i]?.all Call.leavesOpen = (xs.map g)[i]?.all Call.leavesOpen := by
  simp [Option.all_map, Call.leavesOpen, h.isWhole, h.closes]

lemma openAfter_iff (h : SameKind f g) (xs : List α) (n : Nat) :
    OpenAfter (xs.map f) n ↔ OpenAfter (xs.map g) n := by
  simp only [OpenAfter, h.any_opens, h.all_leavesOpen]

lemma dropped_iff (h : SameKind f g) (xs : List α) (i : Nat) :
    Dropped (xs.map f) i ↔ Dropped (xs.map g) i := by
  simp only [Dropped, h.any_isWhole, h.any_opens, h.all_leavesOpen]

lemma undroppedBy_eq (h : SameKind f g) (xs : List α) : undroppedBy f xs = undroppedBy g xs := by
  simp only [undroppedBy, h.dropped_iff]

lemma endsInsideCall_eq (h : SameKind f g) (xs : List α) :
    endsInsideCall (xs.map f) = endsInsideCall (xs.map g) := by
  rw [Bool.eq_iff_iff, endsInsideCall_iff, endsInsideCall_iff, List.length_map, List.length_map,
    h.openAfter_iff]

end SameKind

end

end Text

/-- A line and the blanks on its two sides. -/
structure PaddedLine where
  before : Text
  line : Text
  behind : Text
  newline_notMem : '\n' ∉ line
  before_blank : ∀ c ∈ before, Text.isBlank c = true ∧ c ≠ '\n'
  behind_blank : ∀ c ∈ behind, Text.isBlank c = true ∧ c ≠ '\n'

namespace PaddedLine

def text (l : PaddedLine) : Text := l.before ++ l.line ++ l.behind

lemma newline_notMem_text (l : PaddedLine) : '\n' ∉ l.text := by
  have hbefore : '\n' ∉ l.before := fun h => (l.before_blank _ h).2 rfl
  have hbehind : '\n' ∉ l.behind := fun h => (l.behind_blank _ h).2 rfl
  simp [text, hbefore, l.newline_notMem, hbehind]

lemma isBlank_of_mem_before (l : PaddedLine) : ∀ c ∈ l.before, Text.isBlank c = true :=
  fun c hc => (l.before_blank c hc).1

lemma isBlank_of_mem_behind (l : PaddedLine) : ∀ c ∈ l.behind, Text.isBlank c = true :=
  fun c hc => (l.behind_blank c hc).1

lemma sameKind : Text.SameKind text line where
  starts l := Call.starts_padded l.isBlank_of_mem_before l.isBlank_of_mem_behind l.line
  isWhole l := Call.isWhole_padded l.isBlank_of_mem_before l.isBlank_of_mem_behind l.line
  closes l := Call.closes_padded l.isBlank_of_mem_before l.isBlank_of_mem_behind l.line

/-- The lines that survive with their blanks are those that survive without them. -/
lemma survivors_text (ls : List PaddedLine) :
    Text.survivors (ls.map text) = (Text.undroppedBy line ls).map text := by
  rw [← Text.map_undroppedBy, sameKind.undroppedBy_eq]

variable {ls : List PaddedLine}

lemma lines_unlines_text (hne : ls ≠ []) :
    (Text.unlines (ls.map text)).lines = ls.map text :=
  Text.lines_unlines (by simp [newline_notMem_text]) (by simpa using hne)

lemma lines_unlines_line (hne : ls ≠ []) :
    (Text.unlines (ls.map line)).lines = ls.map line :=
  Text.lines_unlines (by simp [newline_notMem]) (by simpa using hne)

lemma removed_text (hne : ls ≠ []) :
    (Text.clean (Text.unlines (ls.map text))).removed =
      (Text.clean (Text.unlines (ls.map line))).removed := by
  have htext := Text.clean_removed (Text.unlines (ls.map text))
  have hline := Text.clean_removed (Text.unlines (ls.map line))
  rw [lines_unlines_text hne, survivors_text, List.length_map, List.length_map] at htext
  rw [lines_unlines_line hne, ← Text.map_undroppedBy, List.length_map, List.length_map] at hline
  omega

lemma unterminated_text (hne : ls ≠ []) :
    (Text.clean (Text.unlines (ls.map text))).unterminated =
      (Text.clean (Text.unlines (ls.map line))).unterminated := by
  have h := sameKind.endsInsideCall_eq ls
  rwa [← lines_unlines_text hne, ← lines_unlines_line hne] at h

end PaddedLine

namespace Text

/-! Returns in front of newlines. -/

/-- The text with a return in front of each newline. -/
def withReturns (t : Text) : Text := t.flatMap fun c => if c = '\n' then ['\r', '\n'] else [c]

def withoutReturns (t : Text) : Text := t.filter (· ≠ '\r')

lemma withReturns_eq_self {t : Text} (h : '\n' ∉ t) : withReturns t = t := by
  induction t with
  | nil => rfl
  | cons c t ih =>
    rw [List.mem_cons, not_or] at h
    rw [withReturns, List.flatMap_cons, if_neg (Ne.symm h.1), ← withReturns, ih h.2]
    rfl

lemma withReturns_append_newline (a b : Text) :
    withReturns (a ++ '\n' :: b) = withReturns a ++ '\r' :: '\n' :: withReturns b := by
  simp [withReturns]

lemma withoutReturns_eq_self {t : Text} (h : '\r' ∉ t) : withoutReturns t = t :=
  List.filter_eq_self.mpr fun _ hc => decide_eq_true fun heq => h (heq ▸ hc)

/-- Lines may lose their returns before they are joined. -/
lemma withoutReturns_unlines (ls : List Text) :
    withoutReturns (unlines ls) = unlines (ls.map withoutReturns) := by
  induction ls with
  | nil => rfl
  | cons l ls ih =>
    by_cases hls : ls = []
    · simp [hls]
    · rw [unlines_cons l hls, List.map_cons, unlines_cons _ (by simpa using hls), ← ih]
      simp [withoutReturns]

/-- A text may be squeezed before it loses its returns, as it is squeezed again behind that. -/
lemma squeeze_withoutReturns_squeeze (t : Text) :
    squeeze (withoutReturns (squeeze t)) = squeeze (withoutReturns t) := by
  induction t with
  | nil => rfl
  | cons c t ih =>
    have hpush : squeeze (withoutReturns (push c (squeeze t))) =
        squeeze (withoutReturns (c :: squeeze t)) := by
      rcases push_cases c (squeeze t) with ⟨-, hpush⟩ | ⟨rfl, ⟨r, hr⟩, hpush⟩
      · rw [hpush]
      · rw [hpush, hr]
        exact (push_newline_thrice _).symm
    rw [squeeze_cons, hpush]
    by_cases hc : c = '\r'
    · subst hc
      exact ih
    · have hcons (t : Text) : withoutReturns (c :: t) = c :: withoutReturns t := by
        simp [withoutReturns, hc]
      rw [hcons, hcons, squeeze_cons, squeeze_cons, ih]

/-- Each line but the last gets a return behind it. -/
lemma exists_withReturns {ls : List Text} (hne : ls ≠ []) (hn : ∀ l ∈ ls, '\n' ∉ l) :
    ∃ padded : List PaddedLine, padded.map PaddedLine.line = ls ∧
      unlines (padded.map PaddedLine.text) = withReturns (unlines ls) ∧
      ∀ l ∈ padded, withoutReturns l.text = withoutReturns l.line := by
  induction ls with
  | nil => exact absurd rfl hne
  | cons l ls ih =>
    have hl := hn l List.mem_cons_self
    by_cases hls : ls = []
    · subst hls
      refine ⟨[⟨[], l, [], hl, by simp, by simp⟩], rfl, ?_, ?_⟩
      · simpa [PaddedLine.text] using (withReturns_eq_self hl).symm
      · simp [PaddedLine.text]
    · obtain ⟨padded, rfl, htext, hreturns⟩ := ih hls fun x hx => hn x (List.mem_cons_of_mem _ hx)
      refine ⟨⟨[], l, ['\r'], hl, by simp, by simp⟩ :: padded, rfl, ?_, ?_⟩
      · have hpadded : padded.map PaddedLine.text ≠ [] := by simpa using hls
        rw [List.map_cons, unlines_cons _ hpadded, htext, unlines_cons _ hls,
          withReturns_append_newline, withReturns_eq_self hl]
        simp [PaddedLine.text]
      · simp only [List.mem_cons, forall_eq_or_imp]
        refine ⟨?_, hreturns⟩
        simp [PaddedLine.text, withoutReturns]

lemma clean_withReturns {t : Text} (hr : '\r' ∉ t) :
    (clean (withReturns t)).removed = (clean t).removed ∧
    (clean (withReturns t)).unterminated = (clean t).unterminated ∧
    squeeze (withoutReturns (clean (withReturns t)).text) = (clean t).text := by
  obtain ⟨padded, hlines, htext, hreturns⟩ :=
    exists_withReturns (lines_ne_nil t) fun _ => newline_notMem_of_mem_lines
  have hne : padded ≠ [] := by
    rintro rfl
    exact lines_ne_nil t hlines.symm
  have ht : unlines (padded.map PaddedLine.line) = t := by rw [hlines, unlines_lines]
  rw [unlines_lines] at htext
  have hremoved := PaddedLine.removed_text hne
  have hunterminated := PaddedLine.unterminated_text hne
  rw [htext, ht] at hremoved hunterminated
  refine ⟨hremoved, hunterminated, ?_⟩
  -- without the return behind it, a surviving line is the one that survives in the text
  have hstrip : ∀ l ∈ undroppedBy PaddedLine.line padded,
      (withoutReturns ∘ PaddedLine.text) l = l.line := fun l hl => by
    have hl := mem_of_mem_undroppedBy hl
    have hmem : l.line ∈ t.lines := hlines ▸ List.mem_map_of_mem hl
    exact (hreturns l hl).trans
      (withoutReturns_eq_self fun h => hr (subset_of_mem_lines hmem h))
  calc squeeze (withoutReturns (clean (withReturns t)).text)
      = squeeze (withoutReturns (unlines (survivors (padded.map PaddedLine.text)))) := by
        rw [clean_text, squeeze_withoutReturns_squeeze, ← htext, PaddedLine.lines_unlines_text hne]
    _ = squeeze (unlines ((undroppedBy PaddedLine.line padded).map PaddedLine.line)) := by
        rw [PaddedLine.survivors_text, withoutReturns_unlines, List.map_map,
          List.map_congr_left hstrip]
    _ = (clean t).text := by rw [map_undroppedBy, hlines, clean_text]

/-- Lines may have blanks on both sides: the same ones survive, each with its blanks, so as many are
removed, and the text ends inside a call or not as before. In particular a text whose newlines all
get a return in front loses the same lines, and its cleaned text, squeezed without the returns, is
that of the text without them. -/
theorem clean_padded :
    (∀ ls : List PaddedLine, ls ≠ [] →
      survivors (ls.map PaddedLine.line) =
        (undroppedBy PaddedLine.line ls).map PaddedLine.line ∧
      survivors (ls.map PaddedLine.text) =
        (undroppedBy PaddedLine.line ls).map PaddedLine.text ∧
      (clean (unlines (ls.map PaddedLine.text))).removed =
        (clean (unlines (ls.map PaddedLine.line))).removed ∧
      (clean (unlines (ls.map PaddedLine.text))).unterminated =
        (clean (unlines (ls.map PaddedLine.line))).unterminated) ∧
    ∀ t : Text, '\r' ∉ t →
      (clean (withReturns t)).removed = (clean t).removed ∧
      (clean (withReturns t)).unterminated = (clean t).unterminated ∧
      squeeze (withoutReturns (clean (withReturns t)).text) = (clean t).text :=
  ⟨fun ls hne => ⟨(map_undroppedBy _ _).symm, PaddedLine.survivors_text ls,
    PaddedLine.removed_text hne, PaddedLine.unterminated_text hne⟩, fun _ => clean_withReturns⟩

/-- Blanks of several kinds around the lines of an open call, and returns whose blank lines are
squeezed only without them. -/
theorem clean_padded_mixed_blanks :
    let ls : List PaddedLine :=
      [⟨['\u3000'], "logger.info(".toList, ['\t'], by decide,
          List.forall_mem_singleton.mpr (by decide), List.forall_mem_singleton.mpr (by decide)⟩,
        ⟨[' '], "1".toList, ['\r'], by decide,
          List.forall_mem_singleton.mpr (by decide), List.forall_mem_singleton.mpr (by decide)⟩,
        ⟨[], ");".toList, ['\u00a0'], by decide,
          List.forall_mem_nil _, List.forall_mem_singleton.mpr (by decide)⟩,
        ⟨[' '], "x".toList, ['\r'], by decide,
          List.forall_mem_singleton.mpr (by decide), List.forall_mem_singleton.mpr (by decide)⟩]
    let t : Text := "a\nlogger.info(1);\n\n\nb".toList
    ls ≠ [] ∧ survivors (ls.map PaddedLine.text) = [" x\r".toList] ∧
    (clean (unlines (ls.map PaddedLine.text))).removed = 3 ∧
    (clean (unlines (ls.map PaddedLine.text))).unterminated = false ∧
    '\r' ∉ t ∧ (clean (withReturns t)).removed = 1 ∧
    (clean (withReturns t)).text = "a\r\n\r\n\r\nb".toList ∧
    squeeze (withoutReturns (clean (withReturns t)).text) = "a\n\nb".toList := by
  intro ls t
  have hne : ls ≠ [] := by simp [ls]
  have hr : '\r' ∉ t := by decide
  obtain ⟨-, hsurvivors, hremoved, hunterminated⟩ := clean_padded.1 ls hne
  obtain ⟨hremoved', -, htext⟩ := clean_padded.2 t hr
  refine ⟨hne, ?_, ?_, ?_, hr, ?_, by decide, ?_⟩
  · rw [hsurvivors]
    decide
  · rw [hremoved]
    decide
  · rw [hunterminated]
    decide
  · rw [hremoved']
    decide
  · rw [htext]
    decide

end Text
end LogSweep
