import LogSweep.Proofs.BlankRun
import Mathlib.Data.List.Chain
import Mathlib.Logic.Relation

/-! The runs of newlines in a text. A text is laid out in one way as pieces without a newline and
runs of newlines that take turns, and squeezing cuts each run on its own. So it does not matter
which pieces of a text are squeezed before the whole is, in which order and how often: all ways of
squeezing piece by piece end in the squeezed text. -/
namespace LogSweep.Text

/-- A piece of a text without a newline, or a run of newlines. -/
inductive Stretch
  | piece (w : Text) (nonempty : w ≠ []) (plain : '\n' ∉ w)
  | run (n : Nat) (pos : 0 < n)

namespace Stretch

def text : Stretch → Text
  | piece w _ _ => w
  | run n _ => List.replicate n '\n'

def isRun : Stretch → Bool
  | piece .. => false
  | run .. => true

/-- Of a run two newlines are left, or all if they are fewer. -/
def cut : Stretch → Stretch
  | piece w nonempty plain => piece w nonempty plain
  | run n pos => run (min n 2) (Nat.lt_min.mpr ⟨pos, Nat.two_pos⟩)

@[simp] lemma isRun_cut (s : Stretch) : s.cut.isRun = s.isRun := by
  cases s <;> rfl

lemma text_ne_nil (s : Stretch) : s.text ≠ [] := by
  cases s with
  | piece w nonempty plain => exact nonempty
  | run n pos => simpa [text] using Nat.ne_of_gt pos

/-- Each character of a stretch tells of which kind the stretch is. -/
lemma isRun_of_mem {s : Stretch} {c : Char} (h : c ∈ s.text) : s.isRun = (c == '\n') := by
  cases s with
  | piece w nonempty plain =>
    refine (beq_eq_false_iff_ne.mpr ?_).symm
    rintro rfl
    exact plain h
  | run n pos => simp [isRun, List.eq_of_mem_replicate h]

lemma text_injective : Function.Injective text := by
  intro s s' h
  obtain ⟨c, hc⟩ := List.exists_mem_of_ne_nil _ s.text_ne_nil
  have hkind : s.isRun = s'.isRun := by rw [isRun_of_mem hc, isRun_of_mem (h ▸ hc)]
  cases s with
  | piece w nonempty plain =>
    cases s' with
    | piece w' nonempty' plain' =>
      cases h
      rfl
    | run n' pos' => cases hkind
  | run n pos =>
    cases s' with
    | piece w' nonempty' plain' => cases hkind
    | run n' pos' =>
      obtain rfl : n = n' := by simpa [text] using congrArg List.length h
      rfl

lemma exists_singleton (c : Char) : ∃ s : Stretch, s.text = [c] := by
  by_cases hc : c = '\n'
  · exact ⟨run 1 Nat.one_pos, by rw [hc]; rfl⟩
  · exact ⟨piece [c] (by simp) (by simpa using Ne.symm hc), rfl⟩

/-- A stretch goes on in front with a character of its kind. -/
lemma exists_cons {s : Stretch} {c : Char} (h : s.isRun = (c == '\n')) :
    ∃ s' : Stretch, s'.text = c :: s.text := by
  cases s with
  | piece w nonempty plain =>
    have hc : c ≠ '\n' := beq_eq_false_iff_ne.mp h.symm
    exact ⟨piece (c :: w) (by simp) (by simp [plain, Ne.symm hc]), rfl⟩
  | run n pos =>
    have hc : c = '\n' := beq_iff_eq.mp h.symm
    exact ⟨run (n + 1) n.succ_pos, by rw [hc]; rfl⟩

end Stretch

/-- The text that stretches make up. -/
def joined (ss : List Stretch) : Text := ss.flatMap Stretch.text

@[simp] lemma joined_nil : joined [] = [] := rfl

@[simp] lemma joined_cons (s : Stretch) (ss : List Stretch) :
    joined (s :: ss) = s.text ++ joined ss := rfl

lemma head?_joined_cons (s : Stretch) (ss : List Stretch) :
    ∃ c, (joined (s :: ss)).head? = some c ∧ s.isRun = (c == '\n') := by
  obtain ⟨c, hc⟩ := Option.isSome_iff_exists.mp (List.isSome_head?.mpr s.text_ne_nil)
  refine ⟨c, ?_, Stretch.isRun_of_mem (List.mem_of_head? hc)⟩
  rw [joined_cons, List.head?_append_of_ne_nil _ s.text_ne_nil, hc]

/-- Pieces and runs take turns. -/
def Alternates (ss : List Stretch) : Prop := ss.IsChain fun s s' => s.isRun ≠ s'.isRun

namespace Alternates

variable {s s' : Stretch} {ss ss' : List Stretch}

lemma tail (h : Alternates (s :: ss)) : Alternates ss := List.IsChain.tail h

/-- Only the kinds of the stretches count. -/
lemma of_isRun_eq (h : Alternates (s :: ss)) (hkind : s'.isRun = s.isRun) :
    Alternates (s' :: ss) := by
  cases ss with
  | nil => exact .singleton s'
  | cons next ss =>
    obtain ⟨hne, hbehind⟩ := List.isChain_cons_cons.mp h
    exact .cons_cons (hkind ▸ hne) hbehind

lemma map_cut (h : Alternates ss) : Alternates (ss.map Stretch.cut) := by
  rw [Alternates, List.isChain_map]
  simp only [Stretch.isRun_cut]
  exact h

/-- What follows a stretch begins with a character of the other kind. -/
lemma head?_ne (h : Alternates (s :: ss)) {c : Char} (hc : (joined ss).head? = some c) :
    (c == '\n') ≠ s.isRun := by
  cases ss with
  | nil => cases hc
  | cons next ss =>
    obtain ⟨d, hd, hkind⟩ := head?_joined_cons next ss
    obtain rfl : c = d := Option.some.inj (hc.symm.trans hd)
    rw [← hkind]
    exact (List.isChain_cons_cons.mp h).1.symm

/-- The first stretch goes as far as its kind of characters does. -/
lemma takeWhile_joined (h : Alternates (s :: ss)) :
    (joined (s :: ss)).takeWhile (fun c => (c == '\n') == s.isRun) = s.text := by
  have hbehind : (joined ss).takeWhile (fun c => (c == '\n') == s.isRun) = [] := by
    cases hjoined : joined ss with
    | nil => rfl
    | cons c t =>
      have hc : (c == '\n') ≠ s.isRun := h.head?_ne (by rw [hjoined, List.head?_cons])
      exact List.takeWhile_cons_of_neg (by simpa using hc)
  rw [joined_cons, List.takeWhile_append_of_pos, hbehind, List.append_nil]
  intro c hc
  simp [Stretch.isRun_of_mem hc]

/-- Stretches that take turns are told by the text that they make up. -/
lemma eq_of_joined (h : Alternates ss) (h' : Alternates ss') (heq : joined ss = joined ss') :
    ss = ss' := by
  induction ss generalizing ss' with
  | nil =>
    cases ss' with
    | nil => rfl
    | cons s' ss' => exact absurd (List.append_eq_nil_iff.mp heq.symm).1 s'.text_ne_nil
  | cons s ss ih =>
    cases ss' with
    | nil => exact absurd (List.append_eq_nil_iff.mp heq).1 s.text_ne_nil
    | cons s' ss' =>
      -- the first character tells the kind of the first stretch, and so how far it goes
      obtain ⟨c, hc, hkind⟩ := head?_joined_cons s ss
      obtain ⟨c', hc', hkind'⟩ := head?_joined_cons s' ss'
      obtain rfl : c = c' := Option.some.inj (by rw [← hc, heq, hc'])
      have hfirst : s = s' := by
        refine Stretch.text_injective ?_
        rw [← h.takeWhile_joined, heq, hkind, ← hkind', h'.takeWhile_joined]
      subst hfirst
      rw [ih h.tail h'.tail (List.append_cancel_left heq)]

/-- Squeezing cuts each run on its own. -/
lemma squeeze_joined (h : Alternates ss) : squeeze (joined ss) = joined (ss.map Stretch.cut) := by
  induction ss with
  | nil => rfl
  | cons s ss ih =>
    rw [List.map_cons, joined_cons, joined_cons, ← ih h.tail]
    cases s with
    | piece w nonempty plain => exact squeeze_append_of_notMem plain _
    | run n pos => exact squeeze_newlines_append n fun hc => h.head?_ne hc rfl

end Alternates

/-- A text as pieces and runs of newlines that take turns. -/
structure Layout where
  stretches : List Stretch
  alternates : Alternates stretches

namespace Layout

def text (d : Layout) : Text := joined d.stretches

def cut (d : Layout) : Layout := ⟨d.stretches.map Stretch.cut, d.alternates.map_cut⟩

lemma text_injective : Function.Injective text := by
  rintro ⟨ss, h⟩ ⟨ss', h'⟩ heq
  cases h.eq_of_joined h' heq
  rfl

lemma squeeze_text (d : Layout) : squeeze d.text = d.cut.text := d.alternates.squeeze_joined

lemma exists_cons (c : Char) (d : Layout) : ∃ d' : Layout, d'.text = c :: d.text := by
  obtain ⟨first, hfirst⟩ := Stretch.exists_singleton c
  have hkind : first.isRun = (c == '\n') := Stretch.isRun_of_mem (by simp [hfirst])
  obtain ⟨ss, h⟩ := d
  cases ss with
  | nil => exact ⟨⟨[first], .singleton first⟩, by simp [text, hfirst]⟩
  | cons s ss =>
    by_cases hs : s.isRun = (c == '\n')
    · -- the character joins the first stretch
      obtain ⟨longer, hlonger⟩ := Stretch.exists_cons hs
      have hkind' : longer.isRun = s.isRun := by
        rw [hs]
        exact Stretch.isRun_of_mem (by simp [hlonger])
      exact ⟨⟨longer :: ss, h.of_isRun_eq hkind'⟩, by simp [text, hlonger]⟩
    · exact ⟨⟨first :: s :: ss, .cons_cons (hkind ▸ Ne.symm hs) h⟩, by simp [text, hfirst]⟩

lemma exists_text (t : Text) : ∃ d : Layout, d.text = t := by
  induction t with
  | nil => exact ⟨⟨[], .nil⟩, rfl⟩
  | cons c t ih =>
    obtain ⟨d, rfl⟩ := ih
    exact d.exists_cons c

/-- A layout stays as it is if no run is longer than two newlines. -/
lemma cut_eq_self_iff (d : Layout) :
    d.cut = d ↔ ∀ n pos, Stretch.run n pos ∈ d.stretches → n ≤ 2 := by
  obtain ⟨ss, h⟩ := d
  have hmap : ss.map Stretch.cut = ss ↔ ∀ s ∈ ss, s.cut = s := by
    simpa using List.map_inj_left (f := Stretch.cut) (g := id)
  rw [cut, mk.injEq, hmap]
  constructor
  · intro hcut n pos hmem
    have hrun := hcut _ hmem
    rw [Stretch.cut, Stretch.run.injEq] at hrun
    omega
  · intro hshort s hmem
    cases s with
    | piece w nonempty plain => rfl
    | run n pos =>
      rw [Stretch.cut, Stretch.run.injEq]
      exact Nat.min_eq_left (hshort n pos hmem)

lemma not_infix_iff (d : Layout) :
    ¬ ['\n', '\n', '\n'] <:+: d.text ↔ ∀ n pos, Stretch.run n pos ∈ d.stretches → n ≤ 2 := by
  rw [← squeeze_eq_self_iff, d.squeeze_text, text_injective.eq_iff, cut_eq_self_iff]

end Layout

lemma squeeze?_eq_none_iff {t : Text} : t.squeeze? = none ↔ ¬ ['\n', '\n', '\n'] <:+: t := by
  rw [squeeze?, ite_eq_right_iff]
  simp [← hasLongRun_iff]

lemma getD_squeeze? (t : Text) : t.squeeze?.getD t = squeeze t := by
  by_cases h : t.hasLongRun
  · rw [squeeze?, if_pos h, Option.getD_some]
  · rw [squeeze?, if_neg h, Option.getD_none, squeeze_eq_self (mt hasLongRun_iff.mpr h)]

/-- A text has one layout. The squeezed text is made up of the same pieces in the same order, each
run cut to two newlines if it has more, so no three newlines in a row are left in it. Nothing is
replaced where the text has no three newlines in a row, that is no run longer than two. -/
theorem squeeze_layout (t : Text) :
    ∃ d : Layout, (∀ d' : Layout, d'.text = t ↔ d' = d) ∧
      squeeze t = d.cut.text ∧ t.squeeze?.getD t = squeeze t ∧
      ¬ ['\n', '\n', '\n'] <:+: squeeze t ∧
      (t.squeeze? = none ↔ ¬ ['\n', '\n', '\n'] <:+: t) ∧
      (t.squeeze? = none ↔ ∀ n pos, Stretch.run n pos ∈ d.stretches → n ≤ 2) := by
  obtain ⟨d, rfl⟩ := Layout.exists_text t
  refine ⟨d, fun d' => Layout.text_injective.eq_iff, d.squeeze_text, getD_squeeze? d.text,
    squeeze_not_infix d.text, squeeze?_eq_none_iff, ?_⟩
  rw [squeeze?_eq_none_iff, d.not_infix_iff]

/-! Pieces of a text, which may be squeezed beforehand. -/

/-- A piece of a text is squeezed where it stands. -/
def SqueezesPiece (s t : Text) : Prop :=
  ∃ before piece behind, s = before ++ piece ++ behind ∧ t = before ++ squeeze piece ++ behind

lemma squeeze_append_left (a b : Text) : squeeze (squeeze a ++ b) = squeeze (a ++ b) := by
  rw [← squeeze_append, squeeze_squeeze, squeeze_append]

lemma squeeze_append_right (a b : Text) : squeeze (a ++ squeeze b) = squeeze (a ++ b) := by
  rw [← squeeze_append, squeeze_squeeze, squeeze_append]

lemma SqueezesPiece.squeeze_eq {s t : Text} (h : SqueezesPiece s t) : squeeze t = squeeze s := by
  obtain ⟨before, piece, behind, rfl, rfl⟩ := h
  calc squeeze (before ++ squeeze piece ++ behind)
      = squeeze (squeeze (before ++ squeeze piece) ++ behind) := (squeeze_append_left ..).symm
    _ = squeeze (squeeze (before ++ piece) ++ behind) := by rw [squeeze_append_right]
    _ = squeeze (before ++ piece ++ behind) := squeeze_append_left ..

lemma squeeze_eq_of_pieces {s t : Text} (h : Relation.ReflTransGen SqueezesPiece s t) :
    squeeze t = squeeze s := by
  induction h with
  | refl => rfl
  | tail _ step ih => exact step.squeeze_eq.trans ih

/-- Two texts may be squeezed before they are joined and squeezed as a whole. So may the pieces of a
text wherever they stand, in any order and any number of times: the whole is squeezed to the same,
and what is left of the text is the squeezed text as soon as it has no long run. -/
theorem squeeze_piecewise :
    (∀ a b : Text, squeeze (a ++ b) = squeeze (squeeze a ++ squeeze b)) ∧
    ∀ s t : Text, Relation.ReflTransGen SqueezesPiece s t →
      squeeze t = squeeze s ∧ (¬ ['\n', '\n', '\n'] <:+: t ↔ t = squeeze s) := by
  refine ⟨fun a b => (squeeze_append a b).symm, fun s t h => ?_⟩
  have heq : squeeze t = squeeze s := squeeze_eq_of_pieces h
  refine ⟨heq, ?_⟩
  rw [← squeeze_eq_self_iff, heq]
  exact eq_comm

/-- The first piece takes in parts of two runs and leaves three newlines of one. -/
theorem squeeze_piecewise_across_runs :
    let s : Text := "a\n\n\n\n\nb\n\n\nc".toList
    let t : Text := "a\n\n\nb\n\nc".toList
    Relation.ReflTransGen SqueezesPiece s t ∧ squeeze t = squeeze s ∧ t ≠ squeeze s := by
  intro s t
  have hfirst : SqueezesPiece s "a\n\n\nb\n\n\nc".toList :=
    ⟨"a\n".toList, "\n\n\n\nb\n".toList, "\n\nc".toList, by decide, by decide⟩
  have hsecond : SqueezesPiece "a\n\n\nb\n\n\nc".toList t :=
    ⟨"a\n\n\n".toList, "b\n\n\n".toList, "c".toList, by decide, by decide⟩
  have hsteps : Relation.ReflTransGen SqueezesPiece s t := .tail (.single hfirst) hsecond
  obtain ⟨heq, hdone⟩ := squeeze_piecewise.2 s t hsteps
  have hlong : ['\n', '\n', '\n'] <:+: t := ⟨"a".toList, "b\n\nc".toList, by decide⟩
  exact ⟨hsteps, heq, fun h => hdone.mpr h hlong⟩

end LogSweep.Text
