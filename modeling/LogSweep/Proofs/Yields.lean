import LogSweep.Toml.Document
import Mathlib.Data.List.Basic

/-! What readers yield. A property that passes from the parts of values to the values that are read
of them holds of all values of a document. -/
namespace LogSweep.Toml

namespace Reader

/-- Whatever the reader takes from any place has a property. -/
def Yields {α : Type} (r : Reader α) (P : α → Prop) : Prop :=
  ∀ c x c', r c = some (x, c') → P x

variable {α β : Type} {r r' : Reader α} {P : α → Prop} {Q : β → Prop}

lemma yields_trivial (r : Reader α) : r.Yields fun _ => True := fun _ _ _ _ => trivial

lemma yields_pure {x : α} (h : P x) : Yields (pure x : Reader α) P := by
  intro c y c' hy
  obtain ⟨rfl, -⟩ := Prod.mk.inj (Option.some.inj hy)
  exact h

lemma yields_failure : Yields (failure : Reader α) P := nofun

lemma Yields.bind {f : α → Reader β} (h : r.Yields P) (hf : ∀ x, P x → (f x).Yields Q) :
    Yields (r >>= f) Q := by
  intro c y c' hy
  obtain ⟨⟨x, between⟩, hx, hrest⟩ := Option.bind_eq_some_iff.mp hy
  exact hf x (h c x between hx) between y c' hrest

/-- What comes after a reader does not depend on what it takes. -/
lemma yields_then {f : α → Reader β} (hf : ∀ x, (f x).Yields Q) : Yields (r >>= f) Q :=
  (yields_trivial r).bind fun x _ => hf x

lemma Yields.orElse (h : r.Yields P) (h' : r'.Yields P) : Yields (r <|> r') P := by
  intro c x c' hx
  change (r c <|> r' c) = some (x, c') at hx
  cases hr : r c with
  | some y =>
    rw [hr] at hx
    obtain rfl := Option.some.inj hx
    exact h c x c' hr
  | none =>
    rw [hr] at hx
    exact h' c x c' hx

lemma Yields.map {f : α → β} (h : r.Yields fun x => Q (f x)) : Yields (f <$> r) Q := by
  intro c y c' hy
  obtain ⟨⟨x, between⟩, hx, heq⟩ := Option.bind_eq_some_iff.mp hy
  obtain ⟨rfl, -⟩ := Prod.mk.inj (Option.some.inj heq)
  exact h c x between hx

lemma Yields.spanned (h : r.Yields P) : (spanned r).Yields fun v => P v.item := by
  intro c v c' hv
  obtain ⟨⟨x, after⟩, hx, heq⟩ := Option.bind_eq_some_iff.mp hv
  obtain ⟨rfl, -⟩ := Prod.mk.inj (Option.some.inj heq)
  exact h c x after hx

lemma Yields.repeated (h : r.Yields P) (bound : Text) {found : List α} (hfound : ∀ x ∈ found, P x) :
    (repeated r bound found).Yields fun xs => ∀ x ∈ xs, P x := by
  induction bound generalizing found with
  | nil => exact yields_pure fun x hx => hfound x (List.mem_reverse.mp hx)
  | cons b bound ih =>
    intro c xs c' hxs
    unfold Reader.repeated at hxs
    split at hxs
    · obtain ⟨rfl, -⟩ := Prod.mk.inj (Option.some.inj hxs)
      exact fun x hx => hfound x (List.mem_reverse.mp hx)
    · next x after hx => exact ih (List.forall_mem_cons.mpr ⟨h c x after hx, hfound⟩) _ _ _ hxs

lemma Yields.many (h : r.Yields P) : (many r).Yields fun xs => ∀ x ∈ xs, P x := fun c xs c' hxs =>
  h.repeated c.rest (fun x hx => by cases hx) c xs c' hxs

lemma Yields.separated1 (h : r.Yields P) (separator : Reader Unit) :
    (separated1 r separator).Yields fun xs => ∀ x ∈ xs, P x := by
  refine h.bind fun x hx => ?_
  have hrest : Reader.Yields (do separator; r) P := yields_then fun _ => h
  exact hrest.many.bind fun xs hxs => yields_pure (List.forall_mem_cons.mpr ⟨hx, hxs⟩)

lemma Yields.separated (h : r.Yields P) (separator : Reader Unit) :
    (separated r separator).Yields fun xs => ∀ x ∈ xs, P x :=
  (h.separated1 separator).orElse (yields_pure fun x hx => by cases hx)

/-! Values. -/

/-- A property of values that reading establishes: it holds of all values without parts, and it
passes from their parts to arrays and to tables that are read in a line. -/
structure Establishes (P : Value → Prop) : Prop where
  string : ∀ t, P (.string t)
  integer : ∀ n, P (.integer n)
  float : ∀ x, P (.float x)
  boolean : ∀ b, P (.boolean b)
  moment : P .moment
  array : ∀ items : List (Spanned Value), (∀ v ∈ items, P v.item) → P (.array items)
  table : ∀ value before pairs after entries, inlinePairs value before = some (pairs, after) →
    (∀ p ∈ pairs, P p.value.item) → Draft.insertAll [] pairs = some entries →
    P (.table (Draft.finishAll entries))

namespace Establishes

variable {P : Value → Prop} (h : Establishes P)
include h

lemma boolean_yields : Reader.boolean.Yields P :=
  (yields_then fun _ => yields_pure (h.boolean true)).orElse
    (yields_then fun _ => yields_pure (h.boolean false))

lemma boundedInteger_yields (n : Int) : (boundedInteger n).Yields P := by
  unfold boundedInteger
  split
  · exact yields_pure (h.integer n)
  · exact yields_failure

lemma number_yields : number.Yields P := by
  have based (mark : Char) (base : Nat) : (basedInteger mark base).Yields P :=
    yields_then fun _ => yields_then fun _ => h.boundedInteger_yields _
  have decimal : decimalInteger.Yields P :=
    yields_then fun _ => yields_then fun _ => h.boundedInteger_yields _
  have named : namedFloat.Yields P :=
    yields_then fun _ => (yields_then fun _ => yields_pure (h.float _)).orElse
      (yields_then fun _ => yields_pure (h.float _))
  have finite : finiteFloat.Yields P := by
    have last (x : Binary64) : Reader.Yields
        (if x = .infinite false then failure else pure (.float x)) P := by
      split
      · exact yields_failure
      · exact yields_pure (h.float x)
    refine yields_then fun _ => yields_then fun _ => yields_then fun _ => ?_
    dsimp only
    split
    · exact yields_then fun _ => last _
    · exact yields_then fun _ => last _
  exact finite.orElse (named.orElse
    ((based _ _).orElse ((based _ _).orElse ((based _ _).orElse decimal))))

lemma scalar_yields : scalar.Yields P := by
  have string : Reader.Yields (.string <$> Reader.string : Reader Value) P :=
    Yields.map fun _ _ _ _ => h.string _
  have moment : Reader.moment.Yields P := yields_then fun _ => yields_pure h.moment
  exact string.orElse (h.boolean_yields.orElse (moment.orElse h.number_yields))

section
variable {value : Reader (Spanned Value)} (hvalue : value.Yields fun v => P v.item)
include hvalue

omit h in
lemma pair_yields : (pair value).Yields fun p => P p.value.item :=
  yields_then fun _ => yields_then fun _ => yields_then fun _ =>
    hvalue.bind fun _ hv => yields_pure hv

lemma array_yields : (Reader.array value).Yields P := by
  have item : Reader.Yields (do blankLines; let v ← value; blankLines; return v)
      fun v => P v.item :=
    yields_then fun _ => hvalue.bind fun _ hv => yields_then fun _ => yields_pure hv
  refine yields_then fun _ => (item.separated _).bind fun items hitems => ?_
  have last : Reader.Yields (do blankLines; char ']'; return .array items) P :=
    yields_then fun _ => yields_then fun _ => yields_pure (h.array items hitems)
  dsimp only
  split
  · exact last
  · exact yields_then fun _ => last

omit h in
lemma inlinePairs_yields : (inlinePairs value).Yields fun ps => ∀ p ∈ ps, P p.value.item := by
  have item : Reader.Yields (do let p ← pair value; blanks; return p) fun p => P p.value.item :=
    (pair_yields hvalue).bind fun _ hp => yields_then fun _ => yields_pure hp
  refine yields_then fun _ => (item.separated _).bind fun pairs hpairs => ?_
  exact yields_then fun _ => yields_then fun _ => yields_pure hpairs

lemma inlineTable_yields : (inlineTable value).Yields P := by
  intro before v after hv
  obtain ⟨⟨pairs, between⟩, read, hrest⟩ := Option.bind_eq_some_iff.mp hv
  dsimp only at hrest
  cases made : Draft.insertAll [] pairs with
  | none =>
    rw [made] at hrest
    cases hrest
  | some entries =>
    rw [made] at hrest
    obtain ⟨rfl, -⟩ := Prod.mk.inj (Option.some.inj hrest)
    exact h.table value before pairs between entries read
      (inlinePairs_yields hvalue before pairs between read) made

end

lemma value_yields (n : Nat) : (value n).Yields fun v => P v.item := by
  induction n with
  | zero => exact h.scalar_yields.spanned
  | succ n ih =>
    exact ((h.array_yields ih).orElse ((h.inlineTable_yields ih).orElse h.scalar_yields)).spanned

lemma pairLine_yields : pairLine.Yields fun p => P p.value.item :=
  yields_then fun _ => yields_then fun _ =>
    (pair_yields (h.value_yields maxNesting)).bind fun _ hp => yields_then fun _ => yields_pure hp

lemma headed_yields : headed.Yields fun s => ∀ p ∈ s.pairs, P p.value.item := by
  refine yields_then fun _ => yields_then fun _ => yields_then fun ⟨_, _, _, _⟩ =>
    yields_then fun _ => ?_
  exact h.pairLine_yields.many.bind fun pairs hpairs => yields_pure hpairs

/-- All pairs of a document, whether they stand under a header or not. -/
theorem document_yields : document.Yields fun d =>
    (∀ p ∈ d.1, P p.value.item) ∧ ∀ s ∈ d.2, ∀ p ∈ s.pairs, P p.value.item := by
  refine yields_then fun _ => h.pairLine_yields.many.bind fun pairs hpairs => ?_
  refine h.headed_yields.many.bind fun sections hsections => ?_
  exact yields_then fun _ => yields_then fun _ => yields_then fun _ =>
    yields_pure ⟨hpairs, hsections⟩

end Establishes
end Reader
end LogSweep.Toml
