import LogSweep.Toml.Document
import Mathlib.Data.List.Induction
import Mathlib.Data.List.Nodup

/-! The keys of tables under construction, and what the changes made to these tables do to them,
case by case. -/
namespace LogSweep.Toml

/-- The keys of some entries, in order. -/
def keys {α : Type} (entries : List (Text × α)) : List Text := entries.map Prod.fst

section
variable {α : Type}

@[simp] lemma keys_append (xs ys : List (Text × α)) : keys (xs ++ ys) = keys xs ++ keys ys :=
  List.map_append

@[simp] lemma keys_singleton (k : Text) (x : α) : keys [(k, x)] = [k] := rfl

lemma mem_keys_iff {k : Text} {entries : List (Text × α)} :
    k ∈ keys entries ↔ ∃ x, (k, x) ∈ entries := by
  simp [keys]

lemma mem_of_lookup {k : Text} {x : α} {entries : List (Text × α)}
    (h : entries.lookup k = some x) : (k, x) ∈ entries := by
  obtain ⟨front, back, rfl, -⟩ := List.lookup_eq_some_iff.mp h
  exact List.mem_append_right front List.mem_cons_self

lemma lookup_eq_none_iff {k : Text} {entries : List (Text × α)} :
    entries.lookup k = none ↔ k ∉ keys entries := by
  rw [List.lookup_eq_none_iff, mem_keys_iff]
  constructor
  · rintro h ⟨x, hx⟩
    have hne := h _ hx
    simp at hne
  · intro h e he
    refine bne_iff_ne.mpr fun heq => h ⟨e.2, ?_⟩
    rwa [heq]

lemma lookup_cons_eq_ite (q k : Text) (x : α) (entries : List (Text × α)) :
    ((k, x) :: entries).lookup q = if q = k then some x else entries.lookup q := by
  rw [List.lookup_cons]
  by_cases h : q = k
  · simp [h]
  · rw [beq_eq_false_iff_ne.mpr h, if_neg h]

end

namespace Draft

variable {entries entries' : Entries} {k : Text} {d : Draft}

lemma finishAll_eq_map (entries : Entries) :
    finishAll entries = entries.map fun e => (e.1, e.2.finish) := by
  induction entries with
  | nil => rfl
  | cons e entries ih => rw [finishAll, ih, List.map_cons]

@[simp] lemma keys_finishAll (entries : Entries) : keys (finishAll entries) = keys entries := by
  rw [finishAll_eq_map, keys, List.map_map]
  rfl

@[simp] lemma keys_replace (k : Text) (d : Draft) (entries : Entries) :
    keys (replace k d entries) = keys entries := by
  rw [replace, keys, List.map_map, keys]
  refine List.map_congr_left fun e _ => ?_
  dsimp only [Function.comp]
  split
  · next h => exact h.symm
  · rfl

@[simp] lemma keys_erase (k : Text) (entries : Entries) :
    keys (erase k entries) = (keys entries).filter (· ≠ k) := by
  rw [erase, keys, keys, List.filter_map]
  rfl

/-! Looking up the entry of a key after a change. -/

lemma find?_concat (q k : Text) (d : Draft) (entries : Entries) :
    find? q (entries ++ [(k, d)]) = (find? q entries).or (if q = k then some d else none) := by
  rw [find?, List.lookup_append, lookup_cons_eq_ite]
  rfl

lemma find?_replace (q k : Text) (d : Draft) (entries : Entries) :
    find? q (replace k d entries) =
      if q = k then (find? q entries).map fun _ => d else find? q entries := by
  induction entries with
  | nil => simp [find?, replace]
  | cons e entries ih =>
    obtain ⟨x, c⟩ := e
    simp only [find?, replace, List.map_cons] at ih ⊢
    by_cases hx : x = k
    · subst hx
      rw [if_pos rfl, lookup_cons_eq_ite, lookup_cons_eq_ite, ih]
      split <;> rfl
    · rw [if_neg hx, lookup_cons_eq_ite, lookup_cons_eq_ite, ih]
      by_cases hq : q = x
      · rw [if_pos hq, if_neg fun heq => hx (hq.symm.trans heq), if_pos hq]
      · rw [if_neg hq, if_neg hq]

lemma find?_erase {q k : Text} (h : q ≠ k) (entries : Entries) :
    find? q (erase k entries) = find? q entries := by
  induction entries with
  | nil => rfl
  | cons e entries ih =>
    obtain ⟨x, c⟩ := e
    simp only [find?, erase, List.filter_cons] at ih ⊢
    by_cases hx : x = k
    · subst hx
      simpa [lookup_cons_eq_ite, h] using ih
    · simp only [ne_eq, hx, not_false_eq_true, decide_true, if_true, lookup_cons_eq_ite] at ih ⊢
      rw [ih]

/-- What a change does that is made on the way behind a key. -/
inductive Goes (opened : Origin) (k : Spanned Text) (change : Change) (entries : Entries) :
    Entries → Prop
  | opens {new : Entries} (absent : find? k.item entries = none)
      (inside : change opened [] = some new) :
      Goes opened k change entries (entries ++ [(k.item, .table opened k.span new)])
  | enters {origin : Origin} {span : Span} {old new : Entries}
      (found : find? k.item entries = some (.table origin span old))
      (inside : change origin old = some new) :
      Goes opened k change entries (replace k.item (.table origin span new) entries)
  | entersLast {finished : List (Spanned Value)} {span : Span} {old new : Entries}
      (found : find? k.item entries = some (.tables finished span old))
      (inside : change .header old = some new) :
      Goes opened k change entries (replace k.item (.tables finished span new) entries)

lemma goes_of_along {opened origin : Origin} {k : Spanned Text} {path : List (Spanned Text)}
    {change : Change} (h : along opened (k :: path) change origin entries = some entries') :
    Goes opened k (along opened path change) entries entries' := by
  unfold along at h
  split at h
  · next absent =>
    obtain ⟨new, inside, heq⟩ := Option.bind_eq_some_iff.mp h
    obtain rfl := Option.some.inj heq
    exact .opens absent inside
  · next origin span old found =>
    split at h
    · cases h
    · obtain ⟨new, inside, heq⟩ := Option.bind_eq_some_iff.mp h
      obtain rfl := Option.some.inj heq
      exact .enters found inside
  · next finished span old found =>
    obtain ⟨new, inside, heq⟩ := Option.bind_eq_some_iff.mp h
    obtain rfl := Option.some.inj heq
    exact .entersLast found inside
  · cases h

lemma add_eq_some {v : Spanned Value} (h : add k v entries = some entries') :
    find? k entries = none ∧ entries' = entries ++ [(k, .value v)] := by
  unfold add at h
  split at h
  · cases h
  · next hk => exact ⟨by simpa using hk, (Option.some.inj h).symm⟩

/-- What the header of a section does to the table that it names a key of. -/
inductive Opens (s : Section) (entries : Entries) : Entries → Prop
  | newTable {new : Entries} (opening : s.opening = .table) (absent : find? s.key entries = none)
      (inside : insertAll [] s.pairs = some new) :
      Opens s entries (entries ++ [(s.key, .table .header s.span new)])
  | impliedTable {span : Span} {old new : Entries} (opening : s.opening = .table)
      (found : find? s.key entries = some (.table .impliedByHeader span old))
      (inside : insertAll old s.pairs = some new) :
      Opens s entries (erase s.key entries ++ [(s.key, .table .header s.span new)])
  | firstElement {new : Entries} (opening : s.opening = .element)
      (absent : find? s.key entries = none) (inside : insertAll [] s.pairs = some new) :
      Opens s entries (entries ++ [(s.key, .tables [] s.span new)])
  | nextElement {finished : List (Spanned Value)} {span : Span} {old new : Entries}
      (opening : s.opening = .element)
      (found : find? s.key entries = some (.tables finished span old))
      (inside : insertAll [] s.pairs = some new) :
      Opens s entries
        (replace s.key (.tables (⟨span, .table (finishAll old)⟩ :: finished) s.span new) entries)

lemma opens_of_opened {s : Section} {origin : Origin}
    (h : opened s origin entries = some entries') : Opens s entries entries' := by
  unfold opened at h
  dsimp only at h
  split at h
  · next opening absent =>
    obtain ⟨new, inside, heq⟩ := Option.bind_eq_some_iff.mp h
    obtain rfl := Option.some.inj heq
    exact .newTable opening absent inside
  · next span old opening found =>
    obtain ⟨new, inside, heq⟩ := Option.bind_eq_some_iff.mp h
    obtain rfl := Option.some.inj heq
    exact .impliedTable opening found inside
  · next opening absent =>
    obtain ⟨new, inside, heq⟩ := Option.bind_eq_some_iff.mp h
    obtain rfl := Option.some.inj heq
    exact .firstElement opening absent inside
  · next finished span old opening found =>
    obtain ⟨new, inside, heq⟩ := Option.bind_eq_some_iff.mp h
    obtain rfl := Option.some.inj heq
    exact .nextElement opening found inside
  · cases h

/-- What each step keeps holds after all of them. -/
lemma foldlM_induct {σ β : Type} {step : σ → β → Option σ} {P : List β → σ → Prop} {s₀ s : σ}
    {xs : List β} (nil : P [] s₀)
    (concat : ∀ xs x s s', P xs s → step s x = some s' → P (xs ++ [x]) s')
    (h : xs.foldlM step s₀ = some s) : P xs s := by
  induction xs using List.reverseRecOn generalizing s with
  | nil =>
    obtain rfl := Option.some.inj h
    exact nil
  | append_singleton xs x ih =>
    rw [List.foldlM_append] at h
    obtain ⟨s₁, hfront, hlast⟩ := Option.bind_eq_some_iff.mp h
    obtain ⟨s', hstep, heq⟩ := Option.bind_eq_some_iff.mp hlast
    obtain rfl := Option.some.inj heq
    exact concat xs x s₁ s' (ih hfront) hstep

end Draft
end LogSweep.Toml
