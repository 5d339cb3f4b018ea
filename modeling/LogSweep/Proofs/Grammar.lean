import LogSweep.Call
import Mathlib.Data.List.TakeWhile

/-! The grammar of the lines on which calls stand. A line starts a call if it is made up of blanks,
the opening of a method and anything behind that, and it is made up so in one way only. It is a
whole call if besides the first semicolon behind the opening closes it, with only blanks to
follow. -/
namespace LogSweep.Call

/-- What follows the opening of a whole call: arguments without a semicolon, the text that closes
the call, and blanks. -/
def IsClosed (rest : Text) : Prop :=
  ∃ arguments blanks, rest = arguments ++ closing ++ blanks ∧ ';' ∉ arguments ∧
    ∀ c ∈ blanks, Text.isBlank c = true

/-- The parts of a line that starts a call. -/
structure Opening where
  indent : Text
  method : Text
  rest : Text
  indent_blank : ∀ c ∈ indent, Text.isBlank c = true
  method_known : method ∈ methods

/-- No opening begins another one. -/
lemma eq_of_opens : ∀ o ∈ openings, ∀ o' ∈ openings, o <+: o' → o = o' := by
  decide +kernel

lemma opening_injective {m m' : Text} (h : opening m = opening m') : m = m' :=
  List.append_cancel_left (List.append_cancel_right h)

namespace Opening

def line (o : Opening) : Text := o.indent ++ opening o.method ++ o.rest

lemma opening_mem (o : Opening) : opening o.method ∈ openings :=
  List.mem_map_of_mem o.method_known

/-- The blanks in front of a call end where it opens. -/
lemma dropBlank_line (o : Opening) : o.line.dropBlank = opening o.method ++ o.rest := by
  have hword : (opening o.method ++ o.rest).dropBlank = opening o.method ++ o.rest :=
    Text.dropBlank_cons ..
  rw [line, List.append_assoc, Text.dropBlank_append o.indent_blank, hword]

/-- Only the opening of the line is found at its first character that is not blank. -/
lemma arguments?_line (o : Opening) : arguments? o.line = some o.rest := by
  have hafter : Text.after? (opening o.method) o.line.dropBlank = some o.rest := by
    rw [o.dropBlank_line, Text.after?_append]
  have hfound : (arguments? o.line).isSome :=
    List.findSome?_isSome_iff.mpr ⟨_, o.opening_mem, by rw [hafter]; rfl⟩
  obtain ⟨rest, hrest⟩ := Option.isSome_iff_exists.mp hfound
  obtain ⟨found, hmem, hfound⟩ := List.exists_of_findSome?_eq_some hrest
  have hbegins {x r : Text} (h : Text.after? x o.line.dropBlank = some r) :
      x <+: o.line.dropBlank := ⟨r, (Text.eq_append_of_after? h).symm⟩
  have heq : found = opening o.method := by
    rcases List.prefix_or_prefix_of_prefix (hbegins hfound) (hbegins hafter) with h | h
    · exact eq_of_opens _ hmem _ o.opening_mem h
    · exact (eq_of_opens _ o.opening_mem _ hmem h).symm
  rw [hrest, ← hfound, heq, hafter]

/-- A line is put together from parts in one way only. -/
theorem line_injective : Function.Injective line := by
  intro o o' h
  have hrest : o.rest = o'.rest :=
    Option.some.inj (by rw [← o.arguments?_line, h, o'.arguments?_line])
  have hmethod : o.method = o'.method := by
    have hdrop := o.dropBlank_line
    rw [h, o'.dropBlank_line, hrest] at hdrop
    exact (opening_injective (List.append_cancel_right hdrop)).symm
  have hindent : o.indent = o'.indent := by
    rw [line, line, hrest, hmethod] at h
    exact List.append_cancel_right (List.append_cancel_right h)
  cases o
  cases o'
  cases hindent
  cases hmethod
  cases hrest
  rfl

end Opening

/-- The arguments of a call begin behind the opening of a line that starts one. -/
theorem arguments?_eq_some_iff {line rest : Text} :
    arguments? line = some rest ↔ ∃ o : Opening, o.line = line ∧ o.rest = rest := by
  constructor
  · intro h
    obtain ⟨found, hmem, hafter⟩ := List.exists_of_findSome?_eq_some h
    obtain ⟨method, hmethod, rfl⟩ := List.mem_map.mp hmem
    refine ⟨⟨line.takeWhile Text.isBlank, method, rest, fun c => List.mem_takeWhile_imp, hmethod⟩,
      ?_, rfl⟩
    rw [Opening.line, List.append_assoc, ← Text.eq_append_of_after? hafter]
    exact List.takeWhile_append_dropWhile
  · rintro ⟨o, rfl, rfl⟩
    exact o.arguments?_line

theorem isClosed_iff_closesWhole {rest : Text} : IsClosed rest ↔ closesWhole rest = true := by
  constructor
  · rintro ⟨arguments, blanks, rfl, harguments, hblanks⟩
    have hinner : ';' ∉ arguments ++ [')'] := by simp [harguments]
    have hsplit : arguments ++ closing ++ blanks = (arguments ++ [')']) ++ ';' :: blanks := by
      simp [closing]
    rw [hsplit, closesWhole_append hinner]
    simpa using hblanks
  · intro h
    by_cases hmem : ';' ∈ rest
    · obtain ⟨inner, tail, rfl, hinner⟩ := List.eq_append_cons_of_mem hmem
      rw [closesWhole_append hinner, Bool.and_eq_true, beq_iff_eq] at h
      obtain ⟨arguments, rfl⟩ := List.getLast?_eq_some_iff.mp h.1
      refine ⟨arguments, tail, by simp [closing], fun hm => ?_, List.all_eq_true.mp h.2⟩
      exact hinner (List.mem_append_left _ hm)
    · rw [closesWhole_of_notMem hmem] at h
      cases h

/-- The first semicolon closes the call, and only blanks follow it. -/
theorem isClosed_iff_positions {rest : Text} :
    IsClosed rest ↔ ∃ n, rest.idxOf? ';' = some (n + 1) ∧ rest[n]? = some ')' ∧
      ∀ c ∈ rest.drop (n + 2), Text.isBlank c = true := by
  constructor
  · rintro ⟨arguments, blanks, rfl, harguments, hblanks⟩
    have hsplit : arguments ++ closing ++ blanks = arguments ++ ')' :: ';' :: blanks := by
      simp [closing]
    have hfirst : (arguments ++ ')' :: ';' :: blanks).idxOf? ';' = some (arguments.length + 1) := by
      have hnone : arguments.findIdx? (· == ';') = none := List.idxOf?_eq_none_iff.mpr harguments
      rw [List.idxOf?, List.findIdx?_append, hnone]
      simp [List.findIdx?_cons, Nat.add_comm]
    rw [hsplit]
    exact ⟨arguments.length, hfirst, by simp, by simpa using hblanks⟩
  · rintro ⟨n, hfirst, hbefore, hblanks⟩
    obtain ⟨hn, hsemicolon, hnone⟩ := List.idxOf?_eq_some_iff.mp hfirst
    obtain ⟨hlt, hbracket⟩ := List.getElem?_eq_some_iff.mp hbefore
    refine ⟨rest.take n, rest.drop (n + 2), ?_, fun hmem => ?_, hblanks⟩
    · calc rest = rest.take n ++ rest.drop n := (List.take_append_drop n rest).symm
        _ = rest.take n ++ (')' :: ';' :: rest.drop (n + 2)) := by
          rw [List.drop_eq_getElem_cons hlt, List.drop_eq_getElem_cons hn, hbracket, hsemicolon]
        _ = rest.take n ++ closing ++ rest.drop (n + 2) := by simp [closing]
    · obtain ⟨j, hj, heq⟩ := List.mem_take_iff_getElem.mp hmem
      exact hnone j (by omega) heq

/-- A line starts a call if it consists of blanks, the opening of a method and any text, and it is a
whole call if besides this text is closed at its end. The parts of a line are told by the line, and
a text is closed at its end if its first semicolon closes a call and only blanks follow. So a whole
call starts a call and contains the text that closes one. -/
theorem starts_and_isWhole_iff (line : Text) :
    (starts line ↔ ∃ o : Opening, o.line = line) ∧
    (isWhole line ↔ ∃ o : Opening, o.line = line ∧ IsClosed o.rest) ∧
    Function.Injective Opening.line ∧
    (∀ rest : Text, IsClosed rest ↔
      ∃ n, rest.idxOf? ';' = some (n + 1) ∧ rest[n]? = some ')' ∧
        ∀ c ∈ rest.drop (n + 2), Text.isBlank c = true) ∧
    (isWhole line → starts line ∧ closes line) := by
  refine ⟨?_, ?_, Opening.line_injective, fun rest => isClosed_iff_positions,
    fun h => ⟨starts_of_isWhole h, closes_of_isWhole h⟩⟩
  · rw [starts, Option.isSome_iff_exists]
    simp only [arguments?_eq_some_iff]
    exact ⟨fun ⟨_, o, hline, _⟩ => ⟨o, hline⟩, fun ⟨o, hline⟩ => ⟨_, o, hline, rfl⟩⟩
  · rw [isWhole, Option.any_eq_true]
    simp only [arguments?_eq_some_iff, ← isClosed_iff_closesWhole]
    constructor
    · rintro ⟨rest, ⟨o, hline, rfl⟩, hclosed⟩
      exact ⟨o, hline, hclosed⟩
    · rintro ⟨o, hline, hclosed⟩
      exact ⟨o.rest, ⟨o, hline, rfl⟩, hclosed⟩

end LogSweep.Call
