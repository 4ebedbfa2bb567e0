import Mathlib.Data.List.DropRight
import Mathlib.Data.List.Forall2
import Mathlib.Data.Nat.Digits.Defs
import Thesaurus.Notation.Key
import Thesaurus.Proofs.Text.Segments

/-!
# The grammar of dotted notations

Between blanks, a dotted notation is one number or more with dots between them. Exactly what is
written like this can be read, and a fault names the first part that is no number. In particular,
numbers that are written in decimal are read again.

- `Text.Trims`, `Text.trims_iff`: what is left between the blanks at both ends.
- `Notation.WritesSegment`, `Notation.WritesDotted`: how a number and a notation are written.
- `Notation.FirstBad`: the first part of a notation that writes no number.
- `Notation.readSegment?_eq_some`, `Notation.readSegments_eq_ok`, `Notation.readSegments_eq_error`:
  what is read, part by part.
- `Notation.dotted_read`: what is read from any text, and that written numbers are read again.
-/

namespace Thesaurus

namespace Text

variable {s core before after : List Char}

/-! ## Blanks at both ends -/

/-- Whether `core` is what is left of a text without the blanks at both ends. -/
structure Trims (s core : List Char) : Prop where
  blanks : ∃ before after, s = before ++ core ++ after ∧ ∀ c ∈ before ++ after, isBlank c = true
  front : ∀ c ∈ core.head?, isBlank c = false
  back : ∀ c ∈ core.getLast?, isBlank c = false

theorem trimChars_eq (s : List Char) :
    trimChars s = (s.dropWhile isBlank).rdropWhile isBlank :=
  rfl

theorem trims_trimChars (s : List Char) : Trims s (trimChars s) where
  blanks := by
    refine ⟨s.takeWhile isBlank, (s.dropWhile isBlank).rtakeWhile isBlank, ?_, fun c hc => ?_⟩
    · rw [trimChars_eq, List.append_assoc, List.rdropWhile_append_rtakeWhile,
        List.takeWhile_append_dropWhile]
    · rcases List.mem_append.1 hc with hc | hc
      · exact List.mem_takeWhile_imp hc
      · exact List.mem_rtakeWhile_imp hc
  front := by
    intro c hc
    obtain ⟨rest, hrest⟩ := List.rdropWhile_prefix isBlank (s.dropWhile isBlank)
    have hfirst : (s.dropWhile isBlank).head? = some c := by
      rw [← hrest, List.head?_append, ← trimChars_eq, Option.mem_def.1 hc]
      rfl
    have hkept := List.head?_dropWhile_not isBlank s
    rwa [hfirst] at hkept
  back := by
    intro c hc
    obtain ⟨hnonempty, rfl⟩ := List.mem_getLast?_eq_getLast hc
    exact Bool.eq_false_iff.2 (List.rdropWhile_last_not isBlank _ hnonempty)

/-- Blanks are dropped up to the first character that is none. -/
theorem dropWhile_blanks {rest : List Char} (hblanks : ∀ c ∈ before, isBlank c = true)
    (hfront : ∀ c ∈ rest.head?, isBlank c = false) : (before ++ rest).dropWhile isBlank = rest := by
  rw [List.dropWhile_append_of_pos hblanks]
  cases rest with
  | nil => rfl
  | cons c later =>
    have hfront' : isBlank c = false := hfront c rfl
    exact List.dropWhile_cons_of_neg (by simp [hfront'])

/-- Blanks at both ends are left out, whatever is between them. -/
theorem Trims.eq (h : Trims s core) : trimChars s = core := by
  obtain ⟨before, after, rfl, hblanks⟩ := h.blanks
  rw [trimChars]
  cases core with
  | nil =>
    have hnothing : (before ++ after ++ []).dropWhile isBlank = [] :=
      dropWhile_blanks hblanks (by simp)
    rw [List.append_nil] at hnothing ⊢
    rw [hnothing]
    rfl
  | cons c rest =>
    have hleading : (before ++ (c :: rest ++ after)).dropWhile isBlank = c :: rest ++ after :=
      dropWhile_blanks (fun c hc => hblanks c (List.mem_append_left _ hc)) fun c hc => h.front c hc
    rw [List.append_assoc, hleading, List.reverse_append, dropWhile_blanks, List.reverse_reverse]
    · exact fun c hc => hblanks c (List.mem_append_right _ (List.mem_reverse.1 hc))
    · intro c hc
      rw [List.head?_reverse] at hc
      exact h.back c hc

theorem trims_iff : Trims s core ↔ core = trimChars s := by
  constructor
  · exact fun h => h.eq.symm
  · rintro rfl
    exact trims_trimChars s

end Text

namespace Notation

/-! ## How notations are written -/

/-- The number that digits write, the last one being worth the least. -/
def decimalValue (digits : List Char) : Nat :=
  Nat.ofDigits 10 (digits.reverse.map fun c => c.toNat - '0'.toNat)

/-- Whether characters are ASCII digits that write a number below `2 ^ 64`. -/
structure WritesNumber (digits : List Char) (n : Nat) : Prop where
  nonempty : digits ≠ []
  ascii : ∀ c ∈ digits, c.isDigit = true
  value_eq : decimalValue digits = n
  small : n < 2 ^ 64

/-- Whether characters write a number, with or without a plus sign. -/
inductive WritesSegment : List Char → Nat → Prop where
  | unsigned {digits : List Char} {n : Nat} (number : WritesNumber digits n) :
      WritesSegment digits n
  | signed {digits : List Char} {n : Nat} (number : WritesNumber digits n) :
      WritesSegment ('+' :: digits) n

/-- Whether characters write numbers with dots between them, at least one. -/
def WritesDotted (s : List Char) (numbers : List Nat) : Prop :=
  ∃ parts, parts ≠ [] ∧ s = ['.'].intercalate parts ∧ List.Forall₂ WritesSegment parts numbers

/-- Whether a part is the first between the dots that writes no number. -/
def FirstBad (s bad : List Char) : Prop :=
  ∃ good later, s = ['.'].intercalate (good ++ bad :: later) ∧
    (∀ part ∈ good ++ bad :: later, '.' ∉ part) ∧
    (∀ part ∈ good, ∃ n, WritesSegment part n) ∧ ¬ ∃ n, WritesSegment bad n

variable {s bad : List Char} {n : Nat} {parts : List (List Char)} {numbers : List Nat} {c : Char}

theorem valueOf_eq (digits : List Char) : Decimal.valueOf digits = decimalValue digits := by
  rw [decimalValue, Nat.ofDigits_eq_foldr, List.foldr_map, List.foldr_reverse]
  refine congrArg (List.foldl · 0 digits) (funext₂ fun n c => ?_)
  exact Nat.add_comm ..

/-! ## Reading -/

/-- The test that digits have to pass says that they write a number. -/
theorem readNumber?_eq_some {digits : List Char} :
    (if !digits.isEmpty && digits.all Char.isDigit && Decimal.valueOf digits < segmentBound then
      some (Decimal.valueOf digits) else none) = some n ↔ WritesNumber digits n := by
  have hbound : segmentBound = 2 ^ 64 := rfl
  rw [valueOf_eq, hbound]
  constructor
  · intro hread
    split at hread
    · next hpassed =>
      cases hread
      simp only [Bool.and_eq_true, Bool.not_eq_true', List.isEmpty_eq_false_iff, List.all_eq_true,
        decide_eq_true_eq] at hpassed
      exact ⟨hpassed.1.1, hpassed.1.2, rfl, hpassed.2⟩
    · cases hread
  · rintro ⟨hnonempty, hascii, rfl, hsmall⟩
    rw [if_pos]
    simp only [Bool.and_eq_true, Bool.not_eq_true', List.isEmpty_eq_false_iff, List.all_eq_true,
      decide_eq_true_eq]
    exact ⟨⟨hnonempty, hascii⟩, hsmall⟩

/-- A plus sign is no digit. -/
theorem not_writesNumber_plus {digits : List Char} : ¬ WritesNumber ('+' :: digits) n := by
  intro hnumber
  exact absurd (hnumber.ascii '+' List.mem_cons_self) (by decide)

theorem readSegment?_eq_some : readSegment? s = some n ↔ WritesSegment s n := by
  unfold readSegment?
  split
  · next digits =>
    rw [readNumber?_eq_some]
    refine ⟨.signed, fun hwrites => ?_⟩
    cases hwrites with
    | unsigned hnumber => exact absurd hnumber not_writesNumber_plus
    | signed hnumber => exact hnumber
  · next hunsigned =>
    rw [readNumber?_eq_some]
    refine ⟨.unsigned, fun hwrites => ?_⟩
    cases hwrites with
    | unsigned hnumber => exact hnumber
    | signed hnumber => exact absurd rfl (hunsigned _)

theorem readSegment?_eq_none : readSegment? s = none ↔ ¬ ∃ n, WritesSegment s n := by
  simp only [Option.eq_none_iff_forall_ne_some, ← readSegment?_eq_some, not_exists, ne_eq]

theorem readSegments_eq_ok :
    readSegments parts = .ok numbers ↔ List.Forall₂ WritesSegment parts numbers := by
  induction parts generalizing numbers with
  | nil =>
    rw [List.forall₂_nil_left_iff, readSegments, Except.ok.injEq]
    exact eq_comm
  | cons part rest ih =>
    rw [readSegments, List.forall₂_cons_left_iff]
    simp only [← readSegment?_eq_some, ← ih]
    cases readSegment? part with
    | none => simp
    | some n =>
      cases readSegments rest with
      | error bad => simp
      | ok others => simp [eq_comm]

/-- The error is the first part that cannot be read. -/
theorem readSegments_eq_find? : readSegments parts = .error bad ↔
    parts.find? (fun part => (readSegment? part).isNone) = some bad := by
  induction parts with
  | nil => simp [readSegments]
  | cons part rest ih =>
    rw [readSegments]
    cases hread : readSegment? part with
    | none => simp [hread]
    | some n =>
      rw [List.find?_cons_of_neg (by simp [hread]), ← ih]
      cases readSegments rest <;> simp

theorem readSegments_eq_error : readSegments parts = .error bad ↔
    ∃ good later, parts = good ++ bad :: later ∧ (∀ part ∈ good, ∃ n, WritesSegment part n) ∧
      ¬ ∃ n, WritesSegment bad n := by
  have hwritten : ∀ part, (!(readSegment? part).isNone) = true ↔ ∃ n, WritesSegment part n := by
    intro part
    simp only [← readSegment?_eq_some]
    cases readSegment? part <;> simp
  simp only [readSegments_eq_find?, List.find?_eq_some_iff_append, hwritten,
    Option.isNone_iff_eq_none, readSegment?_eq_none]
  constructor
  · rintro ⟨hunread, good, later, hsplit, hall⟩
    exact ⟨good, later, hsplit, hall, hunread⟩
  · rintro ⟨good, later, hsplit, hall, hunread⟩
    exact ⟨hunread, good, later, hsplit, hall⟩

/-! ## Reading a notation -/

/-- There is no dot in a number. -/
theorem WritesSegment.no_dot (h : WritesSegment s n) : '.' ∉ s := by
  have hdigits : ∀ {digits}, WritesNumber digits n → '.' ∉ digits := fun hnumber hdot =>
    absurd (hnumber.ascii '.' hdot) (by decide)
  cases h with
  | unsigned hnumber => exact hdigits hnumber
  | signed hnumber =>
    rw [List.mem_cons, not_or]
    exact ⟨by decide, hdigits hnumber⟩

/-- Every part of a notation writes one of its numbers. -/
theorem exists_of_forall₂_writes (h : List.Forall₂ WritesSegment parts numbers) :
    ∀ part ∈ parts, ∃ n, WritesSegment part n := by
  induction h with
  | nil => exact fun _ hpart => absurd hpart List.not_mem_nil
  | cons hfirst _ ih => exact List.forall_mem_cons.2 ⟨⟨_, hfirst⟩, ih⟩

theorem readSegments_segments_eq_ok :
    readSegments (Text.segments '.' s) = .ok numbers ↔ WritesDotted s numbers := by
  rw [readSegments_eq_ok, Text.segments_eq_splitOn]
  constructor
  · intro hwritten
    exact ⟨_, List.splitOn_ne_nil _ _, (List.intercalate_splitOn '.').symm, hwritten⟩
  · rintro ⟨parts, hnonempty, rfl, hwritten⟩
    have hapart : ∀ part ∈ parts, '.' ∉ part := by
      intro part hpart
      obtain ⟨_, hwrites⟩ := exists_of_forall₂_writes hwritten part hpart
      exact hwrites.no_dot
    rwa [List.splitOn_intercalate '.' hapart hnonempty]

theorem readSegments_segments_eq_error :
    readSegments (Text.segments '.' s) = .error bad ↔ FirstBad s bad := by
  rw [readSegments_eq_error]
  constructor
  · rintro ⟨good, later, hsplit, hwritten, hunread⟩
    refine ⟨good, later, ?_, ?_, hwritten, hunread⟩
    · rw [← hsplit, Text.segments_eq_splitOn, List.intercalate_splitOn]
    · rw [← hsplit]
      exact fun part hpart => Text.not_mem_of_mem_segments hpart
  · rintro ⟨good, later, rfl, hapart, hwritten, hunread⟩
    refine ⟨good, later, ?_, hwritten, hunread⟩
    rw [Text.segments_eq_splitOn]
    exact List.splitOn_intercalate '.' hapart (by simp)

theorem parse_dotted_eq_ok {text iri : String} {key : Key} :
    Format.dotted.parse text iri = .ok key ↔
      ∃ numbers, key = .dotted numbers ∧ WritesDotted (Text.trimChars text.toList) numbers := by
  simp only [← readSegments_segments_eq_ok, Format.parse]
  cases readSegments (Text.segments '.' (Text.trimChars text.toList)) with
  | error bad => simp
  | ok numbers => simp [eq_comm]

theorem parse_dotted_eq_error {text iri : String} {fault : Fault} :
    Format.dotted.parse text iri = .error fault ↔
      ∃ bad, FirstBad (Text.trimChars text.toList) bad ∧
        fault = .malformedDotted text iri (String.ofList bad) := by
  simp only [← readSegments_segments_eq_error, Format.parse]
  cases readSegments (Text.segments '.' (Text.trimChars text.toList)) with
  | error bad => simp [eq_comm]
  | ok numbers => simp

/-! ## Writing -/

/-- A number is written in decimal. -/
theorem writesSegment_repr (h : n < 2 ^ 64) : WritesSegment n.repr.toList n := by
  rw [Nat.toList_repr]
  refine .unsigned ⟨Nat.toDigits_ne_nil, fun c hc => ?_, ?_, h⟩
  · exact Nat.isDigit_of_mem_toDigits (by decide) (Nat.le_refl 10) hc
  · rw [← valueOf_eq]
    exact Nat.ofDigitChars_toDigits (by decide) (Nat.le_refl 10)

/-- Numbers are written in decimal with dots between them. -/
theorem writesDotted_repr (hnonempty : numbers ≠ []) (h : ∀ n ∈ numbers, n < 2 ^ 64) :
    WritesDotted (".".intercalate (numbers.map Nat.repr)).toList numbers := by
  refine ⟨numbers.map (·.repr.toList), by simpa using hnonempty, ?_, ?_⟩
  · rw [String.toList_intercalate, List.map_map]
    rfl
  · rw [List.forall₂_map_left_iff, List.forall₂_same]
    exact fun n hn => writesSegment_repr (h n hn)

/-- A digit is no blank. -/
theorem not_isBlank_of_isDigit (h : c.isDigit = true) : Text.isBlank c = false := by
  have hrange : 48 ≤ c.toNat ∧ c.toNat ≤ 57 := Char.isDigit_iff_toNat.1 h
  simp only [Text.isBlank, Bool.or_eq_false_iff, Bool.and_eq_false_iff, decide_eq_false_iff_not,
    beq_eq_false_iff_ne]
  omega

/-- There is no blank in a notation. -/
theorem not_isBlank_of_writesDotted (h : WritesDotted s numbers) :
    ∀ c ∈ s, Text.isBlank c = false := by
  intro c hc
  obtain ⟨parts, _, rfl, hwritten⟩ := h
  rcases Text.mem_intercalate hc with rfl | ⟨part, hpart, hc⟩
  · decide
  · obtain ⟨_, hwrites⟩ := exists_of_forall₂_writes hwritten part hpart
    cases hwrites with
    | unsigned hnumber => exact not_isBlank_of_isDigit (hnumber.ascii c hc)
    | signed hnumber =>
      rcases List.mem_cons.1 hc with rfl | hc
      · decide
      · exact not_isBlank_of_isDigit (hnumber.ascii c hc)

/-- A notation is what is left between the blanks around it. -/
theorem trims_of_writesDotted {before after : String}
    (hblank : ∀ c ∈ before.toList ++ after.toList, Text.isBlank c = true)
    (h : WritesDotted s numbers) :
    Text.Trims (before.toList ++ s ++ after.toList) s where
  blanks := ⟨before.toList, after.toList, rfl, hblank⟩
  front := fun c hc => not_isBlank_of_writesDotted h c (List.mem_of_head? hc)
  back := fun c hc => not_isBlank_of_writesDotted h c (List.mem_of_getLast? hc)

/-- Every text is read as a dotted notation by what is left of it between the blanks at both ends.
If this is one number below `2 ^ 64` or more, with dots between them and each with an optional plus
sign, the key has just these numbers; otherwise the fault has the whole text and the first part
between the dots that is no such number. So numbers that are written in decimal, with dots between
them and any blanks around, are read again. -/
theorem dotted_read :
    (∀ text iri : String, ∃ core, (∀ s, Text.Trims text.toList s ↔ s = core) ∧
      (∀ key, Format.dotted.parse text iri = .ok key ↔
        ∃ numbers, key = .dotted numbers ∧ WritesDotted core numbers) ∧
      ∀ fault, Format.dotted.parse text iri = .error fault ↔
        ∃ bad, FirstBad core bad ∧ fault = .malformedDotted text iri (String.ofList bad)) ∧
    ∀ (numbers : List Nat) (before after iri : String), numbers ≠ [] →
      (∀ n ∈ numbers, n < 2 ^ 64) →
      (∀ c ∈ before.toList ++ after.toList, Text.isBlank c = true) →
      Format.dotted.parse (before ++ ".".intercalate (numbers.map Nat.repr) ++ after) iri =
        .ok (.dotted numbers) := by
  constructor
  · intro text iri
    exact ⟨Text.trimChars text.toList, fun _ => Text.trims_iff,
      fun _ => parse_dotted_eq_ok, fun _ => parse_dotted_eq_error⟩
  · intro numbers before after iri hnonempty hsmall hblank
    have hwritten := writesDotted_repr hnonempty hsmall
    refine parse_dotted_eq_ok.2 ⟨numbers, rfl, ?_⟩
    rwa [String.toList_append, String.toList_append, (trims_of_writesDotted hblank hwritten).eq]

end Notation

end Thesaurus
