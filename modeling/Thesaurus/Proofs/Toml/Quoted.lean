import Mathlib.Data.List.Infix
import Thesaurus.Proofs.Text.Percent
import Thesaurus.Toml.Quoted

/-!
# Quoted texts are read again

Each of the four ways to write a text is read again by the reader that its quotes call for, whatever
the text: with escapes always, and without escapes where the style is chosen.

- `le_longestRun`: a run of a character is no longer than the longest.
- `Style.of_literal`, `Style.of_longLiteral`: what texts without escapes are like.
- `readBasic_escape`, `readLongBasic_escape`: texts with escapes are read again.
- `readLiteral_append`, `readLongLiteral_append`: so are texts without escapes.
- `readQuoted_quote`: a text is read again from the way in which it is best written.
-/

namespace Thesaurus

namespace Toml

open Text (charOf? prepend prependEscaped)

variable {c q : Char} {s t rest : List Char} {n run : Nat}

/-! ## Runs -/

theorem le_longestRunFrom (q : Char) (run : Nat) (s : List Char) :
    run ≤ longestRunFrom q run s := by
  induction s generalizing run with
  | nil => exact Nat.le_refl _
  | cons d rest ih =>
    rw [longestRunFrom]
    split
    · exact Nat.le_of_succ_le (ih (run + 1))
    · exact Nat.le_max_left _ _

theorem longestRunFrom_mono {run run' : Nat} (h : run ≤ run') :
    longestRunFrom q run s ≤ longestRunFrom q run' s := by
  induction s generalizing run run' with
  | nil => exact h
  | cons d rest ih =>
    rw [longestRunFrom, longestRunFrom]
    split
    · exact ih (Nat.succ_le_succ h)
    · exact max_le_max_right _ h

/-- A run at the front goes on with the run before it. -/
theorem add_le_longestRunFrom (h : List.replicate n q <+: s) :
    run + n ≤ longestRunFrom q run s := by
  induction n generalizing s run with
  | zero => exact le_longestRunFrom q run s
  | succ n ih =>
    obtain ⟨rest, rfl⟩ := h
    rw [List.replicate_succ, List.cons_append, longestRunFrom, if_pos rfl]
    have hfurther : run + 1 + n ≤ longestRunFrom q (run + 1) (List.replicate n q ++ rest) :=
      ih (List.prefix_append _ _)
    omega

/-- A run is no longer than the longest. -/
theorem le_longestRun (h : List.replicate n q <:+: s) : n ≤ longestRun q s := by
  induction s with
  | nil =>
    have hempty := congrArg List.length (List.eq_nil_of_infix_nil h)
    rw [List.length_replicate] at hempty
    exact hempty ▸ Nat.zero_le _
  | cons d rest ih =>
    -- a run starts at the front or lies behind it
    rcases List.infix_cons_iff.1 h with hfront | hinside
    · exact Nat.zero_add n ▸ add_le_longestRunFrom hfront
    · refine (ih hinside).trans ?_
      unfold longestRun
      rw [longestRunFrom]
      split
      · exact longestRunFrom_mono (Nat.zero_le _)
      · exact Nat.le_max_right _ _

theorem not_mem_of_longestRun (h : longestRun q s = 0) : q ∉ s := by
  intro hmem
  obtain ⟨before, after, rfl⟩ := List.append_of_mem hmem
  have hrun : List.replicate 1 q <:+: before ++ q :: after := ⟨before, after, by simp⟩
  exact absurd (le_longestRun hrun) (by omega)

/-! ## Styles -/

theorem forall_needsEscape (h : ¬ s.any needsEscape = true) : ∀ c ∈ s, needsEscape c = false := by
  simpa using h

/-- What is written in single quotes on one line has no controls but tabs, and no single quotes. -/
theorem Style.of_literal (h : Style.of s = .literal) :
    (∀ c ∈ s, needsEscape c = false) ∧ '\n' ∉ s ∧ '\x27' ∉ s := by
  unfold Style.of at h
  dsimp only at h
  split_ifs at h with hescape _ _ hquotes
  rw [Bool.and_eq_true, beq_iff_eq, Bool.not_eq_true', List.contains_eq_mem,
    decide_eq_false_iff_not] at hquotes
  exact ⟨forall_needsEscape hescape, hquotes.2, not_mem_of_longestRun hquotes.1⟩

/-- What is written in single quotes over several lines has no controls but tabs and line breaks,
and no three single quotes in a row. -/
theorem Style.of_longLiteral (h : Style.of s = .longLiteral) :
    (∀ c ∈ s, needsEscape c = false) ∧ ¬ List.replicate 3 '\x27' <:+: s := by
  unfold Style.of at h
  dsimp only at h
  split_ifs at h with hescape _ _ _ _ few
  exact ⟨forall_needsEscape hescape, fun hthree => absurd (le_longestRun hthree) (by omega)⟩

/-! ## Escapes -/

/-- The four digits of a number name its character. -/
theorem charOf?_hexDigits4 (h : c.toNat < 65536) : charOf? (hexDigits4 c.toNat) = some c := by
  have hdigit : ∀ k, Text.hexValue? (Text.upperHexDigit (k % 16)) = some (k % 16) := fun k =>
    Text.hexValue_upperHexDigit (Nat.mod_lt _ (by decide))
  have hvalue : 16 * (16 * (16 * (16 * 0 + c.toNat / 4096 % 16) + c.toNat / 256 % 16)
      + c.toNat / 16 % 16) + c.toNat % 16 = c.toNat := by omega
  have hvalid : c.toNat.isValidChar := c.valid
  simp only [charOf?, hexDigits4, List.mapM_cons, hdigit, List.mapM_nil, Option.pure_def,
    Option.bind_eq_bind, Option.bind_some, List.foldl_cons, List.foldl_nil, hvalue, if_pos hvalid,
    Char.ofNat_toNat]

theorem isPlain_of_not_isControl (h : isControl c = false) : isPlain c = true := by
  simp [isPlain, h]

theorem isPlain_of_not_needsEscape (h : needsEscape c = false) (hbreak : c ≠ '\n') :
    isPlain c = true := by
  simpa [needsEscape, isPlain, hbreak, Decidable.or_iff_not_imp_left] using h

theorem ne_of_isPlain (h : isPlain c = true) : c ≠ '\n' ∧ c ≠ '\r' := by
  constructor <;> (rintro rfl; exact absurd h (by decide))

/-- What is written for a character other than a quote: the character itself, its name after a
backslash, or its number. -/
theorem escapeBasic_cases (long : Bool) (hc : c ≠ '\x22') :
    (escapeBasic long c = [c] ∧ isPlain c = true ∧ c ≠ '\\') ∨
    (escapeBasic long c = [c] ∧ long = true ∧ c = '\n') ∨
    (∃ name, escapeBasic long c = ['\\', name] ∧ namedEscape? name = some c) ∨
    ∃ digits, escapeBasic long c = '\\' :: 'u' :: digits ∧ digits.length = 4 ∧
      charOf? digits = some c := by
  have hnamed : ∀ name, escapeBasic long c = ['\\', name] → namedEscape? name = some c →
      ∃ name, escapeBasic long c = ['\\', name] ∧ namedEscape? name = some c :=
    fun name hwritten hstands => ⟨name, hwritten, hstands⟩
  unfold escapeBasic at hnamed ⊢
  -- named escapes come first, then control characters by number, and the rest stands for itself
  split
  · exact .inr (.inr (.inl (hnamed 'b' rfl rfl)))
  · exact .inr (.inr (.inl (hnamed 't' rfl rfl)))
  · cases long
    · exact .inr (.inr (.inl (hnamed 'n' rfl rfl)))
    · exact .inr (.inl ⟨rfl, rfl, rfl⟩)
  · exact .inr (.inr (.inl (hnamed 'f' rfl rfl)))
  · exact .inr (.inr (.inl (hnamed 'r' rfl rfl)))
  · exact .inr (.inr (.inl (hnamed '\\' rfl rfl)))
  · next hbackspace htab hnewLine hformFeed hcarriageReturn hbackslash =>
    split
    · next hcontrol =>
      have hsmall : c.toNat < 65536 := by
        simp only [isControl, Bool.or_eq_true, decide_eq_true_eq, beq_iff_eq] at hcontrol
        omega
      exact .inr (.inr (.inr ⟨hexDigits4 c.toNat, rfl, rfl, charOf?_hexDigits4 hsmall⟩))
    · next hplain =>
      exact .inl ⟨rfl, isPlain_of_not_isControl (Bool.not_eq_true _ ▸ hplain), hbackslash⟩

/-- What is written for a character other than a quote does not start with a quote. -/
theorem not_prefix_escapeBasic (long : Bool) (hc : c ≠ '\x22') (t : List Char) :
    ¬ ['\x22'] <+: escapeBasic long c ++ t := by
  rcases escapeBasic_cases long hc with ⟨h, -⟩ | ⟨h, -⟩ | ⟨name, h, -⟩ | ⟨digits, h, -⟩ <;>
    simp [h, Ne.symm hc]

/-! ## One line -/

/-- A character that stands for itself is read as such. -/
theorem readBasic_cons (hplain : isPlain c = true) (hquote : c ≠ '\x22') (hbackslash : c ≠ '\\')
    (rest : List Char) : readBasic (c :: rest) = prepend c (readBasic rest) := by
  rw [readBasic.eq_def]
  split <;> simp_all

theorem readBasic_named {name : Char} (h : namedEscape? name = some c) (rest : List Char) :
    readBasic ('\\' :: name :: rest) = prepend c (readBasic rest) := by
  unfold namedEscape? at h
  split at h <;> cases h <;> simp [readBasic, namedEscape?, prependEscaped]

theorem readBasic_numbered {digits : List Char} (hlength : digits.length = 4)
    (h : charOf? digits = some c) (rest : List Char) :
    readBasic ('\\' :: 'u' :: digits ++ rest) = prepend c (readBasic rest) := by
  match digits, hlength with
  | [d₁, d₂, d₃, d₄], _ => simp [readBasic, h, prependEscaped]

/-- A character other than a quote is read from what is written for it on one line. -/
theorem readBasic_escapeBasic (hc : c ≠ '\x22') (rest : List Char) :
    readBasic (escapeBasic false c ++ rest) = prepend c (readBasic rest) := by
  rcases escapeBasic_cases false hc with ⟨hwritten, hplain, hbackslash⟩ | ⟨-, hlong, -⟩ |
    ⟨name, hwritten, hstands⟩ | ⟨digits, hwritten, hfour, hstands⟩
  · rw [hwritten]
    exact readBasic_cons hplain hc hbackslash rest
  · cases hlong
  · rw [hwritten]
    exact readBasic_named hstands rest
  · rw [hwritten]
    exact readBasic_numbered hfour hstands rest

/-- A text with escapes on one line is read again. -/
theorem readBasic_escape (s rest : List Char) :
    readBasic (escapeBasicFrom false 0 s ++ '\x22' :: rest) = some (s, rest) := by
  induction s with
  | nil => rfl
  | cons c s ih =>
    rw [escapeBasicFrom]
    by_cases hc : c = '\x22'
    · subst hc
      rw [if_pos rfl, if_neg (by simp), List.cons_append, List.cons_append, readBasic_named rfl, ih]
      rfl
    · rw [if_neg hc, List.append_assoc, readBasic_escapeBasic hc, ih]
      rfl

/-- A text without single quotes is read again as it is. -/
theorem readLiteral_append (hplain : ∀ c ∈ s, isPlain c = true) (hquote : '\x27' ∉ s)
    (rest : List Char) : readLiteral (s ++ '\x27' :: rest) = some (s, rest) := by
  induction s with
  | nil => rfl
  | cons c s ih =>
    have hfront : readLiteral (c :: (s ++ '\x27' :: rest)) =
        prepend c (readLiteral (s ++ '\x27' :: rest)) := by
      have hc : c ≠ '\x27' := fun h => hquote (h ▸ List.mem_cons_self)
      have hplain' := hplain c List.mem_cons_self
      rw [readLiteral.eq_def]
      split <;> simp_all
    rw [List.cons_append, hfront, ih (fun d hd => hplain d (List.mem_cons_of_mem _ hd))
      (fun h => hquote (List.mem_cons_of_mem _ h))]
    rfl

/-! ## Closing quotes -/

/-- Up to two quotes in front of the closing ones, or after them, which is the same, belong to the
text. -/
theorem closeLong_append (hs : s = [] ∨ s = [q] ∨ s = [q, q]) (hrest : rest.head? ≠ some q) :
    closeLong q (s ++ rest) = (s, rest) := by
  rcases hs with rfl | rfl | rfl <;> match rest, hrest with
    | [], _ => simp [closeLong]
    | d :: rest, hd => simp_all [closeLong]

theorem append_closing (hs : s = [] ∨ s = [q] ∨ s = [q, q]) :
    s ++ q :: q :: q :: rest = q :: q :: q :: (s ++ rest) := by
  rcases hs with rfl | rfl | rfl <;> rfl

theorem readLongBasic_closing (hs : s = [] ∨ s = ['\x22'] ∨ s = ['\x22', '\x22'])
    (hrest : rest.head? ≠ some '\x22') :
    readLongBasic false (s ++ '\x22' :: '\x22' :: '\x22' :: rest) = some (s, rest) := by
  rw [append_closing hs, readLongBasic, closeLong_append hs hrest]

theorem readLongLiteral_closing (hs : s = [] ∨ s = ['\x27'] ∨ s = ['\x27', '\x27'])
    (hrest : rest.head? ≠ some '\x27') :
    readLongLiteral (s ++ '\x27' :: '\x27' :: '\x27' :: rest) = some (s, rest) := by
  rw [append_closing hs, readLongLiteral, closeLong_append hs hrest]

/-! ## Several lines with escapes -/

/-- A quote that is not the first of three is read as such. -/
theorem readLongBasic_quote (h : ¬ ['\x22', '\x22'] <+: rest) :
    readLongBasic false ('\x22' :: rest) = prepend '\x22' (readLongBasic false rest) := by
  rw [readLongBasic.eq_def]
  split <;> simp_all [isPlain, isControl]
  next heq =>
    obtain ⟨rfl, rfl⟩ := heq
    simp

/-- A character that stands for itself is read as such. -/
theorem readLongBasic_cons (hplain : isPlain c = true) (hquote : c ≠ '\x22')
    (hbackslash : c ≠ '\\') (rest : List Char) :
    readLongBasic false (c :: rest) = prepend c (readLongBasic false rest) := by
  obtain ⟨hbreak, hreturn⟩ := ne_of_isPlain hplain
  rw [readLongBasic.eq_def]
  split <;> simp_all

theorem readLongBasic_named {name : Char} (h : namedEscape? name = some c) (rest : List Char) :
    readLongBasic false ('\\' :: name :: rest) = prepend c (readLongBasic false rest) := by
  unfold namedEscape? at h
  split at h <;> cases h <;> simp [readLongBasic, endsLine, namedEscape?, prependEscaped]

theorem readLongBasic_numbered {digits : List Char} (hlength : digits.length = 4)
    (h : charOf? digits = some c) (rest : List Char) :
    readLongBasic false ('\\' :: 'u' :: digits ++ rest) = prepend c (readLongBasic false rest) := by
  match digits, hlength with
  | [d₁, d₂, d₃, d₄], _ => simp [readLongBasic, h, prependEscaped]

/-- A character other than a quote is read from what is written for it over several lines. -/
theorem readLongBasic_escapeBasic (hc : c ≠ '\x22') (rest : List Char) :
    readLongBasic false (escapeBasic true c ++ rest) = prepend c (readLongBasic false rest) := by
  rcases escapeBasic_cases true hc with ⟨hwritten, hplain, hbackslash⟩ | ⟨hwritten, -, rfl⟩ |
    ⟨name, hwritten, hstands⟩ | ⟨digits, hwritten, hfour, hstands⟩
  · rw [hwritten]
    exact readLongBasic_cons hplain hc hbackslash rest
  · rw [hwritten]
    simp [readLongBasic]
  · rw [hwritten]
    exact readLongBasic_named hstands rest
  · rw [hwritten]
    exact readLongBasic_numbered hfour hstands rest

/-- Quotes that are written as they are belong to no three quotes but the closing ones. -/
theorem eq_closing_of_prefix
    (h : ['\x22', '\x22'] <+:
      escapeBasicFrom true (run + 1) s ++ '\x22' :: '\x22' :: '\x22' :: rest) :
    s = [] ∨ s = ['\x22'] ∧ run = 0 := by
  -- a character other than a quote would end the prefix at once
  match s with
  | [] => exact .inl rfl
  | c :: s =>
    refine .inr ?_
    rw [escapeBasicFrom] at h
    by_cases hc : c = '\x22'
    · rw [if_pos hc] at h
      by_cases hfew : run = 0
      · -- after two quotes a third would be escaped, so that the text ends here
        subst hfew hc
        rw [if_pos (by simp), List.cons_append, List.cons_prefix_cons] at h
        match s with
        | [] => exact ⟨rfl, rfl⟩
        | d :: s =>
          have h := h.2
          rw [escapeBasicFrom] at h
          split at h
          · simp at h
          · next hd =>
            rw [List.append_assoc] at h
            exact absurd h (not_prefix_escapeBasic true hd _)
      · rw [if_neg (by simp; omega), List.cons_append, List.cons_prefix_cons] at h
        exact absurd h.1 (by decide)
    · rw [if_neg hc, List.append_assoc] at h
      exact absurd ((List.prefix_append ['\x22'] ['\x22']).trans h)
        (not_prefix_escapeBasic true hc _)

/-- A text with escapes over several lines is read again, up to three quotes after which there is
no further quote. -/
theorem readLongBasic_escape (s : List Char) (hrun : run ≤ 2) (hrest : rest.head? ≠ some '\x22') :
    readLongBasic false (escapeBasicFrom true run s ++ '\x22' :: '\x22' :: '\x22' :: rest) =
      some (s, rest) := by
  -- by induction on the text, whatever quotes were written as they are before it
  induction s generalizing run with
  | nil => exact readLongBasic_closing (.inl rfl) hrest
  | cons c s ih =>
    by_cases hc : c = '\x22'
    · subst hc
      rw [escapeBasicFrom, if_pos rfl]
      by_cases hfew : run < 2
      · rw [if_pos (by simpa using hfew), List.cons_append]
        by_cases hlast : ['\x22', '\x22'] <+:
            escapeBasicFrom true (run + 1) s ++ '\x22' :: '\x22' :: '\x22' :: rest
        · rcases eq_closing_of_prefix hlast with rfl | ⟨rfl, rfl⟩
          · exact readLongBasic_closing (.inr (.inl rfl)) hrest
          · exact readLongBasic_closing (.inr (.inr rfl)) hrest
        · rw [readLongBasic_quote hlast, ih (by omega)]
          rfl
      · rw [if_neg (by simpa using hfew), List.cons_append, List.cons_append,
          readLongBasic_named rfl, ih (by omega)]
        rfl
    · rw [escapeBasicFrom, if_neg hc, List.append_assoc, readLongBasic_escapeBasic hc,
        ih (Nat.zero_le _)]
      rfl

/-! ## Several lines without escapes -/

/-- A quote that is not the first of three is read as such. -/
theorem readLongLiteral_quote (h : ¬ ['\x27', '\x27'] <+: rest) :
    readLongLiteral ('\x27' :: rest) = prepend '\x27' (readLongLiteral rest) := by
  rw [readLongLiteral.eq_def]
  split <;> simp_all [isPlain, isControl]
  next heq =>
    obtain ⟨rfl, rfl⟩ := heq
    simp

/-- A character that stands for itself, or a line break, is read as such. -/
theorem readLongLiteral_cons (hescape : needsEscape c = false) (hquote : c ≠ '\x27')
    (rest : List Char) : readLongLiteral (c :: rest) = prepend c (readLongLiteral rest) := by
  have hplain := isPlain_of_not_needsEscape hescape
  have hreturn : c ≠ '\r' := by
    rintro rfl
    exact absurd hescape (by decide)
  rw [readLongLiteral.eq_def]
  split <;> simp_all

/-- A text without three single quotes in a row is read again as it is, up to three quotes after
which there is no further quote. -/
theorem readLongLiteral_append (hescape : ∀ c ∈ s, needsEscape c = false)
    (hquotes : ¬ List.replicate 3 '\x27' <:+: s) (hrest : rest.head? ≠ some '\x27') :
    readLongLiteral (s ++ '\x27' :: '\x27' :: '\x27' :: rest) = some (s, rest) := by
  induction s with
  | nil => exact readLongLiteral_closing (.inl rfl) hrest
  | cons c s ih =>
    have hfurther := ih (fun d hd => hescape d (List.mem_cons_of_mem _ hd))
      (fun h => hquotes (List.infix_cons h))
    by_cases hc : c = '\x27'
    · subst hc
      -- two more quotes are the closing ones, or three of the text would stand in a row
      by_cases hlast : ['\x27', '\x27'] <+: s ++ '\x27' :: '\x27' :: '\x27' :: rest
      · match s with
        | [] => exact readLongLiteral_closing (.inr (.inl rfl)) hrest
        | [d] =>
          obtain rfl : '\x27' = d := (List.cons_prefix_cons.1 hlast).1
          exact readLongLiteral_closing (.inr (.inr rfl)) hrest
        | d :: e :: s =>
          obtain ⟨rfl, hsecond⟩ := List.cons_prefix_cons.1 hlast
          obtain rfl : '\x27' = e := (List.cons_prefix_cons.1 hsecond).1
          exact absurd (List.prefix_append (List.replicate 3 '\x27') s).isInfix hquotes
      · rw [List.cons_append, readLongLiteral_quote hlast, hfurther]
        rfl
    · rw [List.cons_append, readLongLiteral_cons (hescape c List.mem_cons_self) hc, hfurther]
      rfl

/-! ## Quotes of all kinds -/

theorem dropBreak_cons (hbreak : c ≠ '\n') (hreturn : c ≠ '\r') (t : List Char) :
    dropBreak (c :: t) = c :: t := by
  unfold dropBreak
  split <;> simp_all

/-- The line break that opens a text with lines is passed over, and a text without lines does not
start with one. -/
theorem dropBreak_opening (h : '\n' ∉ s → ∃ c u, t = c :: u ∧ c ≠ '\n' ∧ c ≠ '\r') :
    dropBreak (openingBreak s ++ t) = t := by
  unfold openingBreak
  split
  · rfl
  · next hlines =>
    obtain ⟨c, u, rfl, hbreak, hreturn⟩ := h (by simpa using hlines)
    exact dropBreak_cons hbreak hreturn u

/-- The first character that is written for a text without lines in double quotes is none of the
characters of line breaks. -/
theorem exists_cons_escapeBasicFrom (h : '\n' ∉ s) (t : List Char) :
    ∃ c u, escapeBasicFrom true 0 s ++ '\x22' :: t = c :: u ∧ c ≠ '\n' ∧ c ≠ '\r' := by
  match s with
  | [] => exact ⟨_, _, rfl, by decide, by decide⟩
  | c :: s =>
    rw [escapeBasicFrom]
    by_cases hc : c = '\x22'
    · rw [if_pos hc, if_pos (by decide)]
      exact ⟨_, _, rfl, by decide, by decide⟩
    · rw [if_neg hc]
      rcases escapeBasic_cases true hc with ⟨hwritten, hplain, -⟩ | ⟨-, -, rfl⟩ |
        ⟨name, hwritten, -⟩ | ⟨digits, hwritten, -⟩
      · rw [hwritten]
        exact ⟨_, _, rfl, ne_of_isPlain hplain⟩
      · exact absurd List.mem_cons_self h
      · rw [hwritten]
        exact ⟨_, _, rfl, by decide, by decide⟩
      · rw [hwritten]
        exact ⟨_, _, rfl, by decide, by decide⟩

theorem exists_cons_append (hescape : ∀ c ∈ s, needsEscape c = false) (h : '\n' ∉ s)
    (t : List Char) :
    ∃ c u, s ++ '\x27' :: t = c :: u ∧ c ≠ '\n' ∧ c ≠ '\r' := by
  match s with
  | [] => exact ⟨_, _, rfl, by decide, by decide⟩
  | c :: s =>
    exact ⟨_, _, rfl, ne_of_isPlain (isPlain_of_not_needsEscape (hescape c List.mem_cons_self)
      fun h' => h (h' ▸ List.mem_cons_self))⟩

/-- A double quote that is not the first of three opens a text on one line. -/
theorem readQuoted_basic (h : ¬ ['\x22', '\x22'] <+: t) :
    readQuoted ('\x22' :: t) = readBasic t := by
  rw [readQuoted.eq_def]
  split <;> simp_all

/-- A single quote that is not the first of three opens a text on one line. -/
theorem readQuoted_literal (h : ¬ ['\x27', '\x27'] <+: t) :
    readQuoted ('\x27' :: t) = readLiteral t := by
  rw [readQuoted.eq_def]
  split <;> simp_all

/-- A text is read again from any way in which it may be written, up to what does not start with a
quote. -/
theorem readQuoted_quoteIn {style : Style} (hstyle : Style.of s = style)
    (hdouble : rest.head? ≠ some '\x22') (hsingle : rest.head? ≠ some '\x27') :
    readQuoted (quoteIn s style ++ rest) = some (s, rest) := by
  match style with
  | .basic =>
    -- two quotes in a row would be read as the start of a long form
    have hfirst : ¬ ['\x22', '\x22'] <+: escapeBasicFrom false 0 s ++ '\x22' :: rest := by
      match s with
      | [] =>
        match rest, hdouble with
        | [], _ => simp [escapeBasicFrom]
        | d :: rest, hd => simpa [escapeBasicFrom, eq_comm] using hd
      | c :: s =>
        rw [escapeBasicFrom]
        by_cases hc : c = '\x22'
        · simp [hc]
        · rw [if_neg hc, List.append_assoc]
          exact fun h => not_prefix_escapeBasic false hc _
            ((List.prefix_append ['\x22'] ['\x22']).trans h)
    have hwritten : quoteIn s .basic ++ rest =
        '\x22' :: (escapeBasicFrom false 0 s ++ '\x22' :: rest) := by simp [quoteIn]
    rw [hwritten, readQuoted_basic hfirst, readBasic_escape]
  | .literal =>
    obtain ⟨hescape, hlines, hquotes⟩ := Style.of_literal hstyle
    have hfirst : ¬ ['\x27', '\x27'] <+: s ++ '\x27' :: rest := by
      match s with
      | [] =>
        match rest, hsingle with
        | [], _ => simp
        | d :: rest, hd => simpa [eq_comm] using hd
      | c :: s =>
        exact fun h => hquotes ((List.cons_prefix_cons.1 h).1 ▸ List.mem_cons_self)
    have hwritten : quoteIn s .literal ++ rest = '\x27' :: (s ++ '\x27' :: rest) := by
      simp [quoteIn]
    have hplain : ∀ c ∈ s, isPlain c = true := fun c hc =>
      isPlain_of_not_needsEscape (hescape c hc) fun h => hlines (h ▸ hc)
    rw [hwritten, readQuoted_literal hfirst, readLiteral_append hplain hquotes]
  | .longBasic =>
    have hwritten : quoteIn s .longBasic ++ rest = '\x22' :: '\x22' :: '\x22' ::
        (openingBreak s ++ (escapeBasicFrom true 0 s ++ '\x22' :: '\x22' :: '\x22' :: rest)) := by
      simp [quoteIn]
    -- the reader drops a line break after the quotes, which is why one is written there
    have hopening := dropBreak_opening fun (hlines : '\n' ∉ s) =>
      exists_cons_escapeBasicFrom hlines ('\x22' :: '\x22' :: rest)
    rw [hwritten, readQuoted, hopening, readLongBasic_escape s (Nat.zero_le 2) hdouble]
  | .longLiteral =>
    obtain ⟨hescape, hfew⟩ := Style.of_longLiteral hstyle
    have hwritten : quoteIn s .longLiteral ++ rest = '\x27' :: '\x27' :: '\x27' ::
        (openingBreak s ++ (s ++ '\x27' :: '\x27' :: '\x27' :: rest)) := by
      simp [quoteIn]
    have hopening := dropBreak_opening fun (hlines : '\n' ∉ s) =>
      exists_cons_append hescape hlines ('\x27' :: '\x27' :: rest)
    rw [hwritten, readQuoted, hopening, readLongLiteral_append hescape hfew hsingle]

/-- A text is read again from the way in which it is best written. -/
theorem readQuoted_quote (s : List Char) (hdouble : rest.head? ≠ some '\x22')
    (hsingle : rest.head? ≠ some '\x27') : readQuoted (quote s ++ rest) = some (s, rest) :=
  readQuoted_quoteIn rfl hdouble hsingle

end Toml

end Thesaurus
