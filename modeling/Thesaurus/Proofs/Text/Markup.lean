import Thesaurus.Text.Markup

/-!
# Markup-safe text

- `Markup.Safe`: texts in which all that means something in markup are entities.
- `Markup.Safe.append`: safe texts can be put together.
- `Markup.Escaped`: texts that have been escaped, which are safe and without double quotes.
- `Markup.escaped_of_plain`: a text without markup characters need not be escaped.
- `Markup.unescape_escape`: an escaped text is read back.
- `Markup.escaped_iff`: just the safe texts without double quotes have been escaped.
- `Markup.escape_lossless`: escaping loses nothing.
-/

namespace Thesaurus

namespace Text

namespace Markup

/-- The entities of the five markup characters. -/
def entities : List String :=
  ["&amp;", "&lt;", "&gt;", "&quot;", "&#39;"]

/-- Whether a text can be put into markup: nothing in it opens or closes a tag or a quote, double
quotes aside, and every ampersand begins an entity. -/
structure Safe (s : List Char) : Prop where
  bare : ∀ c ∈ s, c ≠ '<' ∧ c ≠ '>' ∧ c ≠ '\x27'
  entity : ∀ before rest, s = before ++ '&' :: rest → ∃ e ∈ entities, e.toList <+: '&' :: rest

/-- The characters that escaping writes as entities. -/
def markupChars : List Char :=
  ['&', '<', '>', '\x22', '\x27']

variable {s t : List Char}

theorem Safe.append (h : Safe s) (h' : Safe t) : Safe (s ++ t) where
  bare := List.forall_mem_append.2 ⟨h.bare, h'.bare⟩
  entity := by
    intro before rest hsplit
    rcases List.append_eq_append_iff.1 hsplit with ⟨middle, _, hlater⟩ | ⟨middle, hfirst, hlater⟩
    · exact h'.entity middle rest hlater
    · cases middle with
      | nil => exact h'.entity [] rest hlater.symm
      | cons c middle =>
        -- the ampersand, and its entity, lie in the first part
        obtain ⟨rfl, rfl⟩ := List.cons.inj hlater
        obtain ⟨e, he, hbegins⟩ := h.entity before middle hfirst
        exact ⟨e, he, hbegins.trans (List.prefix_append ('&' :: middle) t)⟩

/-- A text without ampersands is safe if it has none of the other characters. -/
theorem safe_of_bare (h : ∀ c ∈ s, c ≠ '&' ∧ c ≠ '<' ∧ c ≠ '>' ∧ c ≠ '\x27') : Safe s where
  bare := fun c hc => (h c hc).2
  entity := by
    rintro before rest rfl
    exact absurd rfl (h '&' (List.mem_append_right _ List.mem_cons_self)).1

/-- An entity is safe. -/
theorem safe_of_entity {e : String} (h : e ∈ entities) : Safe e.toList where
  bare := by
    have hall : ∀ e ∈ entities, e.toList.all (fun c => c ≠ '<' ∧ c ≠ '>' ∧ c ≠ '\x27') = true := by
      decide
    simpa only [List.all_eq_true, decide_eq_true_eq] using hall e h
  entity := by
    intro before rest hsplit
    -- an entity has no other ampersand than its first character
    have honce : ∀ e ∈ entities, '&' ∉ e.toList.tail := by decide
    cases before with
    | nil => exact ⟨e, h, hsplit ▸ List.prefix_refl _⟩
    | cons c before =>
      refine absurd ?_ (honce e h)
      rw [hsplit]
      exact List.mem_append_right before List.mem_cons_self

/-! ## Escaped texts -/

/-- Whether a text has been escaped. -/
def Escaped (s : List Char) : Prop :=
  ∃ raw, s = escapeChars raw

/-- A character without a meaning in markup stays as it is. -/
theorem escapeChar_of_plain {c : Char} (h : c ∉ markupChars) : escapeChar c = [c] := by
  simp only [markupChars, List.mem_cons, List.not_mem_nil, or_false, not_or] at h
  obtain ⟨hampersand, hless, hgreater, hquote, hapostrophe⟩ := h
  unfold escapeChar
  split <;> first | contradiction | rfl

/-- For every other character an entity is written. -/
theorem exists_entity {c : Char} (h : c ∈ markupChars) :
    ∃ e ∈ entities, escapeChar c = e.toList := by
  simp only [markupChars, List.mem_cons, List.not_mem_nil, or_false] at h
  rcases h with rfl | rfl | rfl | rfl | rfl
  · exact ⟨"&amp;", by decide, by decide⟩
  · exact ⟨"&lt;", by decide, by decide⟩
  · exact ⟨"&gt;", by decide, by decide⟩
  · exact ⟨"&quot;", by decide, by decide⟩
  · exact ⟨"&#39;", by decide, by decide⟩

theorem Escaped.append (h : Escaped s) (h' : Escaped t) : Escaped (s ++ t) := by
  obtain ⟨raw, rfl⟩ := h
  obtain ⟨raw', rfl⟩ := h'
  exact ⟨raw ++ raw', List.flatMap_append.symm⟩

/-- A text without markup characters need not be escaped. -/
theorem escaped_of_plain (h : s.all (· ∉ markupChars) = true) : Escaped s := by
  refine ⟨s, ?_⟩
  induction s with
  | nil => rfl
  | cons c rest ih =>
    rw [List.all_cons, Bool.and_eq_true] at h
    obtain ⟨hplain, hothers⟩ := h
    rw [escapeChars, List.flatMap_cons, escapeChar_of_plain (of_decide_eq_true hplain),
      List.singleton_append]
    exact congrArg (c :: ·) (ih hothers)

/-- Escaped texts are safe. -/
theorem Escaped.safe (h : Escaped s) : Safe s := by
  obtain ⟨raw, rfl⟩ := h
  induction raw with
  | nil => exact safe_of_bare fun _ hc => absurd hc List.not_mem_nil
  | cons c rest ih =>
    refine Safe.append ?_ ih
    by_cases hmarkup : c ∈ markupChars
    · obtain ⟨e, he, hwritten⟩ := exists_entity hmarkup
      exact hwritten ▸ safe_of_entity he
    · rw [escapeChar_of_plain hmarkup]
      refine safe_of_bare fun d hd => ?_
      obtain rfl := List.mem_singleton.1 hd
      simp_all [markupChars]

/-- Escaped texts have no double quotes. -/
theorem Escaped.unquoted (h : Escaped s) : '\x22' ∉ s := by
  obtain ⟨raw, rfl⟩ := h
  have hnever : ∀ e ∈ entities, '\x22' ∉ e.toList := by decide
  intro hquoted
  obtain ⟨c, _, hquoted⟩ := List.mem_flatMap.1 hquoted
  by_cases hmarkup : c ∈ markupChars
  · obtain ⟨e, he, hwritten⟩ := exists_entity hmarkup
    exact hnever e he (hwritten ▸ hquoted)
  · rw [escapeChar_of_plain hmarkup, List.mem_singleton] at hquoted
    exact hmarkup (hquoted ▸ by decide)

/-! ## Reading back -/

theorem escapeChars_cons (c : Char) (s : List Char) :
    escapeChars (c :: s) = escapeChar c ++ escapeChars s :=
  List.flatMap_cons

/-- Only an ampersand can begin an entity. -/
theorem unescapeChars_cons {c : Char} (h : c ≠ '&') (rest : List Char) :
    unescapeChars (c :: rest) = c :: unescapeChars rest := by
  rw [unescapeChars]
  all_goals
    rintro rest rfl
    exact absurd rfl h

/-- What is written for a character is read as that character, whatever comes after it. -/
theorem unescapeChars_escapeChar (c : Char) (rest : List Char) :
    unescapeChars (escapeChar c ++ rest) = c :: unescapeChars rest := by
  by_cases hmarkup : c ∈ markupChars
  · simp only [markupChars, List.mem_cons, List.not_mem_nil, or_false] at hmarkup
    rcases hmarkup with rfl | rfl | rfl | rfl | rfl <;> rfl
  · have hother : c ≠ '&' := by
      rintro rfl
      exact hmarkup (by decide)
    rw [escapeChar_of_plain hmarkup, List.singleton_append, unescapeChars_cons hother]

/-- An escaped text is read back. -/
theorem unescapeChars_escapeChars (s : List Char) : unescapeChars (escapeChars s) = s := by
  induction s with
  | nil => rfl
  | cons c rest ih => rw [escapeChars_cons, unescapeChars_escapeChar, ih]

/-! ## What escaped texts look like -/

/-- Every entity is written for a character. -/
theorem exists_char {e : String} (h : e ∈ entities) : ∃ c, escapeChar c = e.toList := by
  simp only [entities, List.mem_cons, List.not_mem_nil, or_false] at h
  rcases h with rfl | rfl | rfl | rfl | rfl
  · exact ⟨'&', by decide⟩
  · exact ⟨'<', by decide⟩
  · exact ⟨'>', by decide⟩
  · exact ⟨'\x22', by decide⟩
  · exact ⟨'\x27', by decide⟩

/-- The end of a safe text is safe. -/
theorem Safe.later (h : Safe (s ++ t)) : Safe t where
  bare := fun c hc => h.bare c (List.mem_append_right s hc)
  entity := by
    rintro before rest rfl
    exact h.entity (s ++ before) rest (List.append_assoc ..).symm

/-- A safe text without double quotes begins with what is written for a character. -/
theorem Safe.exists_written {c : Char} (h : Safe (c :: s)) (hunquoted : '\x22' ∉ c :: s) :
    ∃ d rest, c :: s = escapeChar d ++ rest := by
  by_cases hampersand : c = '&'
  · subst hampersand
    obtain ⟨e, he, rest, hbegins⟩ := h.entity [] s rfl
    obtain ⟨d, hwritten⟩ := exists_char he
    exact ⟨d, rest, by rw [hwritten, hbegins]⟩
  · have hbare := h.bare c List.mem_cons_self
    have hquote : c ≠ '\x22' := by
      rintro rfl
      exact hunquoted List.mem_cons_self
    have hplain : c ∉ markupChars := by simp [markupChars, hampersand, hbare, hquote]
    exact ⟨c, s, by rw [escapeChar_of_plain hplain, List.singleton_append]⟩

theorem length_escapeChar_pos (c : Char) : 0 < (escapeChar c).length := by
  unfold escapeChar
  split <;> exact Nat.succ_pos _

/-- Just the safe texts without double quotes have been escaped. -/
theorem escaped_iff : Escaped s ↔ Safe s ∧ '\x22' ∉ s := by
  refine ⟨fun h => ⟨h.safe, h.unquoted⟩, ?_⟩
  rintro ⟨hsafe, hunquoted⟩
  induction hlong : s.length using Nat.strongRecOn generalizing s with
  | ind n ih =>
    cases s with
    | nil => exact ⟨[], rfl⟩
    | cons c s =>
      obtain ⟨d, rest, hbegins⟩ := hsafe.exists_written hunquoted
      rw [hbegins] at hsafe hunquoted hlong ⊢
      have hshorter : rest.length < n := by
        have hwritten := length_escapeChar_pos d
        rw [List.length_append] at hlong
        omega
      have hlater : '\x22' ∉ rest := fun hmem => hunquoted (List.mem_append_right _ hmem)
      obtain ⟨raw, rfl⟩ := ih rest.length hshorter hsafe.later hlater rfl
      exact ⟨d :: raw, (escapeChars_cons d raw).symm⟩

/-! ## Texts -/

theorem toList_escape (s : String) : (escape s).toList = escapeChars s.toList :=
  String.toList_ofList

/-- An escaped text is read back. -/
theorem unescape_escape (s : String) : unescape (escape s) = s := by
  rw [unescape, toList_escape, unescapeChars_escapeChars, String.ofList_toList]

/-- Escaping loses nothing. A text is escaped part by part; just the texts in which all that means
something in markup are entities come out, and reading the entities from left to right gives back
the text that was escaped, so that different texts stay different. -/
theorem escape_lossless :
    (∀ s t : String, escape (s ++ t) = escape s ++ escape t) ∧
    (∀ t : String, (∃ s, escape s = t) ↔ Safe t.toList ∧ '\x22' ∉ t.toList) ∧
    (∀ s : String, unescape (escape s) = s) ∧
    ∀ s t : String, escape s = escape t ↔ s = t := by
  refine ⟨fun s t => ?_, fun t => ?_, unescape_escape, fun s t => ⟨fun hsame => ?_, congrArg _⟩⟩
  · rw [← String.toList_inj, String.toList_append, toList_escape, toList_escape, toList_escape,
      String.toList_append]
    exact List.flatMap_append
  · rw [← escaped_iff]
    constructor
    · rintro ⟨s, rfl⟩
      exact ⟨s.toList, toList_escape s⟩
    · rintro ⟨raw, hwritten⟩
      refine ⟨.ofList raw, ?_⟩
      rw [← String.toList_inj, toList_escape, String.toList_ofList, hwritten]
  · rw [← unescape_escape s, hsame, unescape_escape]

end Markup

end Text

end Thesaurus
