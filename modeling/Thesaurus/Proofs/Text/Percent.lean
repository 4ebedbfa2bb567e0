import Mathlib.Tactic.IntervalCases
import Thesaurus.Text.Percent

/-!
# URL forms

What stands in a URL form, which texts are their own, and what a URL form stands for. All that has
to be known of the normal form is that it leaves texts of ASCII characters alone.

- `UrlCharacter`: the characters that stand for themselves in a URL.
- `percentEncode_eq_self_iff`: texts of such characters, and no others, are written as they are.
- `percentDecode_percentEncode`: the bytes of a text without percent signs are read again.
- `Normalization`: a normal form that leaves such texts alone.
- `canonicalComposition`: the one of this development.
- `url_form_exact`: which texts have a URL form of their own, and what it looks like.
-/

namespace Thesaurus

namespace Text

variable {c : Char} {s t : List Char} {n : Nat}

/-- The characters that stand for themselves in a URL: those of ASCII, without controls, the blank
and nine others. -/
structure UrlCharacter (c : Char) : Prop where
  ascii : c.toNat < 128
  graphic : ¬ (c.toNat < 32 ∨ c.toNat = 127)
  allowed : c ∉ [' ', '\x22', '<', '>', '\x60', '\x7b', '\x7d', '|', '\\', '^']

theorem isUrlSafe_iff : isUrlSafe c = true ↔ UrlCharacter c := by
  have hblank : c = ' ' ↔ c.toNat = 32 := Char.toNat_inj.symm
  simp only [isUrlSafe, Bool.and_eq_true, decide_eq_true_eq]
  constructor
  · rintro ⟨⟨hlow, hhigh⟩, hother⟩
    refine ⟨by omega, by omega, ?_⟩
    rw [List.mem_cons, not_or, hblank]
    exact ⟨by omega, hother⟩
  · rintro ⟨hascii, hgraphic, hallowed⟩
    rw [List.mem_cons, not_or, hblank] at hallowed
    exact ⟨by omega, hallowed.2⟩

/-! ## Digits -/

theorem hexValue_upperHexDigit (h : n < 16) : hexValue? (upperHexDigit n) = some n := by
  interval_cases n <;> rfl

theorem isUrlSafe_upperHexDigit (h : n < 16) : isUrlSafe (upperHexDigit n) = true := by
  interval_cases n <;> rfl

/-- A byte is written with characters that stand for themselves. -/
theorem isUrlSafe_percentByte {b : UInt8} (h : c ∈ percentByte b) : isUrlSafe c = true := by
  have hbound := b.toNat_lt
  simp only [percentByte, List.mem_cons, List.not_mem_nil, or_false] at h
  rcases h with rfl | rfl | rfl
  · rfl
  · exact isUrlSafe_upperHexDigit (by omega)
  · exact isUrlSafe_upperHexDigit (by omega)

/-! ## Writing -/

@[simp] theorem percentEncode_cons : percentEncode (c :: s) =
    (if isUrlSafe c then [c] else (String.utf8EncodeChar c).flatMap percentByte)
      ++ percentEncode s :=
  List.flatMap_cons

/-- Only characters that stand for themselves are written. -/
theorem isUrlSafe_percentEncode (h : c ∈ percentEncode s) : isUrlSafe c = true := by
  obtain ⟨d, _, hc⟩ := List.mem_flatMap.1 h
  split at hc
  · next hsafe => exact List.mem_singleton.1 hc ▸ hsafe
  · obtain ⟨b, _, hc⟩ := List.mem_flatMap.1 hc
    exact isUrlSafe_percentByte hc

/-- Texts of such characters, and no others, are written as they are. -/
theorem percentEncode_eq_self_iff : percentEncode s = s ↔ ∀ c ∈ s, isUrlSafe c = true := by
  constructor
  · intro hsame c hc
    rw [← hsame] at hc
    exact isUrlSafe_percentEncode hc
  · intro hsafe
    induction s with
    | nil => rfl
    | cons c rest ih =>
      rw [percentEncode_cons, if_pos (hsafe c List.mem_cons_self),
        ih fun d hd => hsafe d (List.mem_cons_of_mem _ hd)]
      rfl

/-! ## Reading -/

theorem percentDecode_percentByte (b : UInt8) (rest : List Char) :
    percentDecode (percentByte b ++ rest) = b :: percentDecode rest := by
  have hbound := b.toNat_lt
  have hvalue : 16 * (b.toNat / 16) + b.toNat % 16 = b.toNat := Nat.div_add_mod ..
  simp only [percentByte, List.cons_append, List.nil_append, percentDecode,
    hexValue_upperHexDigit (show b.toNat / 16 < 16 by omega),
    hexValue_upperHexDigit (show b.toNat % 16 < 16 by omega), hvalue, UInt8.ofNat_toNat]

theorem percentDecode_bytes (bytes : List UInt8) (rest : List Char) :
    percentDecode (bytes.flatMap percentByte ++ rest) = bytes ++ percentDecode rest := by
  induction bytes with
  | nil => rfl
  | cons b bytes ih =>
    rw [List.flatMap_cons, List.append_assoc, percentDecode_percentByte, ih, List.cons_append]

/-- A character other than the percent sign stands for its own bytes. -/
theorem percentDecode_cons (h : c ≠ '%') (rest : List Char) :
    percentDecode (c :: rest) = String.utf8EncodeChar c ++ percentDecode rest := by
  rw [percentDecode]
  rintro _ _ _ rfl
  exact absurd rfl h

/-- The bytes of a text without percent signs are read again. -/
theorem percentDecode_percentEncode (h : '%' ∉ s) :
    percentDecode (percentEncode s) = s.flatMap String.utf8EncodeChar := by
  induction s with
  | nil => rfl
  | cons c rest ih =>
    rw [List.mem_cons, not_or] at h
    obtain ⟨hother, hothers⟩ := h
    rw [percentEncode_cons, List.flatMap_cons, ← ih hothers]
    split
    · exact percentDecode_cons (Ne.symm hother) _
    · exact percentDecode_bytes _ _

/-! ## URL forms -/

/-- A normal form of texts that leaves those of ASCII characters as they are. -/
structure Normalization where
  normalize : String → String
  normalize_ascii : ∀ {text : String}, (∀ c ∈ text.toList, c.toNat < 128) → normalize text = text

/-- A text of ASCII characters is composed. -/
theorem composed_of_ascii {text : String} (h : ∀ c ∈ text.toList, c.toNat < 128) :
    composed text = text := by
  have hplain : text.toList.all isPlain = true := List.all_eq_true.2 fun c hc => by
    have hascii := h c hc
    simp only [isPlain, decide_eq_true_eq]
    omega
  rw [composed, composedChars, if_pos hplain, String.ofList_toList]

/-- The composed normal form. -/
def canonicalComposition : Normalization where
  normalize := composed
  normalize_ascii := composed_of_ascii

variable {n : Normalization} {iri url : String}

theorem urlForm_eq_none_iff :
    urlFormBy? n.normalize iri = none ↔ percentEncode (n.normalize iri).toList = iri.toList := by
  unfold urlFormBy?
  dsimp only
  rw [ite_eq_left_iff, ← String.toList_inj, String.toList_ofList]
  simp

theorem eq_of_urlForm (h : urlFormBy? n.normalize iri = some url) :
    url.toList = percentEncode (n.normalize iri).toList := by
  unfold urlFormBy? at h
  dsimp only at h
  split at h
  · cases h
  · rw [← Option.some.inj h, String.toList_ofList]

/-- A text is its own URL form just where all its characters stand for themselves. -/
theorem urlForm_eq_none_iff_safe :
    urlFormBy? n.normalize iri = none ↔ ∀ c ∈ iri.toList, UrlCharacter c := by
  rw [urlForm_eq_none_iff]
  constructor
  · intro hself c hc
    rw [← hself] at hc
    exact isUrlSafe_iff.1 (isUrlSafe_percentEncode hc)
  · intro hsafe
    rw [n.normalize_ascii fun c hc => (hsafe c hc).ascii, percentEncode_eq_self_iff]
    exact fun c hc => isUrlSafe_iff.2 (hsafe c hc)

/-- Whatever normal form leaves texts of ASCII characters alone: a text has a URL form that differs
from it unless all its characters stand for themselves in a URL. All characters of a URL form do, so
that it is its own URL form; and what it stands for are the bytes of the normal form of the text, if
this has no percent signs. -/
theorem url_form_exact (n : Normalization) (iri : String) :
    (urlFormBy? n.normalize iri = none ↔ ∀ c ∈ iri.toList, UrlCharacter c) ∧
    ∀ url, urlFormBy? n.normalize iri = some url →
      (∀ c ∈ url.toList, UrlCharacter c) ∧ urlFormBy? n.normalize url = none ∧
      ('%' ∉ (n.normalize iri).toList →
        (percentDecode url.toList).toByteArray = (n.normalize iri).toUTF8) := by
  refine ⟨urlForm_eq_none_iff_safe, fun url h => ?_⟩
  have hwritten := eq_of_urlForm h
  have hsafe : ∀ c ∈ url.toList, UrlCharacter c := by
    intro c hc
    rw [hwritten] at hc
    exact isUrlSafe_iff.1 (isUrlSafe_percentEncode hc)
  refine ⟨hsafe, urlForm_eq_none_iff_safe.2 hsafe, fun hunescaped => ?_⟩
  -- the bytes of a text are those of its characters
  have hbytes : (n.normalize iri).toList.utf8Encode = (n.normalize iri).toUTF8 := by
    rw [← String.toByteArray_ofList, String.ofList_toList]
    rfl
  rw [hwritten, percentDecode_percentEncode hunescaped]
  exact hbytes

/-- A mark after its letter, and a blank. -/
theorem url_form_exact_marked : urlForm? "urn:Ka\u0308se 1" = some "urn:K%C3%A4se%201" ∧
    urlForm? "urn:K%C3%A4se%201" = none ∧ '%' ∉ (composed "urn:Ka\u0308se 1").toList ∧
    (percentDecode "urn:K%C3%A4se%201".toList).toByteArray =
      (composed "urn:Ka\u0308se 1").toUTF8 := by
  have hurl : urlForm? "urn:Ka\u0308se 1" = some "urn:K%C3%A4se%201" := by decide +kernel
  have hunescaped : '%' ∉ (composed "urn:Ka\u0308se 1").toList := by decide +kernel
  obtain ⟨_, hown, hbytes⟩ := (url_form_exact canonicalComposition "urn:Ka\u0308se 1").2 _ hurl
  exact ⟨hurl, hown, hunescaped, hbytes hunescaped⟩

end Text

end Thesaurus
