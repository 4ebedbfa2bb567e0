import Mathlib
import Thesaurus.Proofs.Text.Segments
import Thesaurus.Rdf.Iri

/-!
# The parts of IRIs

Nothing is lost when a text is taken apart, and the parts of an IRI leave room for certain
characters only. In particular an IRI can be written in angle brackets as it is.

- `IriReference.toChars_split`: the parts of a text put together are the text.
- `isIriText`: the characters that IRIs may have.
- `isIriText_of_isHost`, `isIriText_of_isAuthority`: hosts and authorities have no others.
- `isIriText_of_isIri`: neither have IRIs.
- `IriReference.isSome_scheme_resolve`: what is seen from an IRI in full is in full.
-/

namespace Thesaurus

namespace Rdf

variable {s : List Char} {c : Char}

/-! ## Putting together -/

namespace IriReference

theorem splitScheme_eq (s : List Char) :
    (splitScheme s).1.elim [] (· ++ [':']) ++ (splitScheme s).2 = s := by
  unfold splitScheme
  dsimp only
  split
  · next rest hrest =>
    split
    · rw [Option.elim_some, List.append_assoc, List.singleton_append, ← hrest,
        List.takeWhile_append_dropWhile]
    · rfl
  · rfl

theorem splitAuthority_eq (s : List Char) :
    (splitAuthority s).1.elim [] (['/', '/'] ++ ·) ++ (splitAuthority s).2 = s := by
  unfold splitAuthority
  split
  · next rest =>
    dsimp only [Option.elim_some]
    rw [List.append_assoc, List.takeWhile_append_dropWhile]
    rfl
  · rfl

theorem splitAfter_eq (mark : Char) (s : List Char) :
    (splitAfter mark s).1 ++ (splitAfter mark s).2.elim [] (mark :: ·) = s := by
  unfold splitAfter
  split
  · next d rest hrest =>
    -- the character that ends the first part is the mark
    have hstop := List.head?_dropWhile_not (· != mark) s
    rw [hrest] at hstop
    obtain rfl : d = mark := by simpa using hstop
    rw [Option.elim_some, ← hrest, List.takeWhile_append_dropWhile]
  · exact List.append_nil s

/-- The parts of a text put together are the text. -/
theorem toChars_split (s : List Char) : (split s).toChars = s := by
  have hscheme := splitScheme_eq s
  have hauthority := splitAuthority_eq (splitScheme s).2
  have hfragment := splitAfter_eq '#' (splitAuthority (splitScheme s).2).2
  have hquery := splitAfter_eq '?' (splitAfter '#' (splitAuthority (splitScheme s).2).2).1
  unfold split toChars
  dsimp only
  rw [List.append_assoc _ _ (Option.elim (splitAfter '?' _).2 _ _), hquery, List.append_assoc,
    hfragment, List.append_assoc, hauthority, hscheme]

theorem toChars_ofChars? {r : IriReference} (h : ofChars? s = some r) : r.toChars = s := by
  unfold ofChars? at h
  dsimp only at h
  split_ifs at h
  rw [← Option.some.inj h, toChars_split]

end IriReference

/-! ## Characters -/

/-- The characters that IRIs may have. -/
def isIriText (c : Char) : Bool :=
  isIriChar c || isPrivate c || ['%', ':', '@', '/', '?', '#', '[', ']'].contains c

theorem isIriText_of_isIriChar (h : isIriChar c = true) : isIriText c = true := by
  simp [isIriText, h]

theorem isIriText_of_isAsciiIriChar (h : isAsciiIriChar c = true) : isIriText c = true :=
  isIriText_of_isIriChar (by simp [isIriChar, h])

theorem isIriText_of_alphanum (h : c.isAlphanum = true) : isIriText c = true :=
  isIriText_of_isAsciiIriChar (by simp [isAsciiIriChar, h])

theorem isIriText_of_isIriCharOr {others : List Char} (hothers : others.all isIriText = true)
    (h : isIriCharOr others c = true) : isIriText c = true := by
  rw [isIriCharOr, Bool.or_eq_true, List.contains_iff_mem] at h
  exact h.elim isIriText_of_isIriChar (List.all_eq_true.1 hothers c)

theorem isIriText_of_hexValue (h : (Text.hexValue? c).isSome = true) : isIriText c = true := by
  refine isIriText_of_alphanum ?_
  unfold Text.hexValue? at h
  simp only [Char.isAlphanum, Char.isAlpha, Char.isUpper, Char.isLower, Char.isDigit,
    Bool.or_eq_true, Bool.and_eq_true, decide_eq_true_eq, ge_iff_le]
  simp only [Bool.and_eq_true, decide_eq_true_eq, Char.le_def] at h
  split_ifs at h with hdigit hupper hlower
  · exact .inr hdigit
  · exact .inl (.inl ⟨hupper.1, UInt32.le_trans hupper.2 (by decide)⟩)
  · exact .inl (.inr ⟨hlower.1, UInt32.le_trans hlower.2 (by decide)⟩)
  · cases h

/-- A part has only the characters that it is tested for, and bytes written as `%XX`. -/
theorem isIriText_of_consistsOf {allowed : Char → Bool}
    (hallowed : ∀ d, allowed d = true → isIriText d = true) (h : consistsOf allowed s = true) :
    ∀ d ∈ s, isIriText d = true := by
  induction s using consistsOf.induct with
  | case1 => nofun
  | case2 a b rest ih =>
    simp only [consistsOf, Bool.and_eq_true] at h
    obtain ⟨⟨ha, hb⟩, hrest⟩ := h
    simp only [List.forall_mem_cons]
    exact ⟨rfl, isIriText_of_hexValue ha, isIriText_of_hexValue hb, ih hrest⟩
  | case3 d rest hpercent ih =>
    rw [consistsOf, Bool.and_eq_true] at h
    · exact List.forall_mem_cons.2 ⟨hallowed d h.1, ih h.2⟩
    · exact hpercent

/-- A text is made of IRI characters if what lies before and after a place in it is. -/
theorem isIriText_of_span {p : Char → Bool} (hbefore : ∀ d ∈ s.takeWhile p, isIriText d = true)
    (hafter : ∀ d ∈ s.dropWhile p, isIriText d = true) : ∀ d ∈ s, isIriText d = true := by
  intro d hd
  rw [← List.takeWhile_append_dropWhile (p := p) (l := s), List.mem_append] at hd
  exact hd.elim (hbefore d) (hafter d)

/-- So is a text if what lies before and after a mark in it is. -/
theorem isIriText_of_marked (mark : Char) (hmark : isIriText mark = true)
    (hbefore : ∀ d ∈ s.takeWhile (· != mark), isIriText d = true)
    (hafter : ∀ d ∈ (s.dropWhile (· != mark)).tail, isIriText d = true) :
    ∀ d ∈ s, isIriText d = true := by
  refine isIriText_of_span hbefore fun d hd => ?_
  have hstop := List.head?_dropWhile_not (· != mark) s
  match hs : s.dropWhile (· != mark) with
  | [] =>
    rw [hs] at hd
    cases hd
  | e :: rest =>
    rw [hs] at hd hstop hafter
    obtain rfl : e = mark := by simpa using hstop
    rcases List.mem_cons.1 hd with rfl | hd
    · exact hmark
    · exact hafter d hd

/-! ## Hosts -/

theorem isIriText_of_isDigit (h : c.isDigit = true) : isIriText c = true :=
  isIriText_of_alphanum (by simp [Char.isAlphanum, h])

/-- So is a text if all its parts between separators are. -/
theorem isIriText_of_segments (separator : Char) (hseparator : isIriText separator = true)
    (h : ∀ part ∈ Text.segments separator s, ∀ d ∈ part, isIriText d = true) :
    ∀ d ∈ s, isIriText d = true := by
  intro d hd
  by_cases hne : d = separator
  · exact hne ▸ hseparator
  · obtain ⟨part, hpart, hdpart⟩ := Text.exists_segment hd hne
    exact h part hpart d hdpart

theorem isIriText_of_isAddress4 (h : isAddress4 s = true) : ∀ d ∈ s, isIriText d = true := by
  refine isIriText_of_segments '.' rfl fun part hpart d hd => ?_
  simp only [isAddress4, Bool.and_eq_true, List.all_eq_true, isOctet] at h
  exact isIriText_of_isDigit ((h.2 part hpart).1.1.2 d hd)

theorem isIriText_of_isGroup (h : isGroup s = true) : ∀ d ∈ s, isIriText d = true := by
  simp only [isGroup, Bool.and_eq_true, List.all_eq_true] at h
  exact fun d hd => isIriText_of_hexValue (h.2 d hd)

theorem isIriText_of_groupCount (h : (groupCount? s).isSome = true) :
    ∀ d ∈ s, isIriText d = true := by
  refine fun d hd => isIriText_of_segments ':' rfl (fun part hpart => ?_) d hd
  have hne : s.isEmpty = false := List.isEmpty_eq_false_iff.2 (List.ne_nil_of_mem hd)
  simp only [groupCount?, hne, Bool.false_eq_true, if_false] at h
  split_ifs at h with hgroups haddress
  · exact isIriText_of_isGroup (List.all_eq_true.1 hgroups part hpart)
  -- four bytes with dots may stand in place of the last two groups
  · rw [Bool.and_eq_true, Option.any_eq_true] at haddress
    obtain ⟨hgroups, last, hlast, haddress⟩ := haddress
    rw [← List.dropLast_append_getLast? last hlast, List.mem_append, List.mem_singleton] at hpart
    rcases hpart with hpart | rfl
    · exact isIriText_of_isGroup (List.all_eq_true.1 hgroups part hpart)
    · exact isIriText_of_isAddress4 haddress
  · cases h

theorem splitColons?_eq {before rest : List Char} (h : splitColons? s = some (before, rest)) :
    s = before ++ ':' :: ':' :: rest := by
  induction s using splitColons?.induct generalizing before with
  | case1 rest' =>
    cases h
    rfl
  | case2 d rest' hcolons ih =>
    rw [splitColons?] at h
    · obtain ⟨⟨before', rest₁⟩, hsplit, heq⟩ := Option.map_eq_some_iff.1 h
      cases heq
      rw [ih hsplit, List.cons_append]
    · exact hcolons
  | case3 => cases h

theorem isIriText_of_isAddress6 (h : isAddress6 s = true) : ∀ d ∈ s, isIriText d = true := by
  unfold isAddress6 at h
  split at h
  · exact isIriText_of_groupCount (by rw [beq_iff_eq.1 h]; rfl)
  · next before rest hsplit =>
    split at h
    · next m n hm hn =>
      rw [splitColons?_eq hsplit, List.forall_mem_append, List.forall_mem_cons,
        List.forall_mem_cons]
      exact ⟨isIriText_of_groupCount (by rw [hm]; rfl), rfl, rfl,
        isIriText_of_groupCount (by rw [hn]; rfl)⟩
    · cases h

theorem isIriText_of_isFutureAddress (h : isFutureAddress s = true) :
    ∀ d ∈ s, isIriText d = true := by
  match s with
  | [] => nofun
  | c :: rest =>
    simp only [isFutureAddress, Bool.and_eq_true, List.all_eq_true, List.drop_one] at h
    obtain ⟨⟨⟨⟨hc, -⟩, hversion⟩, -⟩, htext⟩ := h
    refine List.forall_mem_cons.2 ⟨?_, isIriText_of_marked '.' rfl ?_ ?_⟩
    · rw [Bool.or_eq_true, beq_iff_eq, beq_iff_eq] at hc
      rcases hc with rfl | rfl <;> rfl
    · exact fun d hd => isIriText_of_hexValue (hversion d hd)
    · intro d hd
      have hascii := htext d hd
      rw [Bool.or_eq_true, beq_iff_eq] at hascii
      rcases hascii with hascii | rfl
      · exact isIriText_of_isAsciiIriChar hascii
      · rfl

theorem isIriText_of_isNumberSuffix (h : isNumberSuffix s = true) :
    ∀ d ∈ s, isIriText d = true := by
  match s with
  | [] => nofun
  | c :: rest =>
    rw [isNumberSuffix, Bool.and_eq_true, beq_iff_eq, List.all_eq_true] at h
    obtain ⟨rfl, hdigits⟩ := h
    exact List.forall_mem_cons.2 ⟨rfl, fun d hd => isIriText_of_isDigit (hdigits d hd)⟩

/-- A host has only characters of IRIs. -/
theorem isIriText_of_isHost (h : isHost s = true) : ∀ d ∈ s, isIriText d = true := by
  unfold isHost at h
  split at h
  · next rest =>
    dsimp only at h
    split at h
    · next d suffix hsuffix =>
      rw [Bool.and_eq_true, Bool.or_eq_true] at h
      refine List.forall_mem_cons.2 ⟨rfl, isIriText_of_marked ']' rfl ?_ ?_⟩
      · exact h.1.elim isIriText_of_isAddress6 isIriText_of_isFutureAddress
      · rw [hsuffix]
        exact isIriText_of_isNumberSuffix h.2
    · cases h
  · rw [Bool.and_eq_true] at h
    exact isIriText_of_span (isIriText_of_consistsOf (fun _ => isIriText_of_isIriChar) h.1)
      (isIriText_of_isNumberSuffix h.2)

/-- So has an authority. -/
theorem isIriText_of_isAuthority (h : isAuthority s = true) : ∀ d ∈ s, isIriText d = true := by
  unfold isAuthority at h
  dsimp only at h
  split at h
  · next host hhost =>
    rw [Bool.and_eq_true] at h
    refine isIriText_of_span
      (isIriText_of_consistsOf (fun _ => isIriText_of_isIriCharOr rfl) h.1) ?_
    rw [hhost]
    exact List.forall_mem_cons.2 ⟨rfl, isIriText_of_isHost h.2⟩
  · exact isIriText_of_isHost h

/-! ## References -/

namespace IriReference

/-- A scheme has only characters of IRIs. -/
theorem isIriText_of_scheme {scheme : List Char} (h : (splitScheme s).1 = some scheme) :
    ∀ d ∈ scheme, isIriText d = true := by
  unfold splitScheme at h
  dsimp only at h
  split at h
  · split_ifs at h
    cases h
    intro d hd
    have hscheme := List.mem_takeWhile_imp hd
    simp only [Bool.or_eq_true, beq_iff_eq] at hscheme
    rcases hscheme with ((halphanum | rfl) | rfl) | rfl
    · exact isIriText_of_alphanum halphanum
    all_goals rfl
  · cases h

/-- The text of valid parts has only characters of IRIs. -/
theorem isIriText_toChars {r : IriReference} (h : r.isValid = true)
    (hscheme : ∀ scheme, r.scheme = some scheme → ∀ d ∈ scheme, isIriText d = true) :
    ∀ d ∈ r.toChars, isIriText d = true := by
  simp only [isValid, Bool.and_eq_true, Option.all_eq_true] at h
  obtain ⟨⟨⟨hauthority, hpath⟩, hquery⟩, hfragment⟩ := h
  simp only [toChars, List.forall_mem_append]
  refine ⟨⟨⟨⟨?_, ?_⟩, ?_⟩, ?_⟩, ?_⟩
  · cases hr : r.scheme with
    | none => nofun
    | some scheme => exact List.forall_mem_append.2 ⟨hscheme scheme hr, List.all_eq_true.1 rfl⟩
  · cases hr : r.authority with
    | none => nofun
    | some authority =>
      exact List.forall_mem_append.2
        ⟨List.all_eq_true.1 rfl, isIriText_of_isAuthority (hauthority _ hr)⟩
  · exact isIriText_of_consistsOf (fun _ => isIriText_of_isIriCharOr rfl) hpath
  · cases hr : r.query with
    | none => nofun
    | some query =>
      refine List.forall_mem_cons.2 ⟨rfl, isIriText_of_consistsOf (fun d hd => ?_) (hquery _ hr)⟩
      rw [Bool.or_eq_true] at hd
      -- private characters may only stand in a query
      exact hd.elim (isIriText_of_isIriCharOr rfl) fun hprivate => by
        simp [isIriText, hprivate]
  · cases hr : r.fragment with
    | none => nofun
    | some fragment =>
      exact List.forall_mem_cons.2 ⟨rfl, isIriText_of_consistsOf
        (fun _ => isIriText_of_isIriCharOr rfl) (hfragment _ hr)⟩

end IriReference

/-- An IRI has only characters of IRIs. -/
theorem isIriText_of_isIri (h : isIri s = true) : ∀ d ∈ s, isIriText d = true := by
  unfold isIri fullIri? IriReference.ofChars? at h
  split at h
  · next r hr =>
    dsimp only at hr
    split_ifs at hr with hcolon hvalid
    rw [← IriReference.toChars_split s]
    exact IriReference.isIriText_toChars hvalid fun _ => IriReference.isIriText_of_scheme
  · cases h

/-- None of them ends an IRI in angle brackets, and none starts an escape. -/
theorem ne_of_isIriText (h : isIriText c = true) : c ≠ '>' ∧ c ≠ '\\' := by
  constructor <;>
  · rintro rfl
    exact absurd h (by decide)

/-! ## Resolution -/

namespace IriReference

/-- What is seen from an IRI in full is in full. -/
theorem isSome_scheme_resolve {base r full : IriReference} (hbase : base.scheme.isSome = true)
    (h : base.resolve? r = some full) : full.scheme.isSome = true := by
  unfold resolve? at h
  split at h
  · next hscheme => exact Option.some.inj h ▸ hscheme
  · split at h
    · exact Option.some.inj h ▸ hbase
    · obtain ⟨path, -, rfl⟩ := Option.map_eq_some_iff.1 h
      exact hbase

end IriReference

end Rdf

end Thesaurus
