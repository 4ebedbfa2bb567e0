import Thesaurus.Proofs.Rdf.Iri
import Thesaurus.Proofs.Text.Reader
import Thesaurus.Rdf.Token

/-!
# Tokens of written terms

How IRIs, labels, texts and tags are written such that each is read as one token, and what tokens
that have been read are like.

- `isLanguageTag_lowerTag`: the case of a tag makes no difference.
- `IsLabel`, `IsTagWord`: the labels of blank nodes, and the words after at signs.
- `quoteText`: a text in double quotes, with what would end it or the line escaped.
- `readToken_iri`, `readToken_label`, `readToken_text`, `readToken_tag`: written terms as tokens.
- `iterate_token`: one token after the other.
- `Token.Sound`: what labels and tags are like that have been read.
- `sound_of_tokens?`: all tokens are like that.
-/

namespace Thesaurus

namespace Rdf

open Text (iterate iterate_append iterate_last prepend Round)

variable {s rest blanks : List Char} {c : Char} {token : Token} {found : Array Token}
  {r : Array Token × List Char}

/-! ## Language tags -/

theorem lowerTag_lowerTag (s : List Char) : lowerTag (lowerTag s) = lowerTag s := by
  rw [lowerTag, lowerTag, List.map_map]
  exact List.map_congr_left fun c _ => Char.toLower_toLower_eq_toLower c

/-- The case of a tag makes no difference. -/
theorem isLanguageTag_lowerTag (s : List Char) : isLanguageTag (lowerTag s) = isLanguageTag s := by
  unfold isLanguageTag
  simp only [lowerTag_lowerTag]

/-- The words that may stand after an at sign. -/
def IsTagWord (s : List Char) : Prop :=
  s ≠ [] ∧ ∀ c ∈ s, c.isAlphanum = true ∨ c = '-'

/-! ## IRIs -/

/-- An IRI is read up to the bracket behind it. -/
theorem readIri_append (h : ∀ d ∈ s, isIriText d = true) (rest : List Char) :
    readIri (s ++ '>' :: rest) = some (s, rest) := by
  induction s with
  | nil => rfl
  | cons d s ih =>
    rw [List.forall_mem_cons] at h
    obtain ⟨hend, hescape⟩ := ne_of_isIriText h.1
    rw [List.cons_append, readIri.eq_def]
    split <;> simp_all [prepend]

/-- An IRI in angle brackets is one token. -/
theorem readToken_iri (h : isIri s = true) (rest : List Char) :
    readToken ('<' :: s ++ '>' :: rest) = some (.iri s, rest) := by
  rw [List.cons_append, readToken, readIri_append (isIriText_of_isIri h)]
  rfl

/-! ## Labels -/

/-- The labels of blank nodes: they start with a letter, a digit or an underscore, and have no dot
at the end. -/
structure IsLabel (s : List Char) : Prop where
  front : s.head?.any isLabelStart = true
  chars : ∀ c ∈ s, (isNameChar c || c == '.') = true
  back : s.getLast? ≠ some '.'

/-- A label ends at a blank. -/
theorem splitDotted_append (hchars : ∀ c ∈ s, (isNameChar c || c == '.') = true)
    (hback : s.getLast? ≠ some '.') (rest : List Char) :
    splitDotted isNameChar (s ++ ' ' :: rest) = (s, ' ' :: rest) := by
  have hrun : (s ++ ' ' :: rest).takeWhile (fun c => isNameChar c || c == '.') = s :=
    (Text.span_append _ hchars (by rintro _ ⟨⟩; rfl)).1
  have hkept : (s.reverse.dropWhile (· == '.')).reverse = s := by
    cases hlast : s.getLast? with
    | none => rw [List.getLast?_eq_none_iff.1 hlast]; rfl
    | some d =>
      have hd : (d == '.') = false := by
        rw [beq_eq_false_iff_ne]
        rintro rfl
        exact hback hlast
      rw [← List.dropLast_append_getLast? d hlast, List.reverse_concat,
        List.dropWhile_cons_of_neg (by simp [hd]), List.reverse_cons, List.reverse_reverse]
  unfold splitDotted
  dsimp only
  rw [hrun, hkept, List.drop_left]

/-- The label of a blank node is one token with its mark in front. -/
theorem readToken_label (h : IsLabel s) (rest : List Char) :
    readToken ('_' :: ':' :: s ++ ' ' :: rest) = some (.blank s, ' ' :: rest) := by
  have hsplit := splitDotted_append h.chars h.back rest
  match s, h.front with
  | c :: s, hfront =>
    rw [List.head?_cons, Option.any_some] at hfront
    rw [List.cons_append] at hsplit
    simp only [List.cons_append, readToken, readLabel, hfront, if_true, hsplit]

/-! ## Texts -/

/-- What stands for a character between double quotes on one line. -/
def writeTextChar : Char → List Char
  | '\x22' => ['\\', '\x22']
  | '\\' => ['\\', '\\']
  | '\n' => ['\\', 'n']
  | '\r' => ['\\', 'r']
  | c => [c]

/-- What stands for a text between double quotes on one line. -/
def writeText (s : List Char) : List Char :=
  s.flatMap writeTextChar

theorem writeText_cons (c : Char) (s : List Char) :
    writeText (c :: s) = writeTextChar c ++ writeText s :=
  List.flatMap_cons

/-- A character is escaped by name or stands for itself. -/
theorem writeTextChar_cases (c : Char) :
    (∃ name, writeTextChar c = ['\\', name] ∧ namedEscape? name = some c ∧
      name ∉ ['u', 'U', '\n', '\r']) ∨
    (writeTextChar c = [c] ∧ c ∉ ['\x22', '\\', '\n', '\r']) := by
  unfold writeTextChar
  split
  · exact .inl ⟨_, rfl, rfl, by decide⟩
  · exact .inl ⟨_, rfl, rfl, by decide⟩
  · exact .inl ⟨_, rfl, rfl, by decide⟩
  · exact .inl ⟨_, rfl, rfl, by decide⟩
  · next hquote hbackslash hlineFeed hcarriageReturn =>
    exact .inr ⟨rfl, by simpa using ⟨hquote, hbackslash, hlineFeed, hcarriageReturn⟩⟩

/-- An escape by name is read as the character that it stands for. -/
theorem readShort_escape {quote name : Char} (hname : namedEscape? name = some c)
    (hlong : name ∉ ['u', 'U', '\n', '\r']) (s : List Char) :
    readShort quote ('\\' :: name :: s) = prepend c (readShort quote s) := by
  simp only [List.mem_cons, not_or] at hlong
  rw [readShort, hname]
  · rfl
  · intro _ _ _ _ _ h
    exact absurd h hlong.1
  · intro _ _ _ _ _ _ _ _ _ h
    exact absurd h hlong.2.1

/-- A text is read up to the quote behind it. -/
theorem readShort_writeText (s rest : List Char) :
    readShort '\x22' (writeText s ++ '\x22' :: rest) = some (s, rest) := by
  induction s with
  | nil => rfl
  | cons c s ih =>
    rw [writeText_cons, List.append_assoc]
    obtain ⟨name, hwrite, hname, hlong⟩ | ⟨hwrite, hplain⟩ := writeTextChar_cases c
    · rw [hwrite, List.cons_append, List.singleton_append, readShort_escape hname hlong, ih]
      rfl
    · rw [hwrite, List.singleton_append, readShort.eq_def]
      split <;> simp_all [prepend]

/-- A text in double quotes. -/
def quoteText (s : List Char) : List Char :=
  '\x22' :: writeText s ++ ['\x22']

/-- A text in double quotes is one token, unless a third quote follows the two of an empty one. -/
theorem readToken_text (s : List Char) (hrest : rest.head? ≠ some '\x22') :
    readToken (quoteText s ++ rest) = some (.string s true, rest) := by
  have hshort : Text.strip? ['\x22', '\x22'] (writeText s ++ '\x22' :: rest) = none := by
    match s with
    | [] =>
      match rest with
      | [] => rfl
      | d :: rest =>
        have hd : '\x22' ≠ d := by
          rintro rfl
          exact hrest rfl
        simp [writeText, Text.strip?, hd]
    | d :: s =>
      rw [writeText_cons, List.append_assoc]
      obtain ⟨name, hwrite, -⟩ | ⟨hwrite, hplain⟩ := writeTextChar_cases d
      · rw [hwrite]
        rfl
      · simp only [List.mem_cons, not_or] at hplain
        rw [hwrite, List.singleton_append, Text.strip?, if_neg (Ne.symm hplain.1)]
  rw [quoteText, List.append_assoc, List.singleton_append, List.cons_append, readToken, readString,
    hshort]
  dsimp only
  rw [readShort_writeText]
  rfl

/-- A tag is one token with the at sign in front. -/
theorem readToken_tag (h : IsTagWord s) (rest : List Char) :
    readToken ('@' :: s ++ ' ' :: rest) = some (.tag s, ' ' :: rest) := by
  obtain ⟨hne, hchars⟩ := h
  have hword : ∀ c ∈ s, (c.isAlphanum || c == '-') = true := by simpa using hchars
  obtain ⟨hfront, hback⟩ :=
    Text.span_append (' ' :: rest) hword (by rintro _ ⟨⟩; rfl)
  rw [List.cons_append, readToken, readTag, hfront, hback, if_neg (by simpa using hne)]

/-! ## Tokens one after the other -/

/-- A token behind blanks is read before what follows. -/
theorem iterate_token {front : List Char} (hblanks : ∀ c ∈ blanks, isSpace c = true)
    (hstart : front.head?.any (fun c => !isSpace c && c != '#') = true)
    (htoken : readToken (front ++ rest) = some (token, rest))
    (hfound : iterate tokenRound (found.push token) rest = some r) :
    iterate tokenRound found (blanks ++ front ++ rest) = some r := by
  match front, hstart with
  | c :: front, hstart =>
    simp only [List.head?_cons, Option.any_some, Bool.and_eq_true, Bool.not_eq_true',
      bne_iff_ne] at hstart
    have hdrop : (blanks ++ (c :: front ++ rest)).dropWhile isSpace = c :: front ++ rest :=
      (Text.span_append _ hblanks (by rintro _ ⟨⟩; exact hstart.1)).2
    refine iterate_append ?_ (by simp) hfound
    rw [tokenRound, List.append_assoc, hdrop]
    split
    · next hnil => cases hnil
    · next hcomment => exact absurd (List.cons.inj hcomment).1 hstart.2
    · rw [htoken]
      rfl

/-! ## Tokens that have been read -/

/-- What labels and tags are like that have been read. -/
def Token.Sound : Token → Prop
  | .blank label => IsLabel label
  | .tag written => IsTagWord written
  | _ => True

/-- What is taken for a label is one: it has what it starts with, and no dot at its end. -/
theorem isLabel_splitDotted (h : isLabelStart c = true) (s : List Char) :
    IsLabel (splitDotted isNameChar (c :: s)).1 := by
  have hname : isNameChar c = true := by simp [isNameChar, h]
  have hdot : c ≠ '.' := by
    rintro rfl
    exact absurd h (by decide)
  unfold splitDotted
  dsimp only
  rw [List.takeWhile_cons_of_pos (by simp [hname])]
  have hchars : ∀ d ∈ c :: s.takeWhile (fun c => isNameChar c || c == '.'),
      (isNameChar d || d == '.') = true :=
    List.forall_mem_cons.2 ⟨by simp [hname], fun d hd =>
      List.mem_takeWhile_imp (p := fun c => isNameChar c || c == '.') hd⟩
  generalize s.takeWhile (fun c => isNameChar c || c == '.') = run at hchars
  have hkept : ((c :: run).reverse.dropWhile (· == '.')).reverse =
      (c :: run).rdropWhile (· == '.') := rfl
  -- dots at the end are given back, but not the first character, which is none
  have hdropped := List.rdropWhile_prefix (· == '.') (c :: run)
  have hne : (c :: run).rdropWhile (· == '.') ≠ [] := fun hnil =>
    hdot (by simpa using List.rdropWhile_eq_nil_iff.1 hnil c List.mem_cons_self)
  rw [hkept]
  refine { front := ?_, chars := fun d hd => hchars d (hdropped.subset hd), back := ?_ }
  · obtain ⟨rest, hrest⟩ := hdropped
    obtain ⟨d, kept, hcons⟩ := List.exists_cons_of_ne_nil hne
    rw [hcons, List.cons_append] at hrest
    rw [hcons, List.head?_cons, (List.cons.inj hrest).1]
    exact h
  · rw [List.getLast?_eq_some_getLast hne]
    intro hlast
    have hnot := List.rdropWhile_last_not (· == '.') (c :: run) hne
    rw [Option.some.inj hlast] at hnot
    exact hnot rfl

theorem sound_of_readLabel (h : readLabel s = some (token, rest)) : token.Sound := by
  unfold readLabel at h
  split at h
  · split at h
    · next hc =>
      cases h
      exact isLabel_splitDotted hc _
    · cases h
  · cases h

theorem sound_of_readTag (h : readTag s = some (token, rest)) : token.Sound := by
  unfold readTag at h
  dsimp only at h
  split at h
  · cases h
  · next hne =>
    cases h
    refine ⟨by simpa using hne, fun c hc => ?_⟩
    simpa using List.mem_takeWhile_imp hc

/-- The other readers give neither labels nor tags. -/
theorem sound_of_readString {quote : Char} (h : readString quote s = some (token, rest)) :
    token.Sound := by
  unfold readString at h
  split at h
  all_goals
    obtain ⟨⟨text, rest'⟩, -, heq⟩ := Option.map_eq_some_iff.1 h
    cases heq
    trivial

theorem sound_of_unscaled {sign whole fraction : List Char}
    (h : readNumber.unscaled sign whole fraction s = some (token, rest)) : token.Sound := by
  unfold readNumber.unscaled at h
  split_ifs at h
  all_goals
    cases h
    trivial

theorem sound_of_readNumber (h : readNumber s = some (token, rest)) : token.Sound := by
  unfold readNumber at h
  dsimp only at h
  split at h
  · split_ifs at h
    · cases h
      trivial
    · exact sound_of_unscaled h
  · exact sound_of_unscaled h

theorem sound_of_readName (h : readName s = some (token, rest)) : token.Sound := by
  unfold readName at h
  dsimp only at h
  split at h
  · split at h
    · split at h
      · cases h
      · obtain ⟨⟨member, rest'⟩, -, heq⟩ := Option.map_eq_some_iff.1 h
        cases heq
        trivial
    · split at h
      · cases h
      · cases h
        trivial
  · cases h

theorem sound_of_readToken (h : readToken s = some (token, rest)) : token.Sound := by
  unfold readToken at h
  split at h
  · obtain ⟨⟨iri, rest'⟩, -, heq⟩ := Option.map_eq_some_iff.1 h
    cases heq
    trivial
  · exact sound_of_readLabel h
  · exact sound_of_readString h
  · exact sound_of_readString h
  · exact sound_of_readTag h
  · cases h
    trivial
  · split at h
    · exact sound_of_readNumber h
    · cases h
      trivial
  · split at h
    · cases h
      trivial
    · split at h
      · exact sound_of_readNumber h
      · exact sound_of_readName h
  · cases h

/-- A round ends the text, passes a comment over or adds a token. -/
theorem tokenRound_cases {next : Round Char (Array Token)} (h : tokenRound found s = some next) :
    next = .last found [] ∨ (∃ rest, next = .more found rest) ∨
      ∃ front token rest, readToken front = some (token, rest) ∧
        next = .more (found.push token) rest := by
  unfold tokenRound at h
  split at h
  · exact .inl (Option.some.inj h).symm
  · exact .inr (.inl ⟨_, (Option.some.inj h).symm⟩)
  · obtain ⟨⟨token, rest⟩, htoken, heq⟩ := Option.map_eq_some_iff.1 h
    exact .inr (.inr ⟨_, token, rest, htoken, heq.symm⟩)

/-- All tokens of a text are like that. -/
theorem sound_of_tokens? {tokens : List Token} (h : tokens? s = some tokens) :
    ∀ token ∈ tokens, token.Sound := by
  obtain ⟨⟨found, rest⟩, hfound, rfl⟩ := Option.map_eq_some_iff.1 h
  have hsound : ∀ token ∈ found, token.Sound := by
    refine Text.iterate_keeps (P := fun found => ∀ token ∈ found, token.Sound)
      (fun hround hstate => ?_) (fun hround hstate => ?_) hfound (by simp)
    · rcases tokenRound_cases hround with hlast | ⟨_, hmore⟩ | ⟨_, token, _, htoken, hmore⟩
      · cases hlast
      · cases hmore
        exact hstate
      · cases hmore
        intro other hother
        rcases Array.mem_push.1 hother with hother | rfl
        · exact hstate other hother
        · exact sound_of_readToken htoken
    · rcases tokenRound_cases hround with hlast | ⟨_, hmore⟩ | ⟨_, _, _, _, hmore⟩
      · cases hlast
        exact hstate
      · cases hmore
      · cases hmore
  simpa using hsound

end Rdf

end Thesaurus
