import Thesaurus.Proofs.Rdf.Token
import Thesaurus.Rdf.NTriples

/-!
# Written statements are read again

Statements can be written one on a line, with every IRI in full, and are then read again from
N-Triples and N-Quads documents. What such documents say can always be written like this.

- `Triple.IsWritable`: statements whose IRIs, labels and tags follow the rules.
- `writeStatements`: the lines of statements, and `tokensOf` the tokens of one.
- `tokens?_writeStatements`: what is written is read as these tokens.
- `readStatement?_tokensOf`, `lines_writeStatements`: the tokens of a line, and the lines of a text.
- `readNTriples?_writeStatements`: what is written is read again.
- `isWritable_of_readNTriples?`: what is read can be written.
-/

namespace Thesaurus

namespace Rdf

open Text (iterate iterate_append iterate_last Round)

variable {t : Triple} {triples : List Triple} {s rest blanks : List Char} {found : Array Token}
  {r : Array Token × List Char}

/-! ## Writing -/

/-- A node that can be written. -/
def Node.IsWritable : Node → Prop
  | .iri value => isIri value.toList = true
  | .blank label => IsLabel label.toList

/-- A tag that can be written, and that is in the case in which tags are read. -/
structure IsTag (s : List Char) : Prop where
  word : IsTagWord s
  formed : isLanguageTag s = true
  lower : lowerTag s = s

/-- An object that can be written. -/
def Object.IsWritable : Object → Prop
  | .node n => n.IsWritable
  | .literal l => ∀ tag, l.language = some tag → IsTag tag.toList

/-- A statement that can be written. -/
structure Triple.IsWritable (t : Triple) : Prop where
  subject : t.subject.IsWritable
  predicate : isIri t.predicate.toList = true
  object : t.object.IsWritable

/-- An IRI in full. -/
def writeIri (iri : String) : List Char :=
  '<' :: iri.toList ++ ['>']

def writeNode : Node → List Char
  | .iri value => writeIri value
  | .blank label => '_' :: ':' :: label.toList

def writeObject : Object → List Char
  | .node n => writeNode n
  | .literal l =>
    quoteText l.value.toList ++ l.language.elim [] fun tag => '@' :: tag.toList

/-- A statement with the point at its end. -/
def writeStatement (t : Triple) : List Char :=
  writeNode t.subject ++ ' ' :: (writeIri t.predicate ++
    ' ' :: (writeObject t.object ++ [' ', '.']))

/-- Statements, one on a line. -/
def writeStatements (triples : List Triple) : List Char :=
  triples.flatMap fun t => writeStatement t ++ ['\n']

/-! ## Tokens -/

def Node.token : Node → Token
  | .iri value => .iri value.toList
  | .blank label => .blank label.toList

def Object.tokens : Object → List Token
  | .node n => [n.token]
  | .literal l => .string l.value.toList true :: l.language.elim [] fun tag => [.tag tag.toList]

/-- The tokens of a statement. -/
def tokensOf (t : Triple) : List Token :=
  t.subject.token :: .iri t.predicate.toList :: (t.object.tokens ++ [.mark '.'])

/-- A written IRI is one token, wherever it stands. -/
theorem readToken_writeIri {iri : String} (h : isIri iri.toList = true) (rest : List Char) :
    readToken (writeIri iri ++ rest) = some (.iri iri.toList, rest) := by
  rw [writeIri, List.append_assoc, List.singleton_append]
  exact readToken_iri h rest

theorem readToken_writeNode {n : Node} (h : n.IsWritable) (rest : List Char) :
    readToken (writeNode n ++ ' ' :: rest) = some (n.token, ' ' :: rest) := by
  cases n with
  | iri value => exact readToken_writeIri h _
  | blank label => exact readToken_label h rest

/-- Behind blanks, a node comes before what follows it. -/
theorem iterate_node {n : Node} (h : n.IsWritable) (hblanks : ∀ c ∈ blanks, isSpace c = true)
    (hfound : iterate tokenRound (found.push n.token) (' ' :: rest) = some r) :
    iterate tokenRound found (blanks ++ writeNode n ++ ' ' :: rest) = some r :=
  iterate_token hblanks (by cases n <;> rfl) (readToken_writeNode h rest) hfound

/-- So does an object, with all its tokens. -/
theorem iterate_object {o : Object} (h : o.IsWritable) (hblanks : ∀ c ∈ blanks, isSpace c = true)
    (hfound : iterate tokenRound (found ++ o.tokens.toArray) (' ' :: rest) = some r) :
    iterate tokenRound found (blanks ++ writeObject o ++ ' ' :: rest) = some r := by
  cases o with
  | node n => exact iterate_node h hblanks (by simpa [Object.tokens] using hfound)
  | literal l =>
    obtain ⟨value, language⟩ := l
    -- a tag follows its text at once
    match language, h with
    | none, _ =>
      have hwrite : writeObject (.literal ⟨value, none⟩) = quoteText value.toList :=
        List.append_nil _
      rw [hwrite]
      exact iterate_token hblanks rfl (readToken_text value.toList (by simp))
        (by simpa [Object.tokens] using hfound)
    | some tag, h =>
      have hpush : found ++ (Object.tokens (.literal ⟨value, some tag⟩)).toArray =
          (found.push (.string value.toList true)).push (.tag tag.toList) := by
        apply Array.ext'
        simp [Object.tokens]
      have htag : iterate tokenRound (found.push (.string value.toList true))
          ([] ++ '@' :: tag.toList ++ ' ' :: rest) = some r :=
        iterate_token (by simp) rfl (readToken_tag (h tag rfl).word rest) (hpush ▸ hfound)
      have hliteral := iterate_token hblanks rfl (readToken_text value.toList (by simp)) htag
      simpa [writeObject] using hliteral

/-- So does a statement, where no digit follows. -/
theorem iterate_statement (h : t.IsWritable) (hblanks : ∀ c ∈ blanks, isSpace c = true)
    (hrest : rest.head?.any Char.isDigit = false)
    (hfound : iterate tokenRound (found ++ (tokensOf t).toArray) rest = some r) :
    iterate tokenRound found (blanks ++ writeStatement t ++ rest) = some r := by
  have hspace : ∀ c ∈ [' '], isSpace c = true := by simp [isSpace]
  have hpoint : iterate tokenRound
      (((found.push t.subject.token).push (.iri t.predicate.toList)) ++ t.object.tokens.toArray)
      ([' '] ++ ['.'] ++ rest) = some r := by
    refine iterate_token hspace rfl ?_ (by simpa [tokensOf] using hfound)
    rw [List.singleton_append, readToken, if_neg (by simp [hrest])]
  have hobject := iterate_object h.object hspace hpoint
  have hpredicate := iterate_token hspace rfl (readToken_writeIri h.predicate _) hobject
  have hsubject := iterate_node h.subject hblanks hpredicate
  simpa [writeStatement] using hsubject

/-- So do statements, up to the end of the text. -/
theorem iterate_statements (h : ∀ t ∈ triples, t.IsWritable)
    (hblanks : ∀ c ∈ blanks, isSpace c = true) :
    iterate tokenRound found (blanks ++ writeStatements triples) =
      some (found ++ (triples.flatMap tokensOf).toArray, []) := by
  induction triples generalizing blanks found with
  | nil =>
    have hdrop : blanks.dropWhile isSpace = [] := List.dropWhile_eq_nil_iff.2 hblanks
    refine iterate_last ?_
    rw [writeStatements, List.flatMap_nil, List.append_nil, tokenRound, hdrop]
    simp
  | cons t triples ih =>
    rw [List.forall_mem_cons] at h
    have hbreak : ∀ c ∈ ['\n'], isSpace c = true := by simp [isSpace]
    have hstatement := iterate_statement h.1 hblanks rfl
      (ih h.2 hbreak : iterate tokenRound (found ++ (tokensOf t).toArray) _ = _)
    simpa [writeStatements] using hstatement

/-- Written statements are read as their tokens. -/
theorem tokens?_writeStatements (h : ∀ t ∈ triples, t.IsWritable) :
    tokens? (writeStatements triples) = some (triples.flatMap tokensOf) := by
  have hread : iterate tokenRound #[] ([] ++ writeStatements triples) =
      some (#[] ++ (triples.flatMap tokensOf).toArray, []) := iterate_statements h nofun
  rw [tokens?, ← List.nil_append (writeStatements triples), hread]
  simp

/-! ## N-Triples -/

theorem fullIri?_iri {iri : String} (h : isIri iri.toList = true) :
    Token.fullIri? (.iri iri.toList) = some iri := by
  rw [Token.fullIri?, if_pos h, String.ofList_toList]

theorem fullNode?_token {n : Node} (h : n.IsWritable) : n.token.fullNode? = some n := by
  cases n with
  | iri value => exact congrArg (Option.map Node.iri) (fullIri?_iri h)
  | blank label => exact congrArg (some ∘ Node.blank) String.ofList_toList

/-- A literal is put together from its tokens again, whatever IRIs its type may be written with. -/
theorem literalOf_tokens {l : Literal} (h : (Object.literal l).IsWritable)
    (iri? : Token → Option String) (rest : List Token) :
    literalOf iri? l.value.toList
        ((l.language.elim [] fun tag => [.tag tag.toList]) ++ .mark '.' :: rest) =
      some (l, .mark '.' :: rest) := by
  obtain ⟨value, language⟩ := l
  match language, h with
  | none, _ =>
    simp only [Option.elim_none, List.nil_append, literalOf]
    rw [String.ofList_toList]
  | some tag, h =>
    obtain ⟨-, hformed, hlower⟩ := h tag rfl
    simp only [Option.elim_some, List.cons_append, List.nil_append, literalOf, hformed, if_true,
      hlower, String.ofList_toList]

theorem readObject?_tokens {o : Object} (h : o.IsWritable) (rest : List Token) :
    readObject? (o.tokens ++ .mark '.' :: rest) = some (o, .mark '.' :: rest) := by
  cases o with
  | literal l =>
    rw [Object.tokens, List.cons_append, readObject?, literalOf_tokens h]
    rfl
  | node n =>
    have hnode := fullNode?_token h
    cases n <;> simp only [Object.tokens, List.singleton_append, Node.token, readObject?] at hnode ⊢
      <;> rw [hnode] <;> rfl

/-- The tokens of a statement are read as the statement. -/
theorem readStatement?_tokensOf (h : t.IsWritable) (graphs : Bool) :
    readStatement? graphs (tokensOf t) = some t := by
  simp only [tokensOf, readStatement?, fullNode?_token h.subject, fullIri?_iri h.predicate,
    readObject?_tokens h.object, endsStatement, if_true]

/-! ## Lines -/

theorem isLineEnd_of_isIriText {c : Char} (h : isIriText c = true) : isLineEnd c = false := by
  rw [isLineEnd, Bool.or_eq_false_iff, beq_eq_false_iff_ne, beq_eq_false_iff_ne]
  constructor <;>
  · rintro rfl
    exact absurd h (by decide)

theorem isLineEnd_writeIri {iri : String} (h : isIri iri.toList = true) :
    ∀ c ∈ writeIri iri, isLineEnd c = false := by
  rw [writeIri, List.forall_mem_append, List.forall_mem_cons]
  exact ⟨⟨rfl, fun c hc => isLineEnd_of_isIriText (isIriText_of_isIri h c hc)⟩, by simp [isLineEnd]⟩

theorem isLineEnd_writeNode {n : Node} (h : n.IsWritable) :
    ∀ c ∈ writeNode n, isLineEnd c = false := by
  cases n with
  | iri value => exact isLineEnd_writeIri h
  | blank label =>
    refine List.forall_mem_cons.2 ⟨rfl, List.forall_mem_cons.2 ⟨rfl, fun c hc => ?_⟩⟩
    have hchar := h.chars c hc
    rw [isLineEnd, Bool.or_eq_false_iff, beq_eq_false_iff_ne, beq_eq_false_iff_ne]
    constructor <;>
    · rintro rfl
      exact absurd hchar (by decide)

theorem isLineEnd_writeText (s : List Char) : ∀ c ∈ writeText s, isLineEnd c = false := by
  intro c hc
  obtain ⟨d, -, hc⟩ := List.mem_flatMap.1 hc
  obtain ⟨name, hwrite, -, hname⟩ | ⟨hwrite, hplain⟩ := writeTextChar_cases d
  · rw [hwrite] at hc
    simp only [List.mem_cons, not_or, List.not_mem_nil, or_false] at hc hname
    rcases hc with rfl | rfl
    · rfl
    · simp [isLineEnd, hname]
  · rw [hwrite, List.mem_singleton] at hc
    simp only [List.mem_cons, not_or] at hplain
    simp [isLineEnd, hc, hplain]

theorem isLineEnd_writeObject {o : Object} (h : o.IsWritable) :
    ∀ c ∈ writeObject o, isLineEnd c = false := by
  cases o with
  | node n => exact isLineEnd_writeNode h
  | literal l =>
    rw [writeObject, quoteText, List.forall_mem_append, List.forall_mem_append,
      List.forall_mem_cons]
    refine ⟨⟨⟨rfl, isLineEnd_writeText _⟩, by simp [isLineEnd]⟩, ?_⟩
    cases hlanguage : l.language with
    | none => simp
    | some tag =>
      refine List.forall_mem_cons.2 ⟨rfl, fun c hc => ?_⟩
      rcases (h tag hlanguage).word.2 c hc with halphanum | rfl
      · exact isLineEnd_of_isIriText (isIriText_of_alphanum halphanum)
      · rfl

/-- No line ends within a statement. -/
theorem isLineEnd_writeStatement (h : t.IsWritable) :
    ∀ c ∈ writeStatement t, isLineEnd c = false := by
  simp only [writeStatement, List.forall_mem_append, List.forall_mem_cons]
  exact ⟨isLineEnd_writeNode h.subject, rfl, isLineEnd_writeIri h.predicate, rfl,
    isLineEnd_writeObject h.object, rfl, rfl, nofun⟩

/-- Written statements are the lines of their document, with an empty one behind them. -/
theorem lines_writeStatements (h : ∀ t ∈ triples, t.IsWritable) :
    lines (writeStatements triples) = triples.map writeStatement ++ [[]] := by
  induction triples with
  | nil => rfl
  | cons t triples ih =>
    rw [List.forall_mem_cons] at h
    have hends := isLineEnd_writeStatement h.1
    simp only [isLineEnd, Bool.or_eq_false_iff, beq_eq_false_iff_ne] at hends
    have hmap : (writeStatement t).map (fun c => if c == '\r' then '\n' else c) =
        writeStatement t :=
      (List.map_congr_left fun c hc => if_neg (by simpa using (hends c hc).2)).trans
        (List.map_id' _)
    have hbreak : '\n' ∉ writeStatement t := fun hmem => (hends _ hmem).1 rfl
    rw [lines, writeStatements, List.flatMap_cons, List.append_assoc, List.singleton_append,
      List.map_append, List.map_cons, hmap, if_neg (by decide), Text.segments_append hbreak,
      List.map_cons, List.cons_append, ← ih h.2]
    rfl

/-- The line of a statement is read as the statement. -/
theorem readStatementLine?_writeStatement (h : t.IsWritable) (graphs : Bool) :
    readStatementLine? graphs (writeStatement t) = some (some t) := by
  have htokens : tokens? (writeStatement t) = some (tokensOf t) := by
    have hend : iterate tokenRound (#[] ++ (tokensOf t).toArray) [] =
        some (#[] ++ (tokensOf t).toArray, []) := rfl
    have hread : iterate tokenRound #[] ([] ++ writeStatement t ++ []) = _ :=
      iterate_statement h nofun rfl hend
    rw [List.nil_append, List.append_nil] at hread
    rw [tokens?, hread]
    simp
  rw [readStatementLine?, htokens]
  exact congrArg (Option.map some) (readStatement?_tokensOf h graphs)

/-- Written statements are read again from documents with one statement on a line. -/
theorem readNTriples?_writeStatements (h : ∀ t ∈ triples, t.IsWritable) (graphs : Bool) :
    readNTriples? graphs (writeStatements triples) = some triples := by
  have hlines : (triples.map writeStatement ++ [[]]).mapM (readStatementLine? graphs) =
      some (triples.map some ++ [none]) := by
    induction triples with
    | nil => rfl
    | cons t triples ih =>
      rw [List.forall_mem_cons] at h
      rw [List.map_cons, List.cons_append, List.mapM_cons,
        readStatementLine?_writeStatement h.1, ih h.2]
      rfl
  rw [readNTriples?, lines_writeStatements h, hlines]
  simp

/-! ## What documents say can be written -/

theorem isIri_of_fullIri? {token : Token} {iri : String} (h : token.fullIri? = some iri) :
    isIri iri.toList = true := by
  unfold Token.fullIri? at h
  split at h
  · split_ifs at h with hiri
    rw [← Option.some.inj h, String.toList_ofList]
    exact hiri
  · cases h

theorem isWritable_of_fullNode? {token : Token} {n : Node} (hsound : token.Sound)
    (h : token.fullNode? = some n) : n.IsWritable := by
  unfold Token.fullNode? at h
  split at h
  · cases h
    rw [Node.IsWritable, String.toList_ofList]
    exact hsound
  · obtain ⟨iri, hiri, rfl⟩ := Option.map_eq_some_iff.1 h
    exact isIri_of_fullIri? hiri

theorem isAlphanum_toLower {c : Char} (h : c.isAlphanum = true) : c.toLower.isAlphanum = true := by
  by_cases hupper : c.isUpper
  · simp [Char.isAlphanum, Char.isAlpha, hupper]
  · rwa [Char.toLower_eq_of_not_isUpper hupper]

/-- A tag is read in lower case, and is a tag then. -/
theorem isTag_lowerTag {word : List Char} (hword : IsTagWord word)
    (h : isLanguageTag word = true) : IsTag (lowerTag word) where
  word := by
    refine ⟨by simpa [lowerTag] using hword.1, fun c hc => ?_⟩
    obtain ⟨d, hd, rfl⟩ := List.mem_map.1 hc
    rcases hword.2 d hd with halphanum | rfl
    · exact .inl (isAlphanum_toLower halphanum)
    · exact .inr rfl
  formed := (isLanguageTag_lowerTag word).trans h
  lower := lowerTag_lowerTag word

theorem isWritable_of_literalOf {iri? : Token → Option String} {text : List Char} {l : Literal}
    {tokens after : List Token} (hsound : ∀ token ∈ tokens, token.Sound)
    (h : literalOf iri? text tokens = some (l, after)) : (Object.literal l).IsWritable := by
  unfold literalOf at h
  split at h
  · split_ifs at h with hformed
    cases h
    rintro _ ⟨⟩
    rw [String.toList_ofList]
    exact isTag_lowerTag (hsound _ List.mem_cons_self) hformed
  · split at h
    · split_ifs at h
      cases h
      nofun
    · cases h
  · cases h
    nofun

theorem isWritable_of_readObject? {tokens after : List Token} {o : Object}
    (hsound : ∀ token ∈ tokens, token.Sound) (h : readObject? tokens = some (o, after)) :
    o.IsWritable := by
  unfold readObject? at h
  split at h
  · obtain ⟨⟨l, after'⟩, hliteral, heq⟩ := Option.map_eq_some_iff.1 h
    cases heq
    exact isWritable_of_literalOf (List.forall_mem_cons.1 hsound).2 hliteral
  · obtain ⟨n, hnode, heq⟩ := Option.map_eq_some_iff.1 h
    cases heq
    exact isWritable_of_fullNode? (hsound _ List.mem_cons_self) hnode
  · cases h

/-- What the tokens of a line say can be written. -/
theorem isWritable_of_readStatement? {graphs : Bool} {tokens : List Token}
    (hsound : ∀ token ∈ tokens, token.Sound) (h : readStatement? graphs tokens = some t) :
    t.IsWritable := by
  unfold readStatement? at h
  split at h
  · next subject predicate tokens =>
    rw [List.forall_mem_cons, List.forall_mem_cons] at hsound
    split at h
    · next hsubject hpredicate hobject =>
      split_ifs at h
      cases h
      exact ⟨isWritable_of_fullNode? hsound.1 hsubject, isIri_of_fullIri? hpredicate,
        isWritable_of_readObject? hsound.2.2 hobject⟩
    · cases h
  · cases h

theorem isWritable_of_readStatementLine? {graphs : Bool} {line : List Char}
    (h : readStatementLine? graphs line = some (some t)) : t.IsWritable := by
  unfold readStatementLine? at h
  split at h
  · cases h
  · cases h
  · next tokens _ htokens =>
    obtain ⟨t', hread, heq⟩ := Option.map_eq_some_iff.1 h
    cases heq
    exact isWritable_of_readStatement? (sound_of_tokens? htokens) hread

/-- What a document with one statement on a line says can be written. -/
theorem isWritable_of_readNTriples? {graphs : Bool} (h : readNTriples? graphs s = some triples) :
    ∀ t ∈ triples, t.IsWritable := by
  obtain ⟨found, hfound, rfl⟩ := Option.map_eq_some_iff.1 h
  have hlines : ∀ t, some t ∈ found → t.IsWritable := by
    generalize lines s = lines at hfound
    clear h
    induction lines generalizing found with
    | nil =>
      cases hfound
      nofun
    | cons line lines ih =>
      rw [List.mapM_cons] at hfound
      obtain ⟨first, hfirst, hfound⟩ := Option.bind_eq_some_iff.1 hfound
      obtain ⟨others, hothers, heq⟩ := Option.bind_eq_some_iff.1 hfound
      cases heq
      intro t ht
      rcases List.mem_cons.1 ht with heq | ht
      · exact isWritable_of_readStatementLine? (heq ▸ hfirst)
      · exact ih _ hothers t ht
  intro t ht
  exact hlines t (by simpa using ht)

end Rdf

end Thesaurus
