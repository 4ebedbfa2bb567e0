import Thesaurus.Proofs.FileTree
import Thesaurus.Proofs.Rdf.NTriples
import Thesaurus.Rdf.Format

/-!
# Written statements in all text formats

A document with one statement on a line and every IRI in full is a Turtle document as well, and says
the same as one: each line is a sentence, which states one thing and leaves all else as it was.

- `Turtle.readSentence_tokensOf`: the sentence of a statement states it.
- `Turtle.triples_add`: statements are kept in the order of their sentences.
- `readTurtle?_writeStatements`: written statements are read again from Turtle documents.
- `Format.read?_writeStatements`: what is read from a document of one statement on a line is read
  again in every text format.
- `load_writeStatements`: so it is from a file.
-/

namespace Thesaurus

namespace Rdf

open Text (iterate iterate_append iterate_last)

variable {t : Triple} {triples : List Triple}

namespace Turtle

variable {st : State} {subject : Node} {predicate : String} {tokens : List Token}

theorem iri?_iri {iri : String} (hbase : st.base = none) (h : isIri iri.toList = true) :
    st.iri? (.iri iri.toList) = some iri := by
  rw [State.iri?, State.resolve?, hbase]
  simp [h]

theorem readSubject_token {n : Node} (hbase : st.base = none) (h : n.IsWritable)
    (tokens : List Token) : readSubject st (n.token :: tokens) = some (n, st, tokens) := by
  cases n with
  | iri value =>
    rw [Node.token, readSubject, iri?_iri hbase h]
    · rfl
    all_goals simp
  | blank label => simp [Node.token, readSubject]

/-- An object is stated when its last token has been read, or the point behind it. -/
theorem saySimple_tokens {o : Object} (hbase : st.base = none) (h : o.IsWritable)
    (subject : Node) (predicate : String) (tokens : List Token) :
    ∃ left, tokens.length ≤ left ∧ left ≤ tokens.length + 1 ∧
      saySimple subject predicate st (o.tokens ++ .mark '.' :: tokens) =
        some (st.add left subject predicate o, .mark '.' :: tokens) := by
  cases o with
  | literal l =>
    generalize htag :
      (l.language.elim [] fun tag => [Token.tag tag.toList]) ++ .mark '.' :: tokens = after
    have hsimple :
        saySimple subject predicate st ((Object.literal l).tokens ++ .mark '.' :: tokens) =
          some (st.add (leftAfterText after.length (.mark '.' :: tokens)) subject predicate
          (.literal l), .mark '.' :: tokens) := by
      rw [Object.tokens, List.cons_append, saySimple, literalOf_tokens h, htag]
      rfl
    refine ⟨_, ?_, ?_, hsimple⟩
    -- a text without a tag is complete with the point, another one with its tag
    all_goals
      rw [← htag, leftAfterText]
      cases l.language <;> simp
  | node n =>
    refine ⟨tokens.length + 1, by omega, le_refl _, ?_⟩
    cases n with
    | iri value =>
      rw [Object.tokens, List.singleton_append, Node.token, saySimple, saySimple.simple?,
        iri?_iri hbase h]
      · rfl
      all_goals simp
    | blank label => simp [Object.tokens, Node.token, saySimple, saySimple.simple?]

/-- No brackets are opened by an object in full. -/
theorem sayObject_tokens (o : Object) (subject : Node) (predicate : String) (tokens : List Token) :
    sayObject subject predicate st (o.tokens ++ tokens) =
      saySimple subject predicate st (o.tokens ++ tokens) := by
  rw [sayObject, sayObjectWithin.eq_def]
  match o with
  | .literal l => rfl
  | .node (.iri value) => rfl
  | .node (.blank label) => rfl

/-- A sentence of one statement states it. -/
theorem readSentence_tokensOf (hbase : st.base = none) (h : t.IsWritable) (tokens : List Token) :
    ∃ left, tokens.length ≤ left ∧ left ≤ tokens.length + 1 ∧
      readSentence st (tokensOf t ++ tokens) =
        some (st.add left t.subject t.predicate t.object, tokens) := by
  obtain ⟨left, hlow, hhigh, hsimple⟩ :=
    saySimple_tokens hbase h.object t.subject t.predicate tokens
  refine ⟨left, hlow, hhigh, ?_⟩
  generalize hst' : st.add left t.subject t.predicate t.object = st' at hsimple ⊢
  -- an object is followed by the dot, so that no list of objects goes on
  have hobject : iterate (objectRound sayObject t.subject t.predicate) st
      (t.object.tokens ++ .mark '.' :: tokens) = some (st', .mark '.' :: tokens) := by
    refine iterate_last ?_
    rw [objectRound, sayObject_tokens, hsimple]
    rfl
  have hpredicate : readPredicates sayObject t.subject st
      (.iri t.predicate.toList :: (t.object.tokens ++ .mark '.' :: tokens)) =
        some (st', .mark '.' :: tokens) := by
    refine iterate_last ?_
    rw [predicateRound, predicate?, iri?_iri hbase h.predicate]
    · dsimp only
      rw [hobject]
      rfl
    · nofun
  have htokens : tokensOf t ++ tokens = t.subject.token ::
      .iri t.predicate.toList :: (t.object.tokens ++ .mark '.' :: tokens) := by
    simp [tokensOf]
  -- the sentence does not start with brackets or a list
  have hopens : opensPredicates (t.subject.token :: .iri t.predicate.toList ::
      (t.object.tokens ++ .mark '.' :: tokens)) = false := by
    cases t.subject <;> rfl
  rw [htokens, readSentence, readSubject_token hbase h.subject]
  simp only [hopens, Bool.false_and, Bool.false_eq_true, if_false, hpredicate]

theorem readTurtleRound_tokensOf {st' : State}
    (h : readSentence st (tokensOf t ++ tokens) = some (st', tokens)) :
    readTurtleRound st (tokensOf t ++ tokens) = some (.more st' tokens) := by
  have hsubject : tokensOf t ++ tokens = t.subject.token ::
      (.iri t.predicate.toList :: (t.object.tokens ++ [.mark '.']) ++ tokens) := rfl
  rw [hsubject] at h ⊢
  unfold readTurtleRound
  rw [h]
  cases t.subject <;> rfl

variable {left : Nat} {o : Object}

theorem base_add : (st.add left subject predicate o).base = st.base := by
  unfold State.add
  dsimp only
  split <;> rfl

theorem left_add : (st.add left subject predicate o).left = left := by
  unfold State.add
  dsimp only
  split
  · next heq => exact heq.symm
  · rfl

/-- A statement that is complete at a token of its own comes behind those before it. -/
theorem triples_add (h : st.batch = [] ∨ left < st.left) :
    (st.add left subject predicate o).triples = st.triples ++ [⟨subject, predicate, o⟩] := by
  unfold State.add State.triples
  dsimp only
  split
  · next heq =>
    rcases h with hbatch | hlt
    · simp [hbatch]
    · omega
  · simp

/-- Sentences of one statement each state them in their order. -/
theorem iterate_sentences (hbase : st.base = none) (h : ∀ t ∈ triples, t.IsWritable)
    (hleft : st.batch = [] ∨ (triples.flatMap tokensOf).length ≤ st.left) :
    ∃ st', iterate readTurtleRound st (triples.flatMap tokensOf) = some (st', []) ∧
      st'.triples = st.triples ++ triples := by
  induction triples generalizing st with
  | nil => exact ⟨st, rfl, by simp⟩
  | cons t triples ih =>
    rw [List.forall_mem_cons] at h
    obtain ⟨left, hlow, hhigh, hsentence⟩ :=
      readSentence_tokensOf hbase h.1 (triples.flatMap tokensOf)
    have hlength : 3 ≤ (tokensOf t).length := by simp [tokensOf]
    rw [List.flatMap_cons, List.length_append] at hleft
    have hstep : (st.add left t.subject t.predicate t.object).triples = st.triples ++ [t] :=
      triples_add (hleft.imp_right fun hle => by omega)
    obtain ⟨st', hread, htriples⟩ :=
      ih (base_add.trans hbase) h.2 (.inr (hlow.trans left_add.symm.le))
    refine ⟨st', ?_, by rw [htriples, hstep, List.append_assoc, List.singleton_append]⟩
    exact iterate_append (readTurtleRound_tokensOf hsentence) (by simp [tokensOf]) hread

end Turtle

/-- Written statements are read again from Turtle documents. -/
theorem readTurtle?_writeStatements (h : ∀ t ∈ triples, t.IsWritable) :
    readTurtle? (writeStatements triples) = some triples := by
  obtain ⟨st, hread, htriples⟩ := @Turtle.iterate_sentences triples {} rfl h (.inl rfl)
  rw [readTurtle?, tokens?_writeStatements h]
  dsimp only
  rw [hread, Option.map_some, htriples]
  rfl

/-- Written statements are read again in every text format. -/
theorem Format.read?_of_isWritable {f : Format} (h : ∀ t ∈ triples, t.IsWritable)
    (hf : f ∉ [rdfXml, jsonLd]) :
    f.read? (String.ofList (writeStatements triples)) = some triples := by
  simp only [List.mem_cons, List.not_mem_nil, or_false, not_or] at hf
  have hlines := readNTriples?_writeStatements h
  have hturtle := readTurtle?_writeStatements h
  cases f <;> simp_all [Format.read?]

/-- What is read from a document with one statement on a line can be written like this, and then
says the same in every text format: the order of statements, labels, texts and tags are kept. -/
theorem Format.read?_writeStatements {lined f : Format} {text : String}
    (hlined : lined ∈ [nTriples, nQuads]) (hf : f ∉ [rdfXml, jsonLd])
    (h : lined.read? text = some triples) :
    f.read? (String.ofList (writeStatements triples)) = some triples := by
  refine Format.read?_of_isWritable ?_ hf
  simp only [List.mem_cons, List.not_mem_nil, or_false] at hlined
  rcases hlined with rfl | rfl <;> exact isWritable_of_readNTriples? h

/-- A file of written statements is loaded as the statements, whether its format is asked for or
told by its name. -/
theorem load_writeStatements {f : Format} {files files' : FileTree} {path : String}
    {asked : Option Format} (h : ∀ t ∈ triples, t.IsWritable) (hf : f ∉ [.rdfXml, .jsonLd])
    (hwrite : files.write? path (String.ofList (writeStatements triples)) = some files')
    (hformat : formatFor path asked = .ok f) : load files' path asked = .ok triples := by
  have hread := Format.read?_of_isWritable h hf
  rw [load, hformat, FileTree.look?_write hwrite]
  simp only [readEntry, Format.read, hread]

end Rdf

end Thesaurus
