import Thesaurus.Proofs.Graph.Learning

/-!
# What is shown of a node

Texts are the only thing for which the order of statements counts, and then only that of the texts
themselves. Relations have nothing to do with them.

- `textsOf`: the texts that some statements give to a node.
- `textsOf_congr`: they depend on the texts among the statements only.
- `ResourceGraph.shownAt`: what is shown of a node besides its kind.
- `ResourceGraph.shownAt_ingestAll`: it is the URL form of the node, with the texts it was given.
-/

namespace Thesaurus

open Rdf (Literal Node Predicate TextProperty Triple)

/-- Whether the object of a statement is a text. -/
def givesText (t : Triple) : Bool :=
  match t.object with
  | .literal _ => true
  | .node _ => false

/-- The texts of a node after a statement. -/
def textsAfter (c : Configuration) (n : Node) (texts : Texts) (t : Triple) : Texts :=
  match Predicate.ofIri? t.predicate, t.object with
  | some (.text property), .literal l =>
    if t.subject = n then texts.record c.primaryLanguage property l else texts
  | _, _ => texts

/-- The texts that statements give to a node. -/
def textsOf (c : Configuration) (triples : List Triple) (n : Node) : Texts :=
  triples.foldl (textsAfter c n) {}

theorem textsAfter_of_node {c : Configuration} {n : Node} {texts : Texts} {t : Triple}
    (h : ¬ givesText t = true) : textsAfter c n texts t = texts := by
  cases hobject : t.object with
  | literal l => exact absurd (by rw [givesText, hobject]) h
  | node object =>
    rw [textsAfter, hobject]
    cases Predicate.ofIri? t.predicate with
    | none => rfl
    | some p => cases p <;> rfl

/-- The texts of a node depend on the texts among the statements only, and on their order. -/
theorem textsOf_congr {c : Configuration} {triples others : List Triple}
    (h : others.filter givesText = triples.filter givesText) :
    textsOf c others = textsOf c triples := by
  funext n
  have hrelevant : ∀ l : List Triple, (l.filter givesText).foldl (textsAfter c n) {} =
      textsOf c l n := by
    intro l
    have hidle : (fun texts t => if givesText t = true then textsAfter c n texts t else texts) =
        textsAfter c n := by
      funext texts t
      split
      · rfl
      · next hisNode => rw [textsAfter_of_node hisNode]
    rw [List.foldl_filter, hidle]
    rfl
  rw [← hrelevant, ← hrelevant, h]

namespace ResourceGraph

variable {g g' : ResourceGraph} {i : ResourceId} {m n : Node} {r : Resource}

/-- What is shown of a node besides its kind, or will be shown once it has a resource: the URL form
and the texts. -/
def shownAt (g : ResourceGraph) (n : Node) : Option String × Texts :=
  let r := ((g.lookup n).bind (g.resources[·]?)).getD (g.newResource n)
  (r.url, r.texts)

theorem shownAt_eq (hn : g.lookup n = some i) (hr : g.resources[i]? = some r) :
    g.shownAt n = (r.url, r.texts) := by
  simp [shownAt, hn, hr]

theorem shownAt_of_none (hn : g.lookup n = none) :
    g.shownAt n = ((g.newResource n).url, {}) := by
  simp [shownAt, hn, newResource]

theorem shownAt_update {change : Resource → Resource} (h : Indexed g)
    (hshown : ∀ r, ((change r).url, (change r).texts) = (r.url, r.texts)) :
    (g.update i change).shownAt n = g.shownAt n := by
  cases hn : g.lookup n with
  | none =>
    have hn' : (g.update i change).lookup n = none := by rw [lookup_update, hn]
    rw [shownAt_of_none hn, shownAt_of_none hn']
    rfl
  | some j =>
    have hn' : (g.update i change).lookup n = some j := by rw [lookup_update, hn]
    obtain ⟨r, hr, _⟩ := lookup_eq_some h hn
    have hr' : (g.update i change).resources[j]? = _ := get_update change
    rw [hr] at hr'
    split at hr'
    · rw [shownAt_eq hn hr, shownAt_eq hn' hr']
      exact hshown r
    · rw [shownAt_eq hn hr, shownAt_eq hn' hr']

/-- A new resource shows what was to be shown of its node. -/
theorem shownAt_ensure (h : Indexed g) : (g.ensure m).shownAt n = g.shownAt n := by
  have hurl : ((g.ensure m).newResource n).url = (g.newResource n).url := by
    simp [newResource]
  -- old resources stay where they are, and a new one shows what a missing one does
  have hstays : ∀ {i : ResourceId} {r}, g.resources[i]? = some r →
      (g.ensure m).resources[i]? = some r := by
    intro i r hr
    rw [get_ensure, if_neg fun hnew => ?_, hr]
    exact absurd (lt_size hr) (hnew.2 ▸ Nat.lt_irrefl _)
  cases hn : g.lookup n with
  | some i =>
    obtain ⟨r, hr, _⟩ := lookup_eq_some h hn
    rw [shownAt_eq hn hr, shownAt_eq (lookup_ensure_of_some hn) (hstays hr)]
  | none =>
    rw [shownAt_of_none hn]
    by_cases hsame : n = m
    · subst hsame
      have hnew : (g.ensure n).resources[g.size]? = some (g.newResource n) := by
        rw [get_ensure, if_pos ⟨hn, rfl⟩]
      have hfound : (g.ensure n).lookup n = some g.size := by
        rw [lookup_ensure_self, idOf, hn]
        rfl
      rw [shownAt_eq hfound hnew]
      rfl
    · have habsent : (g.ensure m).lookup n = none := by rw [lookup_ensure_of_ne hsame, hn]
      rw [shownAt_of_none habsent, hurl]

/-- Relations change neither URL forms nor texts. -/
theorem keptByRelations_shownAt (shown : Option String × Texts) :
    KeptByRelations fun g => Indexed g ∧ g.shownAt n = shown where
  ensure := fun _ _ hg => ⟨hg.1.ensure, (shownAt_ensure hg.1).trans hg.2⟩
  request := fun g id requested cause hg => by
    have hturned : (g.update id fun r => { r with kind := r.kind.after requested }).shownAt n =
        g.shownAt n := shownAt_update hg.1 fun _ => rfl
    refine ⟨indexed_request hg.1, ?_⟩
    rw [request_eq]
    exact hturned.trans hg.2
  updateLinks := fun g id change hg => by
    have hlinked : (g.update id fun r => { r with links := change r.links }).shownAt n =
        g.shownAt n := shownAt_update hg.1 fun _ => rfl
    exact ⟨hg.1.updateLinks change, hlinked.trans hg.2⟩
  report := fun _ _ hg => ⟨hg.1.congr rfl rfl, hg.2⟩
  ignore := fun _ hg => ⟨hg.1.congr rfl rfl, hg.2⟩
  linkCell := fun _ _ _ _ hg => ⟨hg.1.congr rfl rfl, hg.2⟩

/-- New texts of a resource are shown of its node. -/
theorem shownAt_setTexts (h : Indexed g) (hm : g.lookup m = some i) (change : Texts → Texts) :
    (g.update i fun r => { r with texts := change r.texts }).shownAt n =
      ((g.shownAt n).1, if m = n then change (g.shownAt n).2 else (g.shownAt n).2) := by
  have hnodes : (g.update i fun r => { r with texts := change r.texts }).lookup = g.lookup := rfl
  cases hn : g.lookup n with
  | none =>
    have hother : m ≠ n := by
      rintro rfl
      rw [hm] at hn
      cases hn
    rw [shownAt_of_none hn, shownAt_of_none (by rw [hnodes, hn]), if_neg hother]
    rfl
  | some j =>
    have hn' : (g.update i fun r => { r with texts := change r.texts }).lookup n = some j := by
      rw [hnodes, hn]
    obtain ⟨r, hr, rfl⟩ := lookup_eq_some h hn
    have hr' : (g.update i fun r => { r with texts := change r.texts }).resources[j]? = _ :=
      get_update fun r => { r with texts := change r.texts }
    rw [hr] at hr'
    rw [shownAt_eq hn hr]
    -- it is the same resource just if it is the same node
    by_cases hhere : j = i
    · obtain ⟨s, hs, rfl⟩ := lookup_eq_some h hm
      rw [← hhere, hr, Option.some.injEq] at hs
      rw [if_pos hhere] at hr'
      rw [shownAt_eq hn' hr', if_pos (by rw [hs])]
    · have hother : m ≠ r.node := by
        rintro rfl
        rw [hm, Option.some.injEq] at hn
        exact hhere hn.symm
      rw [if_neg hhere] at hr'
      rw [shownAt_eq hn' hr', if_neg hother]

/-! ## Statements -/

/-- A statement changes what is shown of the node it gives a text to. -/
theorem shownAt_accept {t : Triple} (h : Indexed g) (haccepted : g.accept t = .ok g') :
    g'.shownAt n = ((g.shownAt n).1, textsAfter g.configuration n (g.shownAt n).2 t) := by
  have hcounted : Indexed g.counted := h.congr rfl rfl
  unfold textsAfter
  cases accepted_of_accept haccepted with
  | unknown hpredicate =>
    rw [hpredicate]
    rfl
  | related hpredicate hobject =>
    rw [hpredicate, hobject]
    exact ((keptByRelations_shownAt _).relate ⟨hcounted, rfl⟩).2
  | described hpredicate hobject =>
    rw [hpredicate, hobject, describe, shownAt_setTexts hcounted.ensure lookup_ensure_self,
      shownAt_ensure hcounted]
    rfl
  | refused hpredicate hobject =>
    rw [hpredicate, hobject]
    rfl
  | untold hpredicate hobject =>
    rw [hpredicate, hobject]
    rfl

/-- Statements change the texts of a node one after the other. -/
theorem shownAt_of_ingestAll {triples : List Triple} (h : Sound g)
    (htaken : g.ingestAll triples = .ok g') :
    g'.shownAt n =
      ((g.shownAt n).1, triples.foldl (textsAfter g.configuration n) (g.shownAt n).2) := by
  induction triples generalizing g with
  | nil =>
    cases htaken
    rfl
  | cons t rest ih =>
    obtain ⟨g₁, hfirst, hothers⟩ := of_ingestAll_cons htaken
    have haccepted := (of_ingest hfirst).2
    rw [ih (h.changes (changes_of_ingest h hfirst)) hothers, configuration_accept haccepted,
      shownAt_accept h.indexed haccepted, List.foldl_cons]

/-- What is shown of a node is its URL form, with the texts that it was given. -/
theorem shownAt_ingestAll {c : Configuration} {triples : List Triple}
    (htaken : (new c).ingestAll triples = .ok g) :
    g.shownAt n = (((new c).newResource n).url, textsOf c triples n) := by
  have hnothing : (new c).lookup n = none := by simp [lookup, new]
  rw [shownAt_of_ingestAll (Sound.new c) htaken, shownAt_of_none hnothing]
  rfl

end ResourceGraph

end Thesaurus
