import Thesaurus.Proofs.Text.Markup
import Thesaurus.Proofs.Transform

/-!
# Messages

Whatever the statements are, the messages of a transform can be put into markup as they are.

- `Issue.harmless_message`: nothing in a message is left that ought to be escaped, unless a literal
  was refused.
- `Issue.message_literalAsResource`: then there are two double quotes around the literal.
- `Diagnostic.harmless_ofText`, `Diagnostic.shown_issues`: what is shown of texts and of issues.
- `messages_safe`: the messages of every transform are safe.
-/

namespace Thesaurus

open Rdf (Node Predicate Relation Triple)
open Text.Markup (Escaped Safe escaped_of_plain markupChars safe_of_bare)

namespace Issue

/-- Whether a text has been escaped, as far as it had to be. -/
def Harmless (s : String) : Prop :=
  Escaped s.toList

/-- A fixed text without markup characters is harmless. Its characters are given as a list, since
checking a list is less work than reading it from the text. -/
theorem harmless_fixed {s : List Char} (h : s.all (· ∉ markupChars) = true) :
    Harmless (.ofList s) := by
  rw [Harmless, String.toList_ofList]
  exact escaped_of_plain h

theorem harmless_append {s t : String} (h : Harmless s) (h' : Harmless t) : Harmless (s ++ t) := by
  rw [Harmless, String.toList_append]
  exact h.append h'

theorem harmless_escape (s : String) : Harmless (Text.Markup.escape s) :=
  ⟨s.toList, String.toList_ofList⟩

theorem harmless_shown (n : Node) : Harmless (shown n) :=
  harmless_escape n.text

theorem harmless_shownList (nodes : List Node) : Harmless (shownList nodes) := by
  unfold shownList
  induction nodes with
  | nil => exact harmless_fixed (s := []) (by decide)
  | cons n rest ih =>
    cases rest with
    | nil => exact harmless_shown n
    | cons m rest =>
      rw [List.map_cons, List.map_cons, String.intercalate_cons_cons]
      have hcomma : Harmless ", " := harmless_fixed (by decide)
      exact harmless_append (harmless_append (harmless_shown n) hcomma) ih

theorem harmless_name (k : Kind) : Harmless k.name := by
  cases k <;> exact harmless_fixed (by decide)

theorem harmless_relation (r : Relation) : Harmless r.curie := by
  cases r <;> exact harmless_fixed (by decide)

theorem harmless_curie (p : Predicate) : Harmless p.curie := by
  cases p with
  | relation r => exact harmless_relation r
  | text property => cases property <;> exact harmless_fixed (by decide)

/-- A message is made of fixed texts and of what has been escaped, unless a literal was refused. -/
theorem harmless_message (i : Issue) :
    Harmless i.message ∨ ∃ subject p value, i = .literalAsResource subject p value := by
  -- a refused literal is the only text that a message repeats in quotes
  cases i with
  | literalAsResource subject p value => exact .inr ⟨subject, p, value, rfl⟩
  | orderedMembersMismatch collection notMembers notListed =>
    refine .inl ?_
    unfold message
    dsimp only
    split <;> split
    all_goals
      repeat' with_reducible refine harmless_append ?_ ?_
    all_goals first
      | with_reducible exact harmless_shown _
      | with_reducible exact harmless_shownList _
      | exact harmless_fixed (by decide)
  | _ =>
    refine .inl ?_
    unfold message
    dsimp only
    repeat' with_reducible refine harmless_append ?_ ?_
    all_goals first
      | with_reducible exact harmless_shown _
      | with_reducible exact harmless_name _
      | with_reducible exact harmless_relation _
      | exact harmless_fixed (by decide)

/-- The message for a refused literal has two double quotes around the literal, and is harmless
otherwise. -/
theorem message_literalAsResource (subject : Node) (p : Predicate) (value : String) :
    ∃ before after, Harmless before ∧ Harmless after ∧
      message (.literalAsResource subject p value) =
        before ++ "\"" ++ Text.Markup.escape value ++ "\"" ++ after := by
  have hopening : " has the literal \"" = " has the literal " ++ "\"" := rfl
  have hclosing : "\" where a resource is required; the assertion was skipped." =
    "\"" ++ " where a resource is required; the assertion was skipped." := rfl
  refine ⟨shown subject ++ " " ++ p.curie ++ " has the literal ",
    " where a resource is required; the assertion was skipped.", ?_, harmless_fixed (by decide), ?_⟩
  · have hspace : Harmless " " := harmless_fixed (by decide)
    have hverb : Harmless " has the literal " := harmless_fixed (by decide)
    exact harmless_append
      (harmless_append (harmless_append (harmless_shown subject) hspace) (harmless_curie p)) hverb
  · unfold message
    dsimp only
    rw [hopening, hclosing, ← String.append_assoc, ← String.append_assoc]

/-- Every message is safe. -/
theorem safe_message (i : Issue) : Safe i.message.toList := by
  obtain hharmless | ⟨subject, p, value, rfl⟩ := i.harmless_message
  · exact hharmless.safe
  · obtain ⟨before, after, hharmless, hharmless', hmessage⟩ :=
      message_literalAsResource subject p value
    have hquote : Safe "\"".toList := safe_of_bare (by simp)
    simp only [hmessage, String.toList_append]
    exact (((hharmless.safe.append hquote).append (harmless_escape value).safe).append
      hquote).append hharmless'.safe

end Issue

namespace Diagnostic

/-- Any text can be made a diagnostic, for what would mean something in markup is escaped. -/
theorem harmless_ofText (kind : IssueKind) (raw : String) :
    Issue.Harmless (ofText kind raw).message :=
  Issue.harmless_escape raw

/-- Issues are shown one by one: there are as many of each kind, and they keep their messages. -/
theorem shown_issues (issues : List Issue) (kind : IssueKind) :
    count kind (issues.map (·.diagnostic)) = issues.countP (·.kind = kind) ∧
      messages (issues.map (·.diagnostic)) = issues.map (·.message) := by
  constructor
  · rw [count, List.countP_map]
    rfl
  · rw [messages, List.map_map]
    rfl

end Diagnostic

/-- Whatever the statements are, the messages of their transform can be put into markup as they are.
The only double quotes in them are the two around a refused literal. -/
theorem messages_safe (c : Configuration) (triples : List Triple)
    (hvalid : c.validate = .ok ()) : ∃ outcome, transform c triples = .ok outcome ∧
      ∀ m ∈ outcome.messages, Safe m.toList ∧
        ('\x22' ∉ m.toList ∨ ∃ subject p value before after,
          m = (Issue.literalAsResource subject p value).message ∧
          m = before ++ "\"" ++ Text.Markup.escape value ++ "\"" ++ after ∧
          '\x22' ∉ before.toList ∧ '\x22' ∉ (Text.Markup.escape value).toList ∧
          '\x22' ∉ after.toList) := by
  obtain ⟨outcome, htransformed⟩ := exists_transform triples hvalid
  refine ⟨outcome, htransformed, fun m hm => ?_⟩
  obtain ⟨i, hi, rfl⟩ := List.mem_map.1 hm
  refine ⟨i.safe_message, ?_⟩
  obtain hharmless | ⟨subject, p, value, rfl⟩ := i.harmless_message
  · exact .inl hharmless.unquoted
  · obtain ⟨before, after, hharmless, hharmless', hmessage⟩ :=
      Issue.message_literalAsResource subject p value
    exact .inr ⟨subject, p, value, before, after, rfl, hmessage, hharmless.unquoted,
      (Issue.harmless_escape value).unquoted, hharmless'.unquoted⟩

/-- A statement that has a text of markup where a node is required. -/
def markupStatement : Triple :=
  ⟨.iri "urn:<a>", "http://www.w3.org/2004/02/skos/core#broader",
    .literal ⟨"<a href=\"x\">Tom & Jerry\x27s</a>", none⟩⟩

theorem messages_safe_markup : Configuration.validate {} = .ok () ∧
    ∃ outcome, transform {} [markupStatement] = .ok outcome ∧
      ∀ m ∈ outcome.messages, Safe m.toList ∧
        ('\x22' ∉ m.toList ∨ ∃ subject p value before after,
          m = (Issue.literalAsResource subject p value).message ∧
          m = before ++ "\"" ++ Text.Markup.escape value ++ "\"" ++ after ∧
          '\x22' ∉ before.toList ∧ '\x22' ∉ (Text.Markup.escape value).toList ∧
          '\x22' ∉ after.toList) :=
  ⟨rfl, messages_safe {} [markupStatement] rfl⟩

end Thesaurus
