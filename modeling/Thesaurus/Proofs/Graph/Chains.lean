import Mathlib.Data.List.Perm.Subperm
import Mathlib.Data.List.Infix
import Thesaurus.MemberList

/-!
# Chains of list cells

Cells refer to each other as they please: a chain may be cut off, leave what is known, or come back
to itself. A list is read along its chain as far as new cells go, and nothing is wrong with it just
if the chain is a list that the terminator closes.

- `CellStore.Run`, `CellStore.beyond`: cells one behind the other, each of them new, and where they
  lead.
- `CellStore.Closing`: why a run goes no further, and what is recorded about it.
- `CellStore.IsList`: well-formed lists.
- `CellStore.Run.prefix_of_closing`: a run that goes no further is the longest one.
- `CellStore.follow_run`: following a chain goes along its longest run.
- `CellStore.resolve_exact`: what is read of a list, and what is recorded.
-/

namespace Thesaurus

open Rdf (Node)

namespace CellStore

variable {s : CellStore} {owner head n : Node} {cells other : List Node}

/-- The element of a cell, where one is known. -/
def first? (s : CellStore) (cell : Node) : Option Node :=
  (s.cell? cell).bind (·.first)

/-- The cell behind a cell, where one is known. -/
def rest? (s : CellStore) (cell : Node) : Option Node :=
  (s.cell? cell).bind (·.rest)

/-- Where cells lead: to the head at first, then to the cell behind the last one. -/
def beyond (s : CellStore) (head : Node) (cells : List Node) : Option Node :=
  match cells.getLast? with
  | none => some head
  | some last => s.rest? last

/-- Cells one behind the other from `head` on. Of each of them something is known, none is the
terminator, and none comes twice. -/
inductive Run (s : CellStore) (head : Node) : List Node → Prop where
  | start : s.Run head []
  | step {cells : List Node} {next : Node} (run : s.Run head cells)
    (leads : s.beyond head cells = some next) (proper : next.isNil = false)
    (declared : (s.cell? next).isSome) (fresh : next ∉ cells) : s.Run head (cells ++ [next])

/-- Why a run goes no further, with the issue that is recorded about it: it leads to the terminator,
comes back to one of its cells, leads to a cell of which nothing is known, or has no cell behind its
last one. -/
inductive Closing (s : CellStore) (owner head : Node) (cells : List Node) :
    Option Issue → Prop where
  | terminated (next : Node) (leads : s.beyond head cells = some next) (terminator : next.isNil) :
    s.Closing owner head cells none
  | reenters (next : Node) (leads : s.beyond head cells = some next) (visited : next ∈ cells) :
    s.Closing owner head cells (some (.listCycle owner next))
  | undeclared (next : Node) (leads : s.beyond head cells = some next)
    (proper : next.isNil = false) (unknown : s.cell? next = none) :
    s.Closing owner head cells (some (.undeclaredCell owner next))
  | cutOff (last : Node) (ends : cells.getLast? = some last) (alone : s.rest? last = none) :
    s.Closing owner head cells (some (.missingRest owner last))

/-- The issue with the element of a cell: it has none, or it is the terminator. -/
def fault? (s : CellStore) (owner cell : Node) : Option Issue :=
  match s.first? cell with
  | none => some (.missingFirst owner cell)
  | some value => if value.isNil then some (.terminatorAsElement owner cell) else none

/-- Well-formed lists, with their values: each cell has an element and a cell behind it, and the
terminator closes them. -/
inductive IsList (s : CellStore) : Node → List Node → Prop where
  | nil {n : Node} (terminator : n.isNil) : s.IsList n []
  | cons {cell value next : Node} {values : List Node} (proper : cell.isNil = false)
    (known : s.cell? cell = some ⟨some value, some next⟩) (element : value.isNil = false)
    (tail : s.IsList next values) : s.IsList cell (value :: values)

/-! ## Runs -/

@[simp]
theorem beyond_nil : s.beyond head [] = some head :=
  rfl

@[simp]
theorem beyond_concat : s.beyond head (cells ++ [n]) = s.rest? n := by
  rw [beyond, List.getLast?_concat]

namespace Run

theorem nodup (h : s.Run head cells) : cells.Nodup := by
  induction h with
  | start => exact List.nodup_nil
  | step hrun hleads hproper hdeclared hfresh ih =>
    exact List.nodup_append.2 ⟨ih, by simp, by grind⟩

theorem declared (h : s.Run head cells) : ∀ c ∈ cells, (s.cell? c).isSome := by
  induction h with
  | start => simp
  | step hrun hleads hproper hdeclared hfresh ih => simpa [or_imp, forall_and] using ⟨ih, hdeclared⟩

theorem proper (h : s.Run head cells) : ∀ c ∈ cells, c.isNil = false := by
  induction h with
  | start => simp
  | step hrun hleads hproper hdeclared hfresh ih => simpa [or_imp, forall_and] using ⟨ih, hproper⟩

/-- The cells in front of a cell are a run of their own, and they lead to it. -/
theorem upTo {before after : List Node} (h : s.Run head cells)
    (hsplit : cells = before ++ n :: after) :
    s.Run head before ∧ s.beyond head before = some n := by
  induction h generalizing after with
  | start => simp at hsplit
  | @step cells next hrun hleads hproper hdeclared hfresh ih =>
    rcases List.eq_nil_or_concat after with rfl | ⟨after', last, rfl⟩
    · obtain ⟨rfl, hsame⟩ := List.append_inj' hsplit rfl
      cases hsame
      exact ⟨hrun, hleads⟩
    · rw [List.concat_eq_append, ← List.cons_append, ← List.append_assoc] at hsplit
      exact ih (List.append_inj' hsplit rfl).1

/-- A run that goes no further begins with every other run, so there is no longer one. -/
theorem prefix_of_closing {final : Option Issue} (h : s.Run head cells)
    (hclosing : s.Closing owner head cells final) (hother : s.Run head other) :
    other <+: cells := by
  induction hother with
  | start => exact List.nil_prefix
  | @step cells' next hrun hleads hproper hdeclared hfresh ih =>
    obtain ⟨after, rfl⟩ := ih
    cases after with
    | nil =>
      -- the other run would go on where this one does not
      rw [List.append_nil] at hclosing
      cases hclosing <;> grind [beyond]
    | cons n after =>
      cases hleads.symm.trans (h.upTo rfl).2
      exact ⟨after, by simp⟩

/-- A run has no more cells than something is known of. -/
theorem length_le (h : s.Run head cells) : cells.length ≤ s.size := by
  have hknown : cells ⊆ s.entries.map (·.1) := by
    intro c hc
    obtain ⟨known, hfound⟩ := Option.isSome_iff_exists.1 (h.declared c hc)
    obtain ⟨before, after, heq, -⟩ := List.lookup_eq_some_iff.1 hfound
    simp [heq]
  simpa [size] using (h.nodup.subperm hknown).length_le

end Run

/-! ## Following a chain -/

/-- The entries of cells that a run has not come to. -/
def unmet (s : CellStore) (cells : List Node) : List (Node × ListCell) :=
  s.entries.filter (·.1 ∉ cells)

theorem lookup_unmet (s : CellStore) (cells : List Node) (n : Node) :
    (s.unmet cells).lookup n = if n ∈ cells then none else s.cell? n := by
  rw [unmet, cell?]
  induction s.entries with
  | nil => simp
  | cons entry rest ih => grind

theorem dropCell_unmet (s : CellStore) (cells : List Node) (n : Node) :
    dropCell n (s.unmet cells) = s.unmet (cells ++ [n]) := by
  rw [unmet, unmet, dropCell, List.filter_filter]
  refine List.filter_congr fun entry _ => ?_
  grind

/-- What following a chain gives, after the cells `met` of its run. -/
theorem follow_run {met : List Node} {current : Node} (owner : Node) (h : s.Run head met)
    (hleads : s.beyond head met = some current) :
    let c := s.follow (s.unmet met) current
    s.Run head (met ++ c.cells.map (·.1)) ∧ (∀ cell ∈ c.cells, s.cell? cell.1 = some cell.2) ∧
      s.Closing owner head (met ++ c.cells.map (·.1)) (c.ending.issue? owner) := by
  -- the cases are those in which the loop stops, and in the last one it goes on
  by_cases hterminator : current.isNil
  · rw [follow, if_pos hterminator]
    simpa using ⟨h, .terminated current hleads hterminator⟩
  rw [follow, if_neg hterminator]
  rw [Bool.not_eq_true] at hterminator
  have hlooked := s.lookup_unmet met current
  by_cases hvisited : current ∈ met
  · rw [if_pos hvisited] at hlooked
    obtain ⟨known, hfound⟩ := Option.isSome_iff_exists.1 (h.declared current hvisited)
    split
    · simpa [hfound] using ⟨h, .reenters current hleads hvisited⟩
    · next hfound' => rw [hlooked] at hfound'; cases hfound'
  rw [if_neg hvisited] at hlooked
  split
  · next hunknown =>
    rw [hlooked] at hunknown
    simpa [hunknown] using ⟨h, .undeclared current hleads hterminator hunknown⟩
  · next known hfound =>
    rw [hlooked] at hfound
    have hgrown := h.step hleads hterminator (Option.isSome_iff_exists.2 ⟨known, hfound⟩) hvisited
    split
    · next halone =>
      refine ⟨hgrown, by simpa using hfound, .cutOff current (by simp) ?_⟩
      simp [rest?, hfound, halone]
    · next next hbehind =>
      have honward : s.beyond head (met ++ [current]) = some next := by
        simp [rest?, hfound, hbehind]
      -- the entries that are still to be met get fewer
      have hshorter : (s.unmet (met ++ [current])).length < (s.unmet met).length := by
        rw [← dropCell_unmet]
        exact length_dropCell_lt (hlooked.trans hfound)
      obtain ⟨hrun, hright, hclosing⟩ := follow_run owner hgrown honward
      rw [dropCell_unmet]
      rw [List.append_assoc] at hrun hclosing
      exact ⟨hrun, List.forall_mem_cons.2 ⟨hfound, hright⟩, hclosing⟩
termination_by (s.unmet met).length

/-- The element that counts of a cell. -/
theorem elementOf_eq {known : ListCell} (hfound : s.cell? n = some known) :
    elementOf? known = (s.first? n).filter (!·.isNil) := by
  rw [elementOf?, first?, hfound, Option.bind_some]
  cases known.first with
  | none => rfl
  | some value => cases h : value.isNil <;> simp [Option.filter, h]

theorem elementIssue_eq {known : ListCell} (hfound : s.cell? n = some known) :
    elementIssue? owner n known = s.fault? owner n := by
  rw [elementIssue?, fault?, first?, hfound, Option.bind_some]
  cases known.first <;> rfl

/-! ## Well-formed lists -/

namespace IsList

variable {values values' : List Node}

/-- A list has only one sequence of values. -/
theorem unique (h : s.IsList n values) (h' : s.IsList n values') : values = values' := by
  induction h generalizing values' with
  | nil hterminator =>
    cases h' with
    | nil => rfl
    | cons hproper => rw [hterminator] at hproper; cases hproper
  | cons hproper hknown helement htail ih =>
    cases h' with
    | nil hterminator => rw [hterminator] at hproper; cases hproper
    | cons hproper' hknown' helement' htail' =>
      rw [hknown] at hknown'
      cases hknown'
      rw [ih htail']

/-- The values behind the cell at the front of a list. -/
theorem tail {next : Node} (h : s.IsList n values) (hproper : n.isNil = false)
    (hbehind : s.rest? n = some next) : s.IsList next values.tail := by
  cases h with
  | nil hterminator => rw [hterminator] at hproper; cases hproper
  | cons hproper hknown helement htail =>
    rw [rest?, hknown] at hbehind
    cases hbehind
    exact htail

/-- The front cell of a list has a cell behind it, and nothing is wrong with its element. -/
theorem front (h : s.IsList n values) (hproper : n.isNil = false) :
    values ≠ [] ∧ s.rest? n ≠ none ∧ ∀ owner, s.fault? owner n = none := by
  cases h with
  | nil hterminator => rw [hterminator] at hproper; cases hproper
  | cons hproper hknown helement htail => simp [rest?, fault?, first?, hknown, helement]

/-- Along the run of a list, nothing is wrong with the elements, and it leads to the list that is
left. -/
theorem along (h : s.IsList head values) (hrun : s.Run head cells) :
    (∀ c ∈ cells, ∀ owner, s.fault? owner c = none) ∧ cells.length ≤ values.length ∧
      ∃ next, s.beyond head cells = some next ∧ s.IsList next (values.drop cells.length) := by
  induction hrun with
  | start => exact ⟨by simp, by simp, head, rfl, h⟩
  | @step cells next hrun hleads hproper hdeclared hfresh ih =>
    obtain ⟨hsound, hshort, next', hleads', hleft⟩ := ih
    rw [hleads] at hleads'
    cases hleads'
    obtain ⟨hsome_left, hbehind, hright⟩ := hleft.front hproper
    obtain ⟨after, hbehind⟩ := Option.ne_none_iff_exists'.1 hbehind
    refine ⟨by simpa [or_imp, forall_and] using ⟨hsound, hright⟩, ?_, after, by simpa, ?_⟩
    · rw [List.length_append, List.length_singleton]
      by_contra hlong
      exact hsome_left (List.drop_eq_nil_of_le (by omega))
    · simpa using hleft.tail hproper hbehind

/-- The run of a list ends with the terminator. -/
theorem closing_none {final : Option Issue} (h : s.IsList head values) (hrun : s.Run head cells)
    (hclosing : s.Closing owner head cells final) : final = none := by
  obtain ⟨-, hshort, next, hleads, hleft⟩ := h.along hrun
  cases hclosing with
  | terminated => rfl
  | reenters next' hleads' hvisited =>
    -- the values from the first visit on would be the same as those from the second one on
    cases hleads.symm.trans hleads'
    obtain ⟨before, after, rfl⟩ := List.append_of_mem hvisited
    obtain ⟨hrun', hfirst⟩ := hrun.upTo rfl
    obtain ⟨-, -, again, hleads', hleft'⟩ := h.along hrun'
    cases hfirst.symm.trans hleads'
    have hsame := congrArg List.length (hleft.unique hleft')
    simp only [List.length_drop, List.length_append, List.length_cons] at hsame hshort
    omega
  | undeclared next' hleads' hproper hunknown =>
    cases hleads.symm.trans hleads'
    exact absurd (by simp [rest?, hunknown]) (hleft.front hproper).2.1
  | cutOff last hends halone => simp [beyond, hends, halone] at hleads

end IsList

/-- What a run without faults leads to is a list, from each of its cells on. -/
theorem Run.isList {before after : List Node} (h : s.Run head cells)
    (hsplit : cells = before ++ after) (hsound : ∀ c ∈ cells, s.fault? owner c = none)
    (hclosing : s.Closing owner head cells none) :
    ∃ n values, s.beyond head before = some n ∧ s.IsList n values := by
  -- by induction from the end of the run: what is behind a sound cell is a list
  induction after generalizing before with
  | nil =>
    rw [List.append_nil] at hsplit
    subst hsplit
    cases hclosing with
    | terminated next hleads hterminator => exact ⟨next, [], hleads, .nil hterminator⟩
  | cons c after ih =>
    have hfound := (h.upTo hsplit).2
    have hmem : c ∈ cells := by simp [hsplit]
    obtain ⟨next, values, hleads, htail⟩ := @ih (before ++ [c]) (by simp [hsplit])
    obtain ⟨⟨first, rest⟩, hknown⟩ := Option.isSome_iff_exists.1 (h.declared c hmem)
    rw [beyond_concat, rest?, hknown] at hleads
    cases hleads
    have hright := hsound c hmem
    rw [fault?, first?, hknown] at hright
    cases first with
    | none => cases hright
    | some value =>
      refine ⟨c, value :: values, hfound, .cons (h.proper c hmem) hknown ?_ htail⟩
      by_contra hterminator
      simp [hterminator] at hright

/-- A list is read exactly along the longest run of cells from its head on. The elements are the
values of these cells other than the terminator, each at its first place. What is recorded is what
is wrong with the element of each cell, and then why the run goes no further, unless it ends with
the terminator. So nothing is recorded just if the head is that of a well-formed list. -/
theorem resolve_exact (s : CellStore) (owner head : Node) :
    ∃ cells final, s.Run head cells ∧ (∀ other, s.Run head other → other <+: cells) ∧
      cells.length ≤ s.size ∧ s.Closing owner head cells final ∧
      (s.resolve owner head).elements =
        ((cells.filterMap s.first?).filter (!·.isNil)).eraseDups ∧
      (s.resolve owner head).issues = cells.filterMap (s.fault? owner) ++ final.toList ∧
      ((s.resolve owner head).issues = [] ↔ ∃ values, s.IsList head values) := by
  -- nothing was met before, so that all entries are still there
  have hall : s.unmet [] = s.entries := by simp [unmet]
  obtain ⟨hrun, hknown, hclosing⟩ := follow_run owner (.start : s.Run head []) beyond_nil
  rw [hall, List.nil_append] at hrun hclosing
  rw [hall] at hknown
  have helements : (s.resolve owner head).elements =
      ((((s.chain head).cells.map (·.1)).filterMap s.first?).filter (!·.isNil)).eraseDups := by
    rw [List.filterMap_map, List.filter_filterMap]
    exact congrArg List.eraseDups
      (List.filterMap_congr fun cell hcell => elementOf_eq (hknown cell hcell))
  have hissues : (s.resolve owner head).issues =
      ((s.chain head).cells.map (·.1)).filterMap (s.fault? owner) ++
        ((s.chain head).ending.issue? owner).toList := by
    rw [List.filterMap_map]
    exact congrArg (· ++ _)
      (List.filterMap_congr fun cell hcell => elementIssue_eq (hknown cell hcell))
  refine ⟨_, _, hrun, fun other => hrun.prefix_of_closing hclosing, hrun.length_le, hclosing,
    helements, hissues, ?_⟩
  -- without a fault in a cell or at the end, the run goes through a list
  rw [hissues, List.append_eq_nil_iff, List.filterMap_eq_nil_iff, Option.toList_eq_nil_iff]
  constructor
  · rintro ⟨hsound, hterminated⟩
    obtain ⟨n, values, hleads, hlist⟩ :=
      hrun.isList (List.nil_append _).symm hsound (hterminated ▸ hclosing)
    cases hleads
    exact ⟨values, hlist⟩
  · rintro ⟨values, hlist⟩
    exact ⟨fun c hc => (hlist.along hrun).1 c hc owner, hlist.closing_none hrun hclosing⟩

end CellStore

end Thesaurus
