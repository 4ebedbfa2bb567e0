import Mathlib.Data.Set.Card
import Mathlib.Order.Bounds.Basic
import Thesaurus.Proofs.Hierarchy.Components

/-!
# Depth of the hierarchy

The depth is the largest number of strongly connected components on one path of narrower concepts.

- `ResourceGraph.IsPath`, `ResourceGraph.componentsOn`: paths, and how many components they pass.
- `Hierarchy.Descends`: whether an id leads to another without return.
- `ResourceGraph.Levels`: what it is that the level of a concept counts.
- `ResourceGraph.Levels.componentsOn_le`, `ResourceGraph.Levels.exists_path`: the level is the
  largest number of components on a path from the concept.
- `Hierarchy.Measured`, `Hierarchy.measured_levelsFrom`: levels are right when ids are measured
  from the bottom up.
- `Hierarchy.depthAmong`, `ResourceGraph.isGreatest_depthAmong`: so are the depths that are found in
  one pass over strongly connected components, listed from the bottom up.
- `ResourceGraph.isGreatest_maxDepth`: the depth is the largest number of components on a path.
- `depth_longest`: the depth in the statistics.
-/

namespace Thesaurus

open Relation (ReflTransGen TransGen)

/-! ## Maxima -/

section Maxima

variable {l : List Nat} {start n bound : Nat}

theorem foldl_max_le : l.foldl max start ≤ bound ↔ start ≤ bound ∧ ∀ n ∈ l, n ≤ bound := by
  induction l generalizing start with
  | nil => simp
  | cons n rest ih => rw [List.foldl_cons, ih, Nat.max_le, List.forall_mem_cons, and_assoc]

theorem le_foldl_max (start : Nat) (hn : n ∈ l) : n ≤ l.foldl max start :=
  (foldl_max_le.1 (Nat.le_refl _)).2 n hn

theorem foldl_max_eq_or_mem (start : Nat) (l : List Nat) :
    l.foldl max start = start ∨ l.foldl max start ∈ l := by
  induction l generalizing start with
  | nil => exact .inl rfl
  | cons n rest ih =>
    rw [List.foldl_cons, List.mem_cons]
    rcases ih (max start n) with hsame | hlater
    · rw [hsame]
      rcases Nat.le_total n start with hle | hle
      · exact .inl (Nat.max_eq_left hle)
      · exact .inr (.inl (Nat.max_eq_right hle))
    · exact .inr (.inr hlater)

end Maxima

namespace Hierarchy

/-! ## Levels from the bottom up -/

variable {R : ResourceId → ResourceId → Prop} {under : ResourceId → IdSet}
  {known : List (ResourceId × Nat)} {order ids : List ResourceId} {a b id : ResourceId} {n : Nat}

/-- Whether an id leads to another without return. -/
def Descends (R : ResourceId → ResourceId → Prop) (a b : ResourceId) : Prop :=
  TransGen R a b ∧ ¬ TransGen R b a

theorem Descends.irrefl : ¬ Descends R a a :=
  fun h => h.2 h.1

theorem mem_lower (hunder : ∀ a b, b ∈ under a ↔ TransGen R a b) :
    (b, n) ∈ (known.filter fun (other, _) => other ∈ under id && !(id ∈ under other : Bool)) ↔
      (b, n) ∈ known ∧ Descends R id b := by
  simp [Descends, hunder]

/-- A level is no higher than it takes to be above all known lower ones. -/
theorem levelOf_cases (hunder : ∀ a b, b ∈ under a ↔ TransGen R a b) :
    levelOf under known id = 1 ∨
      ∃ b m, (b, m) ∈ known ∧ Descends R id b ∧ levelOf under known id = m + 1 := by
  unfold levelOf
  rcases foldl_max_eq_or_mem 0 _ with hbottom | hhighest
  · exact .inl (congrArg (· + 1) hbottom)
  · obtain ⟨⟨b, m⟩, hm, hsame⟩ := List.mem_map.1 hhighest
    obtain ⟨hm, hdescends⟩ := (mem_lower hunder).1 hm
    exact .inr ⟨b, m, hm, hdescends, congrArg (· + 1) hsame.symm⟩

/-- What is known of the levels of some ids, with all that they lead to without return. A level is
above the levels of all of these, and no higher than that takes. -/
structure Measured (R : ResourceId → ResourceId → Prop) (known : List (ResourceId × Nat)) :
    Prop where
  once : (known.map (·.1)).Nodup
  closed : ∀ a ∈ known.map (·.1), ∀ b, Descends R a b → b ∈ known.map (·.1)
  above : ∀ a n b m, (a, n) ∈ known → (b, m) ∈ known → Descends R a b → m < n
  attained : ∀ a n, (a, n) ∈ known → n = 1 ∨ ∃ b m, (b, m) ∈ known ∧ Descends R a b ∧ n = m + 1

/-- One more id is measured once all are that it leads to without return. -/
theorem Measured.measure (hunder : ∀ a b, b ∈ under a ↔ TransGen R a b) (hk : Measured R known)
    (hnew : id ∉ known.map (·.1)) (hready : ∀ b, Descends R id b → b ∈ known.map (·.1)) :
    Measured R ((id, levelOf under known id) :: known) := by
  refine { once := ?_, closed := ?_, above := ?_, attained := ?_ }
  · exact List.nodup_cons.2 ⟨hnew, hk.once⟩
  · intro a ha b hdescends
    rcases List.mem_cons.1 ha with rfl | ha
    · exact List.mem_cons_of_mem _ (hready b hdescends)
    · exact List.mem_cons_of_mem _ (hk.closed a ha b hdescends)
  · intro a n b m hn hm hdescends
    rcases List.mem_cons.1 hn with hfirst | hn
    · cases hfirst
      rcases List.mem_cons.1 hm with hsecond | hm
      · cases hsecond
        exact absurd hdescends Descends.irrefl
      · have hlower := (mem_lower hunder).2 ⟨hm, hdescends⟩
        exact Nat.lt_succ_of_le (le_foldl_max 0 (List.mem_map_of_mem (f := (·.2)) hlower))
    · rcases List.mem_cons.1 hm with hsecond | hm
      · -- what is measured leads to measured ids only, and the new one is none of them
        cases hsecond
        exact absurd (hk.closed a (List.mem_map_of_mem (f := (·.1)) hn) _ hdescends) hnew
      · exact hk.above a n b m hn hm hdescends
  · intro a n hn
    rcases List.mem_cons.1 hn with hfirst | hn
    · cases hfirst
      rcases levelOf_cases hunder with hbottom | ⟨b, m, hm, hdescends, hsame⟩
      · exact .inl hbottom
      · exact .inr ⟨b, m, List.mem_cons_of_mem _ hm, hdescends, hsame⟩
    · rcases hk.attained a n hn with hbottom | ⟨b, m, hm, hdescends, hsame⟩
      · exact .inl hbottom
      · exact .inr ⟨b, m, List.mem_cons_of_mem _ hm, hdescends, hsame⟩

/-- All ids of a list are measured, where each comes after all that it leads to without return. -/
theorem measured_levelsFrom (hunder : ∀ a b, b ∈ under a ↔ TransGen R a b) (hk : Measured R known)
    (hnodup : order.Nodup) (hnew : ∀ a ∈ order, a ∉ known.map (·.1))
    (hbottomUp : order.Pairwise fun a b => ¬ Descends R a b)
    (hclosed : ∀ a ∈ order, ∀ b, Descends R a b → b ∈ known.map (·.1) ∨ b ∈ order) :
    Measured R (levelsFrom under known order) := by
  -- by induction on the order: what the first id leads to comes before it, and so is measured
  induction order generalizing known with
  | nil => exact hk
  | cons id rest ih =>
    obtain ⟨hnotLater, hnodup'⟩ := List.nodup_cons.1 hnodup
    obtain ⟨hfirst, hbottomUp'⟩ := List.pairwise_cons.1 hbottomUp
    have hready : ∀ b, Descends R id b → b ∈ known.map (·.1) := by
      intro b hdescends
      rcases hclosed id List.mem_cons_self b hdescends with hdone | hlater
      · exact hdone
      · rcases List.mem_cons.1 hlater with rfl | hlater
        · exact absurd hdescends Descends.irrefl
        · exact absurd hdescends (hfirst b hlater)
    refine ih (hk.measure hunder (hnew id List.mem_cons_self) hready) hnodup' (fun a ha hmem => ?_)
      hbottomUp' fun a ha b hdescends => ?_
    · rcases List.mem_cons.1 hmem with rfl | hmem
      · exact hnotLater ha
      · exact hnew a (List.mem_cons_of_mem _ ha) hmem
    · rcases hclosed a (List.mem_cons_of_mem _ ha) b hdescends with hdone | hlater
      · exact .inl (List.mem_cons_of_mem _ hdone)
      · rcases List.mem_cons.1 hlater with rfl | hlater
        · exact .inl List.mem_cons_self
        · exact .inr hlater

theorem keys_levelsFrom (under : ResourceId → IdSet) (known : List (ResourceId × Nat))
    (order : List ResourceId) :
    (levelsFrom under known order).map (·.1) = order.reverse ++ known.map (·.1) := by
  induction order generalizing known with
  | nil => rfl
  | cons id rest ih => rw [levelsFrom, ih, List.reverse_cons, List.append_assoc]; rfl

/-- An id leads to more ids, itself included, than any to which it leads without return. -/
theorem size_lt_of_descends (hunder : ∀ a b, b ∈ under a ↔ TransGen R a b)
    (h : Descends R a b) : ((under b).insert b).size < ((under a).insert a).size := by
  have hapart : a ∉ (under b).insert b := by
    intro hmem
    rcases IdSet.mem_insert.1 hmem with rfl | hmem
    · exact Descends.irrefl h
    · exact h.2 ((hunder b a).1 hmem)
  have hinside : a :: ((under b).insert b).toList ⊆ ((under a).insert a).toList := by
    intro c hc
    rcases List.mem_cons.1 hc with rfl | hc
    · exact IdSet.mem_insert.2 (.inl rfl)
    · refine IdSet.mem_insert.2 (.inr ((hunder a c).2 ?_))
      rcases IdSet.mem_insert.1 hc with rfl | hc
      · exact h.1
      · exact h.1.trans ((hunder b c).1 hc)
  have hdistinct : (a :: ((under b).insert b).toList).Nodup :=
    List.nodup_cons.2 ⟨hapart, IdSet.nodup _⟩
  exact (hdistinct.subperm hinside).length_le

/-- The levels of all ids are measured. -/
theorem measured_levels (hunder : ∀ a b, b ∈ under a ↔ TransGen R a b) (hnodup : ids.Nodup)
    (hids : ∀ a b, TransGen R a b → b ∈ ids) : Measured R (levels under ids) := by
  have hperm : (bottomUp under ids).Perm ids := sortOn_perm ..
  refine measured_levelsFrom hunder ?_ (hperm.nodup_iff.2 hnodup) (fun _ _ => List.not_mem_nil) ?_
    fun a _ b hdescends => .inr (hperm.mem_iff.2 (hids a b hdescends.1))
  · exact { once := List.nodup_nil, closed := nofun, above := nofun, attained := nofun }
  · refine (sortOn_pairwise _).imp fun {a b} hle hdescends => ?_
    have hlarger := size_lt_of_descends hunder hdescends
    have hsmaller := compare_le_iff_le.1 (Ordering.isLE_iff_ne_gt.1 hle)
    omega

/-- The level that is known of an id, or zero. -/
def levelIn (known : List (ResourceId × Nat)) (id : ResourceId) : Nat :=
  (known.lookup id).getD 0

theorem levelIn_eq (hnodup : (known.map (·.1)).Nodup) (h : (a, n) ∈ known) :
    levelIn known a = n := by
  induction known with
  | nil => cases h
  | cons entry rest ih =>
    obtain ⟨b, m⟩ := entry
    obtain ⟨hnotLater, hnodup'⟩ := List.nodup_cons.1 hnodup
    rcases List.mem_cons.1 h with hfirst | h
    · cases hfirst
      simp [levelIn]
    · have hother : (a == b) = false := by
        refine beq_eq_false_iff_ne.2 fun hsame => hnotLater ?_
        exact hsame ▸ List.mem_map_of_mem (f := (·.1)) h
      have hskipped : levelIn ((b, m) :: rest) a = levelIn rest a := by
        simp [levelIn, List.lookup_cons, hother]
      rw [hskipped]
      exact ih hnodup' h

/-! ## One pass over components -/

/-- The depth of the component that an id lies in, or zero if it is not measured. -/
def depthIn (known : List (List ResourceId × Nat)) (id : ResourceId) : Nat :=
  (known.find? fun (scc, _) => id ∈ scc).elim 0 (·.2)

/-- The depth above the depths of all other components that members of a component lead to. -/
def depthAbove (next : ResourceId → List ResourceId) (known : List (List ResourceId × Nat))
    (scc : List ResourceId) : Nat :=
  let others := (scc.flatMap next).filter (· ∉ scc)
  (others.map (depthIn known)).foldl max 0 + 1

/-- The depths of components, each measured with those that are listed before it. -/
def depthsFrom (next : ResourceId → List ResourceId) (known : List (List ResourceId × Nat)) :
    List (List ResourceId) → List (List ResourceId × Nat)
  | [] => known
  | scc :: later => depthsFrom next ((scc, depthAbove next known scc) :: known) later

/-- The highest depth of a component, found in one pass over all of them. -/
def depthAmong (next : ResourceId → List ResourceId) (sccs : List (List ResourceId)) : Nat :=
  ((depthsFrom next [] sccs).map (·.2)).foldl max 0

theorem keys_depthsFrom (next : ResourceId → List ResourceId)
    (known : List (List ResourceId × Nat)) (sccs : List (List ResourceId)) :
    (depthsFrom next known sccs).map (·.1) = sccs.reverse ++ known.map (·.1) := by
  induction sccs generalizing known with
  | nil => rfl
  | cons scc later ih => rw [depthsFrom, ih, List.reverse_cons, List.append_assoc]; rfl

end Hierarchy

namespace ResourceGraph

open Hierarchy (Descends Measured depthAbove depthAmong depthIn depthsFrom levelIn)

variable {g : ResourceGraph} {a b : ResourceId} {path rest longer scc : List ResourceId}
  {sccs : List (List ResourceId)} {known : List (List ResourceId × Nat)}
  {level : ResourceId → Nat} {depth : Nat}

/-! ## Paths -/

/-- Whether a list of concepts is a path, on which each concept is followed by a narrower one. -/
def IsPath (g : ResourceGraph) (path : List ResourceId) : Prop :=
  path.IsChain g.Narrower ∧ ∀ a ∈ path, a < g.size

/-- The strongly connected component of a concept. -/
def classOf (g : ResourceGraph) (a : ResourceId) : Set ResourceId :=
  {b | g.Together a b}

/-- The number of strongly connected components that a path passes. -/
noncomputable def componentsOn (g : ResourceGraph) (path : List ResourceId) : Nat :=
  (g.classOf '' {a | a ∈ path}).ncard

theorem classOf_eq_iff : g.classOf a = g.classOf b ↔ g.Together a b := by
  constructor
  · intro hsame
    have hmem : b ∈ g.classOf b := ⟨.refl, .refl⟩
    rwa [← hsame] at hmem
  · intro htogether
    ext c
    exact ⟨htogether.symm.trans, htogether.trans⟩

theorem image_cons (g : ResourceGraph) (a : ResourceId) (rest : List ResourceId) :
    g.classOf '' {c | c ∈ a :: rest} = insert (g.classOf a) (g.classOf '' {c | c ∈ rest}) := by
  rw [← Set.image_insert_eq]
  congr 1
  ext c
  exact List.mem_cons

theorem finite_classes (g : ResourceGraph) (path : List ResourceId) :
    (g.classOf '' {a | a ∈ path}).Finite :=
  path.finite_toSet.image _

theorem componentsOn_nil (g : ResourceGraph) : g.componentsOn [] = 0 := by
  simp [componentsOn]

/-- A concept adds no component if a concept of its component follows. -/
theorem componentsOn_cons_of_together (hb : b ∈ rest) (hab : g.Together a b) :
    g.componentsOn (a :: rest) = g.componentsOn rest := by
  have hmem : g.classOf a ∈ g.classOf '' {c | c ∈ rest} := ⟨b, hb, (classOf_eq_iff.2 hab).symm⟩
  rw [componentsOn, image_cons, Set.insert_eq_of_mem hmem, componentsOn]

/-- Otherwise it adds one. -/
theorem componentsOn_cons_of_apart (h : ∀ b ∈ rest, ¬ g.Together a b) :
    g.componentsOn (a :: rest) = g.componentsOn rest + 1 := by
  have hnotMem : g.classOf a ∉ g.classOf '' {c | c ∈ rest} := by
    rintro ⟨b, hb, hsame⟩
    exact h b hb (classOf_eq_iff.1 hsame.symm)
  rw [componentsOn, image_cons, Set.ncard_insert_of_notMem hnotMem (g.finite_classes rest),
    componentsOn]

theorem componentsOn_mono (h : path ⊆ longer) : g.componentsOn path ≤ g.componentsOn longer :=
  Set.ncard_le_ncard (Set.image_mono h) (g.finite_classes longer)

/-- Whatever is on a path can be reached from its start. -/
theorem reach_of_path (hchain : (a :: rest).IsChain g.Narrower) (hb : b ∈ a :: rest) :
    ReflTransGen g.Narrower a b :=
  hchain.induction (ReflTransGen g.Narrower a) _ (fun _ _ hstep hreached => hreached.tail hstep)
    (fun _ => .refl) b hb

theorem isPath_of_chain (h : Sound g) (ha : a < g.size)
    (hchain : (a :: rest).IsChain g.Narrower) : g.IsPath (a :: rest) :=
  ⟨hchain, hchain.induction (· < g.size) _ (fun _ _ hstep _ => (hstep.lt h).2) fun _ => ha⟩

/-! ## Levels -/

/-- What the level of a concept counts: it is above the levels of all that can be reached without
return, and no higher than that takes. -/
structure Levels (g : ResourceGraph) (level : ResourceId → Nat) : Prop where
  above : ∀ a b, Descends g.Narrower a b → level b < level a
  attained : ∀ a, a < g.size → level a = 1 ∨ ∃ b, Descends g.Narrower a b ∧ level a = level b + 1

namespace Levels

theorem pos (hl : g.Levels level) (ha : a < g.size) : 0 < level a := by
  rcases hl.attained a ha with hbottom | ⟨b, _, hsame⟩ <;> omega

/-- Concepts of one component have one level. -/
theorem le_of_together (h : Sound g) (hl : g.Levels level) (hab : g.Together a b) :
    level a ≤ level b := by
  obtain ⟨hdown, hup⟩ := hab
  rcases Relation.reflTransGen_iff_eq_or_transGen.1 hdown with rfl | hfirst
  · exact Nat.le_refl _
  · obtain ⟨ha, hb⟩ := narrower_transGen_lt h hfirst
    rcases hl.attained a ha with hbottom | ⟨c, hdescends, hsame⟩
    · have := hl.pos hb
      omega
    · have hfurther : Descends g.Narrower b c :=
        ⟨.trans_right hup hdescends.1, fun hback => hdescends.2 (hback.trans_left hup)⟩
      have := hl.above b c hfurther
      omega

/-- Levels do not rise on the way to narrower concepts. -/
theorem le_of_reach (h : Sound g) (hl : g.Levels level) (hab : ReflTransGen g.Narrower a b) :
    level b ≤ level a := by
  rcases Relation.reflTransGen_iff_eq_or_transGen.1 hab with rfl | hdown
  · exact Nat.le_refl _
  · by_cases hback : TransGen g.Narrower b a
    · exact hl.le_of_together h ⟨hback.to_reflTransGen, hab⟩
    · exact Nat.le_of_lt (hl.above a b ⟨hdown, hback⟩)

/-- A path passes no more components than the level of its start. -/
theorem componentsOn_le (h : Sound g) (hl : g.Levels level) (ha : a < g.size)
    (hchain : (a :: rest).IsChain g.Narrower) : g.componentsOn (a :: rest) ≤ level a := by
  induction rest generalizing a with
  | nil =>
    rw [componentsOn_cons_of_apart fun _ hb => absurd hb List.not_mem_nil, componentsOn_nil]
    exact hl.pos ha
  | cons b rest ih =>
    obtain ⟨hstep, hlater⟩ := List.isChain_cons_cons.1 hchain
    have hbelow := ih (hstep.lt h).2 hlater
    by_cases hback : ReflTransGen g.Narrower b a
    · rw [componentsOn_cons_of_together List.mem_cons_self ⟨.single hstep, hback⟩]
      exact hbelow.trans (hl.le_of_reach h (.single hstep))
    · -- nothing leads back from what comes after `b`
      have hapart : ∀ c ∈ b :: rest, ¬ g.Together a c := fun c hc htogether =>
        hback ((reach_of_path hlater hc).trans htogether.2)
      rw [componentsOn_cons_of_apart hapart]
      have hlower := hl.above a b ⟨.single hstep, fun hup => hback hup.to_reflTransGen⟩
      omega

/-- Some path from a concept passes as many components as its level. -/
theorem exists_path (h : Sound g) (hl : g.Levels level) (ha : a < g.size) :
    ∃ rest, g.IsPath (a :: rest) ∧ level a ≤ g.componentsOn (a :: rest) := by
  -- by induction on the level, which falls from one component to the next
  induction hlevel : level a using Nat.strong_induction_on generalizing a with
  | _ n ih =>
    rcases hl.attained a ha with hbottom | ⟨b, hdescends, hsame⟩
    · refine ⟨[], isPath_of_chain h ha (.singleton a), ?_⟩
      rw [componentsOn_cons_of_apart fun _ hb => absurd hb List.not_mem_nil]
      omega
    · obtain ⟨rest, ⟨hlater, _⟩, hpasses⟩ :=
        ih (level b) (by omega) (narrower_transGen_lt h hdescends.1).2 rfl
      obtain ⟨c, hreached, hstep⟩ := TransGen.tail'_iff.1 hdescends.1
      obtain ⟨way, hfirst, hlast⟩ := List.exists_isChain_cons_of_relationReflTransGen hreached
      have hchain : (a :: (way ++ b :: rest)).IsChain g.Narrower := by
        refine hfirst.append hlater fun x hx y hy => ?_
        rw [List.getLast?_eq_some_getLast (List.cons_ne_nil a way), hlast] at hx
        cases hx
        cases hy
        exact hstep
      have hapart : ∀ c ∈ b :: rest, ¬ g.Together a c := by
        intro c hc htogether
        have hback : ReflTransGen g.Narrower b a := (reach_of_path hlater hc).trans htogether.2
        exact hdescends.2 (.trans_right hback (hdescends.1.trans_left hback))
      have hshorter : a :: b :: rest ⊆ a :: (way ++ b :: rest) :=
        List.cons_subset_cons a (List.subset_append_right way _)
      have hmore := g.componentsOn_mono hshorter
      rw [componentsOn_cons_of_apart hapart] at hmore
      exact ⟨way ++ b :: rest, isPath_of_chain h ha hchain, by omega⟩

/-- The highest level is the largest number of components on a path. -/
theorem isGreatest (h : Sound g) (hl : g.Levels level) (hle : ∀ a, a < g.size → level a ≤ depth)
    (hattained : depth = 0 ∨ ∃ a, a < g.size ∧ level a = depth) :
    IsGreatest {n | ∃ path, g.IsPath path ∧ g.componentsOn path = n} depth := by
  constructor
  · rcases hattained with rfl | ⟨a, ha, rfl⟩
    · exact ⟨[], ⟨.nil, nofun⟩, g.componentsOn_nil⟩
    · obtain ⟨rest, hpath, hpasses⟩ := hl.exists_path h ha
      exact ⟨a :: rest, hpath, Nat.le_antisymm (hl.componentsOn_le h ha hpath.1) hpasses⟩
  · rintro n ⟨path, ⟨hchain, hheld⟩, rfl⟩
    cases path with
    | nil => rw [componentsOn_nil]; exact Nat.zero_le _
    | cons a rest =>
      have ha := hheld a List.mem_cons_self
      exact (hl.componentsOn_le h ha hchain).trans (hle a ha)

end Levels

/-- Without cycles every concept on a path is a component of its own. -/
theorem componentsOn_eq_length (hacyclic : ∀ a, ¬ TransGen g.Narrower a a)
    (hchain : path.IsChain g.Narrower) : g.componentsOn path = path.length := by
  induction path with
  | nil => exact g.componentsOn_nil
  | cons a rest ih =>
    have hapart : ∀ b ∈ rest, ¬ g.Together a b := by
      intro b hb htogether
      have hdown : TransGen g.Narrower a b := (hchain.imp fun _ _ => .single).rel_cons hb
      exact hacyclic a (hdown.trans_left htogether.2)
    rw [componentsOn_cons_of_apart hapart, ih hchain.tail, List.length_cons]

/-! ## The depth of a graph -/

/-- The levels that the depth of a graph is taken from. -/
def levelTable (g : ResourceGraph) : List (ResourceId × Nat) :=
  Hierarchy.levels (tableAt g.narrowerTable) g.ids

theorem mem_levelTable (g : ResourceGraph) : a ∈ g.levelTable.map (·.1) ↔ a < g.size := by
  rw [levelTable, Hierarchy.levels, Hierarchy.keys_levelsFrom, List.map_nil, List.append_nil,
    List.mem_reverse]
  exact (sortOn_perm ..).mem_iff.trans List.mem_range

theorem measured_levelTable (h : Sound g) : Measured g.Narrower g.levelTable :=
  Hierarchy.measured_levels (fun _ _ => mem_narrowerTable h) List.nodup_range fun _ _ hab =>
    List.mem_range.2 (narrower_transGen_lt h hab).2

/-- Every concept has an entry with its level. -/
theorem mem_levelTable_level (h : Sound g) (ha : a < g.size) :
    (a, levelIn g.levelTable a) ∈ g.levelTable := by
  obtain ⟨⟨_, n⟩, hn, rfl⟩ := List.mem_map.1 (g.mem_levelTable.2 ha)
  rwa [Hierarchy.levelIn_eq (measured_levelTable h).once hn]

/-- What is measured are levels. -/
theorem levels_levelTable (h : Sound g) : g.Levels (levelIn g.levelTable) where
  above a b hdescends := by
    obtain ⟨ha, hb⟩ := narrower_transGen_lt h hdescends.1
    exact (measured_levelTable h).above a _ b _ (mem_levelTable_level h ha)
      (mem_levelTable_level h hb) hdescends
  attained a ha := by
    have hmeasured := measured_levelTable h
    rcases hmeasured.attained a _ (mem_levelTable_level h ha) with
      hbottom | ⟨b, m, hm, hdescends, hsame⟩
    · exact .inl hbottom
    · rw [← Hierarchy.levelIn_eq hmeasured.once hm] at hsame
      exact .inr ⟨b, hdescends, hsame⟩

theorem level_le_maxDepth (h : Sound g) (ha : a < g.size) : levelIn g.levelTable a ≤ g.maxDepth :=
  le_foldl_max 0 (List.mem_map_of_mem (f := (·.2)) (mem_levelTable_level h ha))

/-- The depth is the largest number of components on a path. -/
theorem isGreatest_maxDepth (h : Sound g) :
    IsGreatest {n | ∃ path, g.IsPath path ∧ g.componentsOn path = n} g.maxDepth := by
  refine (levels_levelTable h).isGreatest h (fun a ha => level_le_maxDepth h ha) ?_
  refine (foldl_max_eq_or_mem 0 _).imp id fun hhighest => ?_
  obtain ⟨⟨a, n⟩, hn, hsame⟩ := List.mem_map.1 hhighest
  have ha : a < g.size := g.mem_levelTable.1 (List.mem_map_of_mem (f := (·.1)) hn)
  exact ⟨a, ha, (Hierarchy.levelIn_eq (measured_levelTable h).once hn).trans hsame⟩

/-- Only a graph without resources has no depth. -/
theorem maxDepth_eq_zero_iff (h : Sound g) : g.maxDepth = 0 ↔ g.size = 0 := by
  constructor
  · intro hflat
    by_contra hsome
    have ha : 0 < g.size := Nat.pos_of_ne_zero hsome
    have hhigh := level_le_maxDepth h ha
    have hpositive := (levels_levelTable h).pos ha
    omega
  · intro hempty
    obtain ⟨path, ⟨_, hheld⟩, hpasses⟩ := (isGreatest_maxDepth h).1
    cases path with
    | nil => exact hpasses.symm.trans g.componentsOn_nil
    | cons a rest =>
      have ha := hheld a List.mem_cons_self
      rw [hempty] at ha
      exact absurd ha (Nat.not_lt_zero a)

/-! ## Depths in one pass -/

/-- Whether every component is listed after all components that can be reached from it. -/
def BottomUp (g : ResourceGraph) (sccs : List (List ResourceId)) : Prop :=
  sccs.Pairwise fun earlier later => ∀ a ∈ earlier, ∀ b ∈ later, ¬ ReflTransGen g.Narrower a b

/-- Whether the depths of measured components are the levels of their members. -/
def Agrees (level : ResourceId → Nat) (known : List (List ResourceId × Nat)) : Prop :=
  ∀ scc n, (scc, n) ∈ known → ∀ a ∈ scc, n = level a

theorem depthIn_eq (hagrees : Agrees level known) (ha : ∃ scc n, (scc, n) ∈ known ∧ a ∈ scc) :
    depthIn known a = level a := by
  unfold depthIn
  cases hfound : known.find? fun (scc, _) => a ∈ scc with
  | none =>
    obtain ⟨scc, n, hn, ha⟩ := ha
    have hmissed := List.find?_eq_none.1 hfound (scc, n) hn
    simp [ha] at hmissed
  | some entry =>
    have hinside : a ∈ entry.1 := by simpa using List.find?_some hfound
    exact hagrees entry.1 entry.2 (List.mem_of_find?_eq_some hfound) a hinside

/-- What descends from a component leaves it at some step. -/
theorem exists_step_out (hab : ReflTransGen g.Narrower a b) (hapart : ¬ g.Together a b) :
    ∃ x y, g.Together a x ∧ g.Narrower x y ∧ ¬ g.Together a y ∧ ReflTransGen g.Narrower y b := by
  induction hab with
  | refl => exact absurd ⟨.refl, .refl⟩ hapart
  | @tail c d hreached hstep ih =>
    by_cases htogether : g.Together a c
    · exact ⟨c, d, htogether, hstep, hapart, .refl⟩
    · obtain ⟨x, y, hx, hout, hy, hdown⟩ := ih htogether
      exact ⟨x, y, hx, hout, hy, hdown.tail hstep⟩

/-- A component is measured once all others are that its members lead to. -/
theorem depthAbove_eq (h : Sound g) (hl : g.Levels level) (hagrees : Agrees level known)
    (hclass : ∀ a ∈ scc, ∀ b, b ∈ scc ↔ g.Together a b)
    (hready : ∀ a ∈ scc, ∀ b, g.Narrower a b → b ∉ scc → ∃ scc n, (scc, n) ∈ known ∧ b ∈ scc)
    (ha : a ∈ scc) (hsize : a < g.size) : depthAbove g.narrowerOf known scc = level a := by
  -- what is measured are the steps that leave the component
  have hmem_others : ∀ n, n ∈ ((scc.flatMap g.narrowerOf).filter (· ∉ scc)).map (depthIn known) ↔
      ∃ x ∈ scc, ∃ y, g.Narrower x y ∧ y ∉ scc ∧ n = level y := by
    intro n
    simp only [List.mem_map, List.mem_filter, List.mem_flatMap, decide_eq_true_iff]
    constructor
    · rintro ⟨y, ⟨⟨x, hx, hstep⟩, hy⟩, rfl⟩
      exact ⟨x, hx, y, hstep, hy, depthIn_eq hagrees (hready x hx y hstep hy)⟩
    · rintro ⟨x, hx, y, hstep, hy, rfl⟩
      exact ⟨y, ⟨⟨x, hx, hstep⟩, hy⟩, depthIn_eq hagrees (hready x hx y hstep hy)⟩
  have hlower : depthAbove g.narrowerOf known scc ≤ level a := by
    rcases foldl_max_eq_or_mem 0 (((scc.flatMap g.narrowerOf).filter (· ∉ scc)).map
      (depthIn known)) with hbottom | hhighest
    · rw [depthAbove, hbottom]
      exact hl.pos hsize
    · obtain ⟨x, hx, y, hstep, hy, hsame⟩ := (hmem_others _).1 hhighest
      have hdescends : Descends g.Narrower x y :=
        ⟨.single hstep, fun hback => hy ((hclass x hx y).2 ⟨.single hstep, hback.to_reflTransGen⟩)⟩
      have hbelow := hl.above x y hdescends
      have hlevel_x := hl.le_of_together h ((hclass x hx a).1 ha)
      rw [depthAbove, hsame]
      omega
  -- the level of the component is attained further down, if at all
  refine Nat.le_antisymm hlower ?_
  rcases hl.attained a hsize with hbottom | ⟨b, hdescends, hsame⟩
  · rw [hbottom]
    exact Nat.le_add_left 1 _
  · -- the way down to `b` leaves the component to one that is measured
    have hapart : ¬ g.Together a b := fun htogether =>
      hdescends.2 (.trans_right htogether.2 (hdescends.1.trans_left htogether.2))
    obtain ⟨x, y, hx, hout, hy, hdown⟩ := exists_step_out hdescends.1.to_reflTransGen hapart
    have hfound := (hmem_others (level y)).2
      ⟨x, (hclass a ha x).2 hx, y, hout, fun hmem => hy ((hclass a ha y).1 hmem), rfl⟩
    have hbelow := hl.le_of_reach h hdown
    have habove : level y ≤ _ := le_foldl_max 0 hfound
    rw [hsame, depthAbove]
    omega

/-- All components are measured, where each comes after all that can be reached from it. -/
theorem agrees_depthsFrom (h : Sound g) (hl : g.Levels level) (hagrees : Agrees level known)
    (hclass : ∀ scc ∈ sccs, ∀ a ∈ scc, ∀ b, b ∈ scc ↔ g.Together a b)
    (hheld : ∀ scc ∈ sccs, ∀ a ∈ scc, a < g.size) (hbottomUp : g.BottomUp sccs)
    (hcovered : ∀ a, a < g.size → (∃ scc n, (scc, n) ∈ known ∧ a ∈ scc) ∨ ∃ scc ∈ sccs, a ∈ scc) :
    Agrees level (depthsFrom g.narrowerOf known sccs) := by
  -- by induction on the pass; what a component leads to is measured, since it is not listed later
  induction sccs generalizing known with
  | nil => exact hagrees
  | cons scc later ih =>
    obtain ⟨hfirst, hbottomUp'⟩ := List.pairwise_cons.1 hbottomUp
    have hclass' := hclass scc List.mem_cons_self
    have hready : ∀ a ∈ scc, ∀ b, g.Narrower a b → b ∉ scc →
        ∃ scc n, (scc, n) ∈ known ∧ b ∈ scc := by
      intro a ha b hstep houtside
      rcases hcovered b (hstep.lt h).2 with hmeasured | ⟨other, hother, hb⟩
      · exact hmeasured
      · rcases List.mem_cons.1 hother with rfl | hother
        · exact absurd hb houtside
        · exact absurd (.single hstep) (hfirst other hother a ha b hb)
    refine ih (fun other n hn a ha => ?_) (fun other hother => hclass other (.tail _ hother))
      (fun other hother => hheld other (.tail _ hother)) hbottomUp' fun a ha => ?_
    · rcases List.mem_cons.1 hn with this | hn
      · cases this
        exact depthAbove_eq h hl hagrees hclass' hready ha (hheld _ List.mem_cons_self a ha)
      · exact hagrees other n hn a ha
    · rcases hcovered a ha with ⟨other, n, hn, hmem⟩ | ⟨other, hother, hmem⟩
      · exact .inl ⟨other, n, .tail _ hn, hmem⟩
      · rcases List.mem_cons.1 hother with rfl | hother
        · exact .inl ⟨other, _, List.mem_cons_self, hmem⟩
        · exact .inr ⟨other, hother, hmem⟩

/-- One pass over the components finds the largest number of components on a path. -/
theorem isGreatest_depthAmong (h : Sound g) (hlisted : g.ListsComponents sccs)
    (hbottomUp : g.BottomUp sccs) :
    IsGreatest {n | ∃ path, g.IsPath path ∧ g.componentsOn path = n}
      (depthAmong g.narrowerOf sccs) := by
  have hlevels := levels_levelTable h
  have hagrees : Agrees (levelIn g.levelTable) (depthsFrom g.narrowerOf [] sccs) :=
    agrees_depthsFrom h hlevels nofun hlisted.together (fun _ hscc _ ha => hlisted.lt_size hscc ha)
      hbottomUp fun a ha => .inr (hlisted.exists_mem ha)
  have hmem_keys : ∀ scc, scc ∈ (depthsFrom g.narrowerOf [] sccs).map (·.1) ↔ scc ∈ sccs := by
    intro scc
    rw [Hierarchy.keys_depthsFrom, List.map_nil, List.append_nil, List.mem_reverse]
  refine hlevels.isGreatest h (fun a ha => ?_) ?_
  · obtain ⟨scc, hscc, hmem⟩ := hlisted.exists_mem ha
    obtain ⟨⟨_, n⟩, hn, rfl⟩ := List.mem_map.1 ((hmem_keys scc).2 hscc)
    rw [← hagrees _ n hn a hmem]
    exact le_foldl_max 0 (List.mem_map_of_mem (f := (·.2)) hn)
  · refine (foldl_max_eq_or_mem 0 _).imp id fun hhighest => ?_
    obtain ⟨⟨scc, n⟩, hn, hsame⟩ := List.mem_map.1 hhighest
    have hscc := (hmem_keys scc).1 (List.mem_map_of_mem (f := (·.1)) hn)
    obtain ⟨a, ha⟩ := List.exists_mem_of_ne_nil scc (hlisted.inhabited scc hscc)
    exact ⟨a, hlisted.lt_size hscc ha, (hagrees scc n hn a ha).symm.trans hsame⟩

end ResourceGraph

open ResourceGraph

theorem ringHierarchy_bottomUp : ringHierarchy.BottomUp [[3], [0, 1, 2]] := by
  refine List.pairwise_pair.2 fun a ha b hb hdown => ?_
  cases List.mem_singleton.1 ha
  cases ringHierarchy_below hdown
  simp at hb

/-- The depth in the statistics of a reachable graph is the largest number of strongly connected
components on a path of narrower concepts, and so, without cycles, the number of concepts on a
longest path. It is zero only for a graph without resources. One pass over the strongly connected
components finds it, if each is listed after all that can be reached from it; in another order the
pass may find less. -/
theorem depth_longest :
    (∀ g, Reachable g → ∃ s, g.checkedStats = .ok s ∧
      IsGreatest {n | ∃ path, g.IsPath path ∧ g.componentsOn path = n} s.maxDepth ∧
      (g.isAcyclic = true →
        IsGreatest {n | ∃ path, g.IsPath path ∧ path.length = n} s.maxDepth) ∧
      (s.maxDepth = 0 ↔ g.size = 0) ∧
      ∀ sccs, g.ListsComponents sccs → g.BottomUp sccs →
        Hierarchy.depthAmong g.narrowerOf sccs = s.maxDepth) ∧
    ∃ g sccs unordered, Reachable g ∧ g.ListsComponents sccs ∧ g.BottomUp sccs ∧
      unordered.Perm sccs ∧ Hierarchy.depthAmong g.narrowerOf unordered < g.maxDepth := by
  constructor
  · intro g hreach
    have hsound := hreach.sound
    have hgreatest := isGreatest_maxDepth hsound
    refine ⟨g.stats, g.checkedStats_eq, hgreatest, fun hacyclic => ?_, maxDepth_eq_zero_iff hsound,
      fun sccs hlisted hbottomUp => (isGreatest_depthAmong hsound hlisted hbottomUp).unique
        hgreatest⟩
    -- without cycles every concept is a component of its own
    have hsame : {n | ∃ path, g.IsPath path ∧ g.componentsOn path = n} =
        {n | ∃ path, g.IsPath path ∧ path.length = n} := by
      ext n
      refine exists_congr fun path => and_congr_right fun hheld => ?_
      rw [componentsOn_eq_length ((isAcyclic_iff hsound).1 hacyclic) hheld.1]
    rwa [hsame] at hgreatest
  · -- the ring is measured first, before the concept below it
    have hfound : ringHierarchy.maxDepth =
        Hierarchy.depthAmong ringHierarchy.narrowerOf [[3], [0, 1, 2]] :=
      (isGreatest_maxDepth ringHierarchy_reachable.sound).unique
        (isGreatest_depthAmong ringHierarchy_reachable.sound ringHierarchy_listed
          ringHierarchy_bottomUp)
    refine ⟨ringHierarchy, [[3], [0, 1, 2]], [[0, 1, 2], [3]], ringHierarchy_reachable,
      ringHierarchy_listed, ringHierarchy_bottomUp, List.Perm.swap _ _ _, ?_⟩
    rw [hfound]
    decide +kernel

end Thesaurus
