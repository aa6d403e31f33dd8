import Mathlib.Data.List.Basic
import TriggerLang.Lowering.Counting
/-!
# Branches that count their hits together

The groups of a repeated disjunction become one chain of hits: every group but the last adds its
hits to the next group, and the last group collects them.  This module says which groups can be
branches (`IsBranch`), in which order they come out (`CollectorLast`), and which rows they become
(`countedRows?_eq_some`).

No branch is lost and no branch is taken apart.  The order is that of the groups, except that the
last group without a hit count of its own moves to the end.
-/

namespace TriggerLang.Group

/-! ### Branches -/

/-- A group that can be a branch: its last row is plain, and the rows before it are plain or joined
to the next one. -/
def IsBranch (g : Group) : Prop :=
  ∃ rows last, g = rows ++ [last] ∧ last.role = .plain ∧
    ∀ row ∈ rows, row.role = .plain ∨ row.role = .andNext

/-- The group as one chain: each row is joined to the next one, and the last row is changed. -/
def chained (f : Row → Row) (g : Group) : Group :=
  g.dropLast.map (·.withRole .andNext) ++ g.getLast?.toList.map f

/-- Chaining joins all rows before the last one and changes the last one alone. -/
theorem chained_concat (f : Row → Row) (rows : List Row) (last : Row) :
    chained f (rows ++ [last]) = rows.map (·.withRole .andNext) ++ [f last] := by
  rw [chained, List.dropLast_concat, List.getLast?_concat, Option.toList_some, List.map_singleton]

/-- The first of several rows is joined to the next one. -/
theorem chained_cons_cons (f : Row → Row) (row next : Row) (rows : List Row) :
    chained f (row :: next :: rows) = row.withRole .andNext :: chained f (next :: rows) := by
  rw [chained, chained, List.dropLast_cons_cons, List.getLast?_cons_cons, List.map_cons,
    List.cons_append]

/-- A group with a row keeps one when it is chained. -/
theorem chained_ne_nil (f : Row → Row) {g : Group} (hg : g ≠ []) : chained f g ≠ [] := by
  rw [← List.dropLast_concat_getLast hg, chained_concat]
  exact List.concat_ne_nil _ _

/-- A change of the last row comes after the chaining. -/
theorem update_chained (f f' : Row → Row) (g : Group) :
    LastElement.update f' (chained f g) = chained (f' ∘ f) g := by
  rcases List.eq_nil_or_concat' g with rfl | ⟨rows, last, rfl⟩
  · rfl
  · rw [chained_concat, chained_concat, LastElement.update_concat]
    rfl

/-- A group counts hits exactly when its last row has a hit target. -/
theorem countsHits_concat (rows : List Row) (last : Row) :
    countsHits (rows ++ [last]) = decide (0 < last.hits) := by
  rw [countsHits, List.getLast?_concat]

/-- Roles play no part in whether a group counts hits. -/
theorem countsHits_chained_withRole (role : Role) (g : Group) :
    countsHits (chained (·.withRole role) g) = countsHits g := by
  rcases List.eq_nil_or_concat' g with rfl | ⟨rows, last, rfl⟩
  · rfl
  · rw [chained_concat, countsHits_concat, countsHits_concat, Row.hits_withRole]

/-- A single row can be a branch exactly when it is plain. -/
theorem isBranch_singleton_iff {row : Row} : IsBranch [row] ↔ row.role = .plain := by
  constructor
  · rintro ⟨_ | ⟨row', rows⟩, last, h, hlast, -⟩
    · cases h
      exact hlast
    · simp at h
  · intro h
    exact ⟨[], row, rfl, h, fun _ hr => absurd hr List.not_mem_nil⟩

/-- A row before others is plain or joined to the next one, and the others can be a branch. -/
theorem isBranch_cons_cons_iff {row next : Row} {rows : List Row} :
    IsBranch (row :: next :: rows) ↔
      (row.role = .plain ∨ row.role = .andNext) ∧ IsBranch (next :: rows) := by
  constructor
  · rintro ⟨_ | ⟨row', rows'⟩, last, h, hlast, hrows⟩
    · cases h
    · rw [List.cons_append, List.cons.injEq] at h
      obtain ⟨rfl, h⟩ := h
      exact ⟨hrows row List.mem_cons_self,
        rows', last, h, hlast, fun r hr => hrows r (List.mem_cons_of_mem _ hr)⟩
  · rintro ⟨hrow, rows', last, h, hlast, hrows⟩
    exact ⟨row :: rows', last, congrArg (row :: ·) h, hlast, List.forall_mem_cons.2 ⟨hrow, hrows⟩⟩

/-- Exactly the groups that can be branches add their hits: they are chained, and the last row
passes its hits on. -/
theorem addingHits?_eq_some_iff {g g' : Group} (hg : g ≠ []) :
    addingHits? g = some g' ↔ IsBranch g ∧ g' = chained (·.withRole .addHits) g := by
  induction g generalizing g' with
  | nil => exact absurd rfl hg
  | cons row rows ih =>
    cases rows with
    | nil =>
      rw [addingHits?, isBranch_singleton_iff, Option.ite_none_right_eq_some, Option.some.injEq]
      exact and_congr_right fun _ => eq_comm
    | cons next rows =>
      rw [addingHits?, isBranch_cons_cons_iff, chained_cons_cons, Option.ite_none_right_eq_some,
        Option.map_eq_some_iff, and_assoc]
      refine and_congr_right fun _ => ?_
      constructor
      · rintro ⟨branch, hbranch, rfl⟩
        obtain ⟨hrest, rfl⟩ := (ih (List.cons_ne_nil _ _)).1 hbranch
        exact ⟨hrest, rfl⟩
      · rintro ⟨hrest, rfl⟩
        exact ⟨_, (ih (List.cons_ne_nil _ _)).2 ⟨hrest, rfl⟩, rfl⟩

/-- Groups add their hits together exactly when each of them can be a branch. -/
theorem mapM_addingHits?_eq_some_iff {groups branches : List Group}
    (hgroups : ∀ g ∈ groups, g ≠ []) :
    groups.mapM addingHits? = some branches ↔
      (∀ g ∈ groups, IsBranch g) ∧ branches = groups.map (chained (·.withRole .addHits)) := by
  induction groups generalizing branches with
  | nil =>
    rw [List.mapM_nil, List.map_nil]
    exact ⟨fun h => ⟨List.forall_mem_nil _, (Option.some.inj h).symm⟩,
      fun h => congrArg some h.2.symm⟩
  | cons g groups ih =>
    obtain ⟨hne, hnes⟩ := List.forall_mem_cons.1 hgroups
    rw [List.mapM_cons, List.forall_mem_cons, List.map_cons]
    constructor
    · intro h
      obtain ⟨g', hg', h⟩ := Option.bind_eq_some_iff.1 h
      obtain ⟨branches', hbranches', h⟩ := Option.bind_eq_some_iff.1 h
      obtain ⟨hbranch, rfl⟩ := (addingHits?_eq_some_iff hne).1 hg'
      obtain ⟨hrest, rfl⟩ := (ih hnes).1 hbranches'
      exact ⟨⟨hbranch, hrest⟩, (Option.some.inj h).symm⟩
    · rintro ⟨⟨hbranch, hrest⟩, rfl⟩
      exact Option.bind_eq_some_iff.2 ⟨_, (addingHits?_eq_some_iff hne).2 ⟨hbranch, rfl⟩,
        Option.bind_eq_some_iff.2 ⟨_, (ih hnes).2 ⟨hrest, rfl⟩, rfl⟩⟩

/-! ### The collector -/

/-- The order in which groups count together: the groups that add their hits, and the one that
collects them.  The collector is the last group without a hit count, or, if every group has one, a
row that never holds. -/
inductive CollectorLast : List Group → List Group → Group → Prop
  | branch {before after : List Group} {collector : Group}
      (hcollector : countsHits collector = false) (hafter : ∀ g ∈ after, countsHits g = true) :
      CollectorLast (before ++ collector :: after) (before ++ after) collector
  | filler {groups : List Group} (hgroups : ∀ g ∈ groups, countsHits g = true) :
      CollectorLast groups groups [Row.alwaysFalse]

namespace CollectorLast

variable {groups addends : List Group} {collector : Group}

/-- The collector has no hit count of its own, so that the common target can be written on it. -/
theorem countsHits_collector (h : CollectorLast groups addends collector) :
    countsHits collector = false := by
  cases h with
  | branch hcollector hafter => exact hcollector
  | filler hgroups => rfl

/-- What holds of all groups and of the row that never holds is true of the addends and the
collector. -/
theorem forall_of_forall (h : CollectorLast groups addends collector) {P : Group → Prop}
    (hgroups : ∀ g ∈ groups, P g) (hfiller : P [Row.alwaysFalse]) :
    P collector ∧ ∀ g ∈ addends, P g := by
  cases h with
  | @branch before after collector hcollector hafter =>
    obtain ⟨hbefore, hrest⟩ := List.forall_mem_append.1 hgroups
    obtain ⟨hcollector, hafter⟩ := List.forall_mem_cons.1 hrest
    exact ⟨hcollector, List.forall_mem_append.2 ⟨hbefore, hafter⟩⟩
  | filler h => exact ⟨hfiller, hgroups⟩

end CollectorLast

/-- The search for a collector puts the branches in the order of `CollectorLast`. -/
theorem withCollector_eq {branches : List Group} (hne : branches ≠ []) :
    ∃ addends collector, CollectorLast branches addends collector ∧
      withCollector branches = addends ++ [collector] := by
  obtain rfl | ⟨before, last, rfl⟩ := List.eq_nil_or_concat' branches
  · exact absurd rfl hne
  · rw [withCollector, List.getLast?_concat]
    dsimp only
    split
    · rename_i hlast
      split
      · rename_i collector others htake
        obtain ⟨before', after, hsplit, rfl, hcollector, hafter⟩ := LastElement.take?_eq_some htake
        rw [Bool.not_eq_true'] at hcollector
        rw [hsplit]
        exact ⟨_, collector, .branch hcollector fun g hg => by simpa using hafter g hg, rfl⟩
      · rename_i htake
        rw [LastElement.take?_eq_none_iff] at htake
        exact ⟨_, _, .filler fun g hg => by simpa using htake g hg, rfl⟩
    · rename_i hlast
      have hbranch : CollectorLast (before ++ [last]) (before ++ []) last :=
        .branch (Bool.eq_false_iff.2 hlast) (List.forall_mem_nil _)
      rw [List.append_nil] at hbranch
      exact ⟨before, last, hbranch, rfl⟩

/-- The collector of branches is the collector of their groups. -/
theorem CollectorLast.of_map_chained {groups addends : List Group} {collector : Group}
    (h : CollectorLast (groups.map (chained (·.withRole .addHits))) addends collector) :
    ∃ addends' collector', CollectorLast groups addends' collector' ∧
      addends = addends'.map (chained (·.withRole .addHits)) ∧
      LastElement.update (·.withRole .plain) collector =
        chained (·.withRole .plain) collector' := by
  have hcounts (g : Group) := countsHits_chained_withRole .addHits g
  generalize hbranches : groups.map (chained (·.withRole .addHits)) = branches at h
  cases h with
  | @branch before after collector hcollector hafter =>
    obtain ⟨before', rest, rfl, rfl, hrest⟩ := List.map_eq_append_iff.1 hbranches
    obtain ⟨collector', after', rfl, rfl, rfl⟩ := List.map_eq_cons_iff.1 hrest
    refine ⟨_, collector', .branch ((hcounts collector').symm.trans hcollector) fun g hg => ?_,
      List.map_append.symm, update_chained _ _ collector'⟩
    exact (hcounts g).symm.trans (hafter _ (List.mem_map_of_mem hg))
  | filler hgroups =>
    refine ⟨groups, _, .filler fun g hg => ?_, hbranches.symm, rfl⟩
    exact (hcounts g).symm.trans (hgroups _ (hbranches ▸ List.mem_map_of_mem hg))

/-! ### Counted rows -/

/-- Groups have counted rows exactly when each of them can be a branch. -/
theorem countedRows?_isSome_iff {groups : List Group} (hgroups : ∀ g ∈ groups, g ≠ []) :
    (∃ rows, countedRows? groups = some rows) ↔ ∀ g ∈ groups, IsBranch g := by
  have hfilter : groups.filter (!·.isEmpty) = groups :=
    List.filter_eq_self.2 fun g hg => by simpa using hgroups g hg
  constructor
  · rintro ⟨rows, h⟩
    rw [countedRows?, hfilter] at h
    obtain ⟨branches, hbranches, -⟩ := Option.map_eq_some_iff.1 h
    exact ((mapM_addingHits?_eq_some_iff hgroups).1 hbranches).1
  · intro h
    have hbranches := (mapM_addingHits?_eq_some_iff hgroups).2 ⟨h, rfl⟩
    rw [countedRows?, hfilter]
    exact ⟨_, Option.map_eq_some_iff.2 ⟨_, hbranches, rfl⟩⟩

/-- The rows that count hits together are those of the groups: first the addends, each ended by a
row that adds its hits, and then the collector, ended by a plain row. -/
theorem countedRows?_eq_some {groups : List Group} (hne : groups ≠ [])
    (hgroups : ∀ g ∈ groups, g ≠ []) {rows : List Row} (h : countedRows? groups = some rows) :
    ∃ addends collector, CollectorLast groups addends collector ∧
      rows = (addends.map (chained (·.withRole .addHits))).flatten ++
        chained (·.withRole .plain) collector := by
  have hfilter : groups.filter (!·.isEmpty) = groups :=
    List.filter_eq_self.2 fun g hg => by simpa using hgroups g hg
  rw [countedRows?, hfilter] at h
  obtain ⟨branches, hbranches, rfl⟩ := Option.map_eq_some_iff.1 h
  obtain ⟨-, rfl⟩ := (mapM_addingHits?_eq_some_iff hgroups).1 hbranches
  obtain ⟨addends, collector, hcollector, hordered⟩ :=
    withCollector_eq (fun hnil => hne (List.map_eq_nil_iff.1 hnil))
  obtain ⟨addends', collector', hgroups', rfl, hplain⟩ := hcollector.of_map_chained
  refine ⟨addends', collector', hgroups', ?_⟩
  rw [collectingHits, hordered, LastElement.update_concat, List.flatten_append,
    List.flatten_singleton, hplain]

end TriggerLang.Group
