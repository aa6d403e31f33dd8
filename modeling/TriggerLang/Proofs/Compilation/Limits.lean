import TriggerLang.Proofs.Compilation.Assembly
import TriggerLang.Proofs.Lowering.Limits
/-!
# Compilation under other limits

Settings only refuse compilations, so that relaxing them never changes a trigger
(`compile_of_isRelaxedBy`).

The limit on alternates is asked at three places: of the alternates of the finished trigger, of the
choices that are made while disjunctions are multiplied out, and of the branches that are counted
together.  A value *stays within* a limit when the last two hold.  A condition compiles under a
limit exactly when it compiles without a limit to a trigger with no more alternates, and its value
stays within the limit (`compile_withAlternateLimit_iff`).  Without empty connectives the choices
never matter (`FitsWithin.of_length_le`), but the branches that are counted together do: they are
not alternates of the trigger.
-/

namespace TriggerLang

/-! ### Values that stay within a limit -/

namespace Expr

/-- The disjunctions of an evaluated condition that are multiplied out. -/
def disjunctions : Expr → List Expr
  | .join _ .all es => es.filter isOr
  | _ => []

/-- A group of an evaluated condition counts the hits of some branches together. -/
inductive CountsIn (functions : String → Option Function) : Expr → List Expr → Prop
  | core {v : Expr} {branches : List Expr} (h : Counts functions v branches) :
      CountsIn functions v branches
  | alternate {s : Span} {es : List Expr} {e : Expr} {branches : List Expr} (he : e ∈ es)
      (h : Counts functions e branches) : CountsIn functions (.join s .any es) branches
  | selected {v : Expr} {c : List Expr} {e : Expr} {branches : List Expr}
      (hc : c ∈ selections (v.disjunctions.map operands)) (he : e ∈ c)
      (h : Counts functions e branches) : CountsIn functions v branches

/-- The groups of an evaluated condition hold no more groups than a limit while they are built. -/
structure StaysWithin (functions : String → Option Function) (limit : Nat) (v : Expr) : Prop where
  counted (branches : List Expr) : CountsIn functions v branches → branches.length ≤ limit
  choices : FitsWithin limit 0 v.disjunctions

variable {functions : String → Option Function} {scope scope' : Scope}

/-- What stays within a limit stays within a higher one. -/
theorem StaysWithin.mono {limit limit' : Nat} {v : Expr} (h : StaysWithin functions limit v)
    (hle : limit ≤ limit') : StaysWithin functions limit' v :=
  ⟨fun branches hbranches => Nat.le_trans (h.counted branches hbranches) hle, h.choices.mono hle⟩

/-- What counts branches is not a disjunction itself. -/
theorem Counts.mem_filter {es : List Expr} {e : Expr} (he : e ∈ es) {branches : List Expr}
    (h : Counts functions e branches) : e ∈ es.filter (!·.isOr) := by
  refine List.mem_filter.2 ⟨he, ?_⟩
  cases h <;> rfl

/-- A conjunction counts what its operands count. -/
theorem counts_conjunction_iff {es branches : List Expr} :
    Counts functions (conjunction es) branches ↔ ∃ e ∈ es, Counts functions e branches := by
  unfold conjunction
  split
  · simp
  · constructor
    · rintro (⟨he, h⟩ | _)
      exact ⟨_, he, h⟩
    · rintro ⟨e, he, h⟩
      exact .operand he h

/-- Nothing is multiplied out in a condition that has a group. -/
theorem disjunctions_eq_nil_of_group {v : Expr} {g : Group} (h : group scope v = .ok g) :
    v.disjunctions = [] := by
  unfold disjunctions
  split
  · have hany := Trigger.any_isOr_eq_false_of_group h
    exact List.filter_eq_nil_iff.2 (List.any_eq_false.1 hany)
  · rfl

/-- The conjunctions of selections that have groups count no more branches than the limit. -/
theorem Counts.length_le_of_selected {ors : List Expr} {groups : List Group}
    (hgroups : List.Forall₂ (fun e g => group scope e = .ok g)
      ((selections (ors.map operands)).map conjunction) groups) {c : List Expr}
    (hc : c ∈ selections (ors.map operands)) {e : Expr} (he : e ∈ c) {branches : List Expr}
    (h : Counts scope.function? e branches) :
    branches.length ≤ scope.settings.alternateLimit := by
  obtain ⟨g, hg⟩ := exists_of_forall₂ hgroups _ (List.mem_map_of_mem hc)
  exact countsAtMost_of_group hg branches (counts_conjunction_iff.2 ⟨e, he, h⟩)

end Expr

open TriggerLang.Expr

variable {scope scope' : Scope}

namespace Trigger

/-- A value from which a trigger is put together stays within the limit. -/
theorem Assembly.staysWithin {v : Expr} {t : Trigger} (h : Assembly scope v t) :
    v.StaysWithin scope.function? scope.settings.alternateLimit := by
  -- Whatever the value counts is counted by one of the groups that were built.
  cases h with
  | @core v g hcore =>
    have hnone := disjunctions_eq_nil_of_group hcore
    refine ⟨fun branches hbranches => ?_, by rw [hnone]; exact fitsWithin_nil⟩
    cases hbranches with
    | core h => exact countsAtMost_of_group hcore branches h
    | alternate he h =>
      exact Bool.noConfusion (isOr_eq_false_of_run_lower (Building.build_eq_ok_iff.1 hcore))
    | selected hc he h =>
      rw [hnone] at hc
      cases List.mem_singleton.1 hc
      cases he
  | alternates hgroups =>
    refine ⟨fun branches hbranches => ?_, fitsWithin_nil⟩
    cases hbranches with
    | core h => cases h
    | alternate he h =>
      obtain ⟨g, hg⟩ := exists_of_forall₂ hgroups _ he
      exact countsAtMost_of_group hg branches h
    | selected hc he h =>
      cases List.mem_singleton.1 hc
      cases he
  | distributed hors hrest hconditions hgroups =>
    obtain ⟨-, hfits, rfl⟩ := distribute_eq_ok_iff.1 hconditions
    refine ⟨fun branches hbranches => ?_, hfits⟩
    cases hbranches with
    | core h =>
      obtain ⟨he, h⟩ | _ := h
      exact absurd (hrest ▸ h.mem_filter he) List.not_mem_nil
    | selected hc he h => exact h.length_le_of_selected hgroups hc he
  | distributedBeside hors hrest hcore hconditions hgroups =>
    obtain ⟨-, hfits, rfl⟩ := distribute_eq_ok_iff.1 hconditions
    refine ⟨fun branches hbranches => ?_, hfits⟩
    cases hbranches with
    | core h =>
      obtain ⟨he, h⟩ | _ := h
      exact countsAtMost_of_group hcore branches
        (counts_conjunction_iff.2 ⟨_, h.mem_filter he, h⟩)
    | selected hc he h => exact h.length_le_of_selected hgroups hc he

/-- The same trigger is put together in every deeper scope that allows to multiply out whatever was
multiplied out, if the value stays within its limit. -/
theorem Assembly.of_isDeepenedBy (hscope : scope.IsDeepenedBy scope')
    (hexpand : scope.settings.expandNestedOr = true → scope'.settings.expandNestedOr = true)
    {v : Expr} {t : Trigger}
    (hwithin : v.StaysWithin scope.function? scope'.settings.alternateLimit)
    (h : Assembly scope v t) : Assembly scope' v t := by
  -- A group is built again as soon as all that it counts is counted by the value.
  have hgroup {e : Expr} {g : Group} (hcounts : ∀ branches, Counts scope.function? e branches →
      CountsIn scope.function? v branches) (hg : group scope e = .ok g) : group scope' e = .ok g :=
    group_of_isDeepenedBy hscope
      (fun branches h => hwithin.counted branches (hcounts branches h)) hg
  have hdistributed {conditions : List Expr} {groups : List Group}
      (hconditions : distribute scope.settings 0 v.disjunctions = .ok conditions)
      (hgroups : List.Forall₂ (fun e g => group scope e = .ok g) conditions groups) :
      distribute scope'.settings 0 v.disjunctions = .ok conditions ∧
        List.Forall₂ (fun e g => group scope' e = .ok g) conditions groups := by
    obtain ⟨hseveral, -, rfl⟩ := distribute_eq_ok_iff.1 hconditions
    refine ⟨distribute_eq_ok_iff.2 ⟨fun h => hexpand (hseveral h), hwithin.choices, rfl⟩,
      forall₂_imp_of_mem hgroups fun e he g hg => hgroup (fun branches h => ?_) hg⟩
    obtain ⟨c, hc, rfl⟩ := List.mem_map.1 he
    obtain ⟨e, he, h⟩ := counts_conjunction_iff.1 h
    exact .selected hc he h
  cases h with
  | core hcore => exact .core (hgroup (fun _ h => .core h) hcore)
  | alternates hgroups =>
    exact .alternates (forall₂_imp_of_mem hgroups fun e he g hg =>
      hgroup (fun _ h => .alternate he h) hg)
  | distributed hors hrest hconditions hgroups =>
    obtain ⟨hconditions, hgroups⟩ := hdistributed hconditions hgroups
    exact .distributed hors hrest hconditions hgroups
  | distributedBeside hors hrest hcore hconditions hgroups =>
    obtain ⟨hconditions, hgroups⟩ := hdistributed hconditions hgroups
    refine .distributedBeside hors hrest (hgroup (fun branches h => ?_) hcore) hconditions hgroups
    obtain ⟨e, he, h⟩ := counts_conjunction_iff.1 h
    exact .core (.operand (List.mem_filter.1 he).1 h)

end Trigger

/-! ### Compilation in another scope -/

/-- A condition that compiles has a value that stays within the limit of its scope. -/
theorem exists_staysWithin_of_compile {e : Expr} {t : Trigger} (h : compile scope e = .ok t) :
    ∃ v, evaluate scope.clause e = .ok v ∧
      v.StaysWithin scope.function? scope.settings.alternateLimit := by
  obtain ⟨v, hv, hassembly, -⟩ := compile_eq_ok_iff_assembly.1 h
  exact ⟨v, hv, hassembly.staysWithin⟩

/-- A condition compiles to the same trigger in every deeper scope that allows to multiply out
whatever was multiplied out, if value and trigger stay within its limit. -/
theorem compile_of_staysWithin (hscope : scope.IsDeepenedBy scope')
    (hexpand : scope.settings.expandNestedOr = true → scope'.settings.expandNestedOr = true)
    {e v : Expr} (hv : evaluate scope.clause e = .ok v)
    (hwithin : v.StaysWithin scope.function? scope'.settings.alternateLimit) {t : Trigger}
    (hlength : t.alternates.length ≤ scope'.settings.alternateLimit)
    (h : compile scope e = .ok t) : compile scope' e = .ok t := by
  obtain ⟨w, hw, hassembly, -⟩ := compile_eq_ok_iff_assembly.1 h
  cases hv.symm.trans hw
  exact compile_eq_ok_iff_assembly.2 ⟨v, evaluate_of_isDeepenedBy hscope.clause hv,
    hassembly.of_isDeepenedBy hscope.clause hexpand hwithin, hlength⟩

/-! ### Relaxed settings -/

/-- Settings that allow whatever others allow. -/
structure Settings.IsRelaxedBy (settings settings' : Settings) : Prop where
  alternateLimit : settings.alternateLimit ≤ settings'.alternateLimit
  expandNestedOr : settings.expandNestedOr = true → settings'.expandNestedOr = true
  callDepthLimit : settings.callDepthLimit ≤ settings'.callDepthLimit

/-- A scope is relaxed by another one with the same names at the same depth of calls, such as a root
by another root, if its settings are. -/
structure Scope.IsRelaxedBy (scope scope' : Scope) : Prop extends scope.SameNames scope' where
  depth : scope'.depth = scope.depth
  settings : scope.settings.IsRelaxedBy scope'.settings

/-- A scope with relaxed settings has room for whatever the first one has room for. -/
theorem Scope.IsRelaxedBy.isDeepenedBy (h : scope.IsRelaxedBy scope') :
    scope.IsDeepenedBy scope' := by
  refine ⟨h.toSameNames, ?_⟩
  have hlimit := h.settings.callDepthLimit
  have hdepth := h.depth
  unfold remainingCalls
  omega

/-- A condition that compiles under some settings compiles to the same trigger under relaxed
settings. -/
theorem compile_of_isRelaxedBy (hscope : scope.IsRelaxedBy scope') {e : Expr} {t : Trigger}
    (h : compile scope e = .ok t) : compile scope' e = .ok t := by
  obtain ⟨v, hv, hwithin⟩ := exists_staysWithin_of_compile h
  obtain ⟨-, -, -, hlength⟩ := compile_eq_ok_iff_assembly.1 h
  have hle := hscope.settings.alternateLimit
  exact compile_of_staysWithin hscope.isDeepenedBy hscope.settings.expandNestedOr hv
    (hwithin.mono hle) (Nat.le_trans hlength hle) h

/-- `is(1, x) && repeated(3, is(2, 2) || is(3, 3)) && (is(4, 4) || once(is(5, 5)))` at two roots in
which `x` is 9 and `is(a, n)` returns `byte(a) == n`.  The first allows two alternates, one call and
one disjunction, which is just enough. -/
theorem compile_of_isRelaxedBy_two_roots :
    let var (name : String) : Expr := .var .unknown name
    let is : Function := .script "is" ["a", "n"] (.returned .unknown
      (.compare .unknown .equal (.call .unknown "byte" [var "a"]) (var "n")))
    let root (settings : Settings) : Scope :=
      ((Scope.root settings).setFunction is).setVariable "x" (.int 9)
    let tight : Settings := { alternateLimit := 2, expandNestedOr := false, callDepthLimit := 1 }
    let relaxed : Settings := { alternateLimit := 5, expandNestedOr := true, callDepthLimit := 3 }
    let call (a n : Expr) : Expr := .call .unknown "is" [a, n]
    let any (es : List Expr) : Expr := .join .unknown .any es
    let e : Expr := .join .unknown .all [call (.int 1) (var "x"),
      .call .unknown "repeated"
        [.int 3, any [call (.int 2) (.int 2), call (.int 3) (.int 3)]],
      any [call (.int 4) (.int 4), .call .unknown "once" [call (.int 5) (.int 5)]]]
    let row (a n : UInt32) : Row := .compare (.read .byte a) .equal (.word n)
    let t : Trigger := ⟨[(row 1 9).withRole .andNext, (row 2 2).withRole .addHits,
      (row 3 3).withHits 3], [[row 4 4], [(row 5 5).withHits 1]]⟩
    (root tight).IsRelaxedBy (root relaxed) ∧ compile (root tight) e = .ok t ∧
      compile (root relaxed) e = .ok t := by
  intro var is root tight relaxed call any e row t
  have hsettings : tight.IsRelaxedBy relaxed := ⟨by decide, fun _ => rfl, by decide⟩
  have hrelaxed : (root tight).IsRelaxedBy (root relaxed) :=
    ⟨⟨fun _ => rfl, rfl⟩, rfl, hsettings⟩
  have hcompile : compile (root tight) e = .ok t := rfl
  exact ⟨hrelaxed, hcompile, compile_of_isRelaxedBy hrelaxed hcompile⟩

/-! ### Limits on alternates -/

/-- The scope under another limit on alternates. -/
def Scope.withAlternateLimit (scope : Scope) (limit : Nat) : Scope :=
  { scope with settings := { scope.settings with alternateLimit := limit } }

/-- A condition compiles to a trigger when nothing limits the number of alternates. -/
def CompilesUnlimited (scope : Scope) (e : Expr) (t : Trigger) : Prop :=
  ∃ bound, ∀ limit, bound ≤ limit → compile (scope.withAlternateLimit limit) e = .ok t

/-- Another limit on alternates changes neither names nor the room for calls. -/
theorem Scope.isDeepenedBy_withAlternateLimit (scope : Scope) (limit : Nat) :
    scope.IsDeepenedBy (scope.withAlternateLimit limit) :=
  ⟨⟨fun _ => rfl, rfl⟩, Nat.le_refl _⟩

/-- What compiles under some limit compiles without one. -/
theorem compilesUnlimited_of_compile {limit : Nat} {e : Expr} {t : Trigger}
    (h : compile (scope.withAlternateLimit limit) e = .ok t) : CompilesUnlimited scope e t := by
  obtain ⟨v, hv, hwithin⟩ := exists_staysWithin_of_compile h
  obtain ⟨-, -, -, hlength⟩ := compile_eq_ok_iff_assembly.1 h
  exact ⟨limit, fun limit' hle =>
    compile_of_staysWithin ((scope.withAlternateLimit limit).isDeepenedBy_withAlternateLimit limit')
      id hv (hwithin.mono hle) (Nat.le_trans hlength hle) h⟩

/-- A condition compiles under a limit on alternates exactly when it compiles without a limit, the
trigger has no more alternates, and the groups that are held while they are built are no more. -/
theorem compile_withAlternateLimit_iff {limit : Nat} {e : Expr} {t : Trigger} :
    compile (scope.withAlternateLimit limit) e = .ok t ↔
      CompilesUnlimited scope e t ∧ t.alternates.length ≤ limit ∧
        ∃ v, evaluate scope.clause e = .ok v ∧ v.StaysWithin scope.function? limit := by
  constructor
  · intro h
    obtain ⟨v, hv, hwithin⟩ := exists_staysWithin_of_compile h
    obtain ⟨-, -, -, hlength⟩ := compile_eq_ok_iff_assembly.1 h
    exact ⟨compilesUnlimited_of_compile h, hlength, v, evaluate_of_isDeepenedBy
      ((scope.withAlternateLimit limit).isDeepenedBy_withAlternateLimit _).clause hv, hwithin⟩
  · rintro ⟨⟨bound, hcompile⟩, hlength, v, hv, hwithin⟩
    have hunlimited := (scope.isDeepenedBy_withAlternateLimit bound).clause
    exact compile_of_staysWithin
      ((scope.withAlternateLimit bound).isDeepenedBy_withAlternateLimit limit) id
      (evaluate_of_isDeepenedBy hunlimited hv) hwithin hlength (hcompile bound (Nat.le_refl _))

/-- `repeated(3, byte(1) == 1 || byte(2) == 2)` compiles to a trigger without alternates, but not
where one alternate is allowed. -/
theorem compile_repeated_any_exceeds :
    let is (n : Int32) : Expr :=
      .compare .unknown .equal (.call .unknown "byte" [.int n]) (.int n)
    let e : Expr := .call .unknown "repeated" [.int 3, .join .unknown .any [is 1, is 2]]
    let row (n : UInt32) : Row := .compare (.read .byte n) .equal (.word n)
    let t : Trigger := ⟨[(row 1).withRole .addHits, (row 2).withHits 3], []⟩
    CompilesUnlimited (Scope.root {}) e t ∧ t.alternates.length ≤ 1 ∧
      compile ((Scope.root {}).withAlternateLimit 1) e ≠ .ok t ∧
      ∃ d, compile ((Scope.root {}).withAlternateLimit 1) e = .error d ∧
        d.cause = .tooManyAlternates 2 1 := by
  intro is e row t
  have hcompile : compile ((Scope.root {}).withAlternateLimit 2) e = .ok t := rfl
  have hfail : ∃ d, compile ((Scope.root {}).withAlternateLimit 1) e = .error d ∧
      d.cause = .tooManyAlternates 2 1 := ⟨_, rfl, rfl⟩
  refine ⟨compilesUnlimited_of_compile hcompile, Nat.zero_le 1, fun h => ?_, hfail⟩
  obtain ⟨d, hd, -⟩ := hfail
  cases hd.symm.trans h

end TriggerLang
