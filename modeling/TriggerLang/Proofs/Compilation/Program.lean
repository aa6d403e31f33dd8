import TriggerLang.Proofs.Builtins
import TriggerLang.Proofs.Compilation.Assembly
import TriggerLang.Proofs.Lowering.Program
/-!
# Compiled triggers are programs

Whatever an expression is, the trigger that it compiles to is a program that the runtime reads row
by row without a misreading: it has a row, and its core and its alternates are programs.

The statement is about expressions that read memory through functions only.  A raw read of memory
could bring any rows as its path, and so the reads in the values of variables have to come from
evaluation too (`IsValueUnder`).
-/

namespace TriggerLang

/-- The trigger has a row, and its core, if it has a row, and its alternates are programs. -/
structure Trigger.IsWellFormed (t : Trigger) : Prop where
  isEmpty_eq_false : t.isEmpty = false
  core : t.core ≠ [] → Group.IsProgram t.core
  alternates : ∀ g ∈ t.alternates, Group.IsProgram g

namespace Expr

/-! ### Expressions that read memory through functions -/

/-- No node of the expression reads memory by itself. -/
def IsMemoryFree (e : Expr) : Prop :=
  e.Everywhere fun e => e.isMemory = false

/-- The value of an expression that reads memory through functions only, in a scope with the given
functions whose variables hold such values too. -/
inductive IsValueUnder (functions : String → Option Function) : Expr → Prop
  | evaluate {scope : Scope} {e v : Expr} (hfunctions : scope.function? = functions)
      (hvariables : ∀ name value, scope.lookup? name = some value → IsValueUnder functions value)
      (he : e.IsMemoryFree) (hvalue : evaluate scope e = .ok v) : IsValueUnder functions v

/-- The bodies of script functions read memory through functions only. -/
def BodiesMemoryFree (functions : String → Option Function) : Prop :=
  ∀ name name' parameters body, functions name = some (.script name' parameters body) →
    body.IsMemoryFree

/-- A check of all nodes shows that none of them reads memory by itself. -/
theorem isMemoryFree_of_allNodes {e : Expr} (h : e.allNodes (!·.isMemory) = true) :
    e.IsMemoryFree :=
  (everywhere_of_allNodes e h).imp fun _ hnode => (Bool.not_eq_true' _).mp hnode

/-- Whatever is asked of raw reads holds where there are none. -/
theorem IsMemoryFree.readsSatisfy {e : Expr} (he : e.IsMemoryFree) (P : Expr → Prop) :
    e.ReadsSatisfy P :=
  he.imp fun e hfree hmemory => by
    rw [hfree] at hmemory
    cases hmemory

/-- Evaluation of an expression without raw reads makes sound nodes only, if the variables have
sound values. -/
theorem everywhere_isSound_evaluate {scope : Scope} (hbodies : BodiesMemoryFree scope.function?)
    (hvariables : ∀ name value, scope.lookup? name = some value → value.Everywhere IsSound)
    {e v : Expr} (he : e.IsMemoryFree) (h : evaluate scope e = .ok v) : v.Everywhere IsSound := by
  have hkeeps : scope.Keeps IsSound :=
    ⟨isInvariant_isSound scope.names, fun h => (hbodies _ _ _ _ h).readsSatisfy _,
      fun h => hvariables _ _ h⟩
  exact hkeeps.everywhere_evaluate (he.readsSatisfy _) h

/-- The values of expressions without raw reads are sound, by induction over the scopes that they
come from. -/
theorem IsValueUnder.everywhere_isSound {functions : String → Option Function}
    (hbodies : BodiesMemoryFree functions) {v : Expr} (hv : v.IsValueUnder functions) :
    v.Everywhere IsSound := by
  induction hv with
  | evaluate hfunctions hvariables he hvalue ih =>
    exact everywhere_isSound_evaluate (hfunctions ▸ hbodies) ih he hvalue

/-! ### Conditions that are multiplied out -/

/-- The conjunction of sound conditions is sound. -/
theorem everywhere_isSound_conjunction {es : List Expr} (hne : es ≠ [])
    (hes : ∀ e ∈ es, e.Everywhere IsSound) : (conjunction es).Everywhere IsSound := by
  unfold conjunction
  split
  · exact hes _ List.mem_cons_self
  · exact ⟨hne, hes⟩

/-- The operands of a sound disjunction: there is one, and all are sound. -/
theorem operands_of_isOr {e : Expr} (he : e.Everywhere IsSound) (h : e.isOr = true) :
    e.operands ≠ [] ∧ ∀ e' ∈ e.operands, e'.Everywhere IsSound := by
  unfold isOr at h
  split at h
  · exact ⟨he.node, he.children⟩
  · cases h

/-- Sound disjunctions are multiplied out to sound conditions, at least one. -/
theorem everywhere_isSound_distribute {settings : Settings} {used : Nat} {ors es : List Expr}
    (hne : ors ≠ []) (hors : ∀ e ∈ ors, e.Everywhere IsSound ∧ e.isOr = true)
    (h : distribute settings used ors = .ok es) :
    es ≠ [] ∧ ∀ e ∈ es, e.Everywhere IsSound := by
  have hoperands (e : Expr) (he : e ∈ ors) := operands_of_isOr (hors e he).1 (hors e he).2
  obtain ⟨hnonempty, hconjunctions⟩ :=
    exists_conjunction_of_distribute hne (fun o ho => (hoperands o ho).1) h
  refine ⟨hnonempty, fun e he => ?_⟩
  obtain ⟨c, rfl, hc, hmem⟩ := hconjunctions e he
  refine everywhere_isSound_conjunction hc fun e' he' => ?_
  obtain ⟨o, ho, he'⟩ := hmem e' he'
  exact (hoperands o ho).2 e' he'

end Expr

/-! ### Triggers -/

namespace Trigger

open TriggerLang.Expr

variable {scope : Scope}

/-- A program as core makes a well-formed trigger. -/
theorem isWellFormed_core {g : Group} (hg : Group.IsProgram g) : IsWellFormed ⟨g, []⟩ := by
  refine ⟨?_, fun _ => hg, List.forall_mem_nil _⟩
  rw [Bool.eq_false_iff, Ne, isEmpty_iff, rows]
  simpa using hg.ne_nil

/-- Programs as alternates, at least one, make a well-formed trigger beside a core that is a program
or empty. -/
theorem isWellFormed_alternates {core : Group} {groups : List Group} (hne : groups ≠ [])
    (hcore : core ≠ [] → Group.IsProgram core) (hgroups : ∀ g ∈ groups, Group.IsProgram g) :
    IsWellFormed ⟨core, groups⟩ := by
  refine ⟨?_, hcore, hgroups⟩
  obtain ⟨g, hg⟩ := List.exists_mem_of_ne_nil groups hne
  rw [Bool.eq_false_iff, Ne, isEmpty_iff, rows, List.append_eq_nil_iff, List.flatten_eq_nil_iff]
  exact fun h => (hgroups g hg).ne_nil (h.2 g hg)

/-- The groups of sound conditions are programs, one for each. -/
theorem isProgram_of_groups {es : List Expr} (hne : es ≠ [])
    (hes : ∀ e ∈ es, e.Everywhere IsSound) {groups : List Group}
    (h : List.Forall₂ (fun e g => group scope e = .ok g) es groups) :
    groups ≠ [] ∧ ∀ g ∈ groups, Group.IsProgram g := by
  refine ⟨?_, forall_of_forall₂ h fun e he _ hg => isProgram_of_group (hes e he) hg⟩
  rintro rfl
  cases h
  exact hne rfl

/-- The trigger of a sound value is well formed. -/
theorem Assembly.isWellFormed {e : Expr} (he : e.Everywhere IsSound) {t : Trigger}
    (h : Assembly scope e t) : t.IsWellFormed := by
  have hfilter (s : Span) (es : List Expr) (p : Expr → Bool)
      (he : (Expr.join s .all es).Everywhere IsSound) :
      ∀ e ∈ es.filter p, e.Everywhere IsSound :=
    fun e hmem => he.children e (List.mem_filter.1 hmem).1
  have hors (s : Span) (es conditions : List Expr)
      (he : (Expr.join s .all es).Everywhere IsSound) (hany : es.any isOr = true)
      (hconditions : distribute scope.settings 0 (es.filter isOr) = .ok conditions) :
      conditions ≠ [] ∧ ∀ e ∈ conditions, e.Everywhere IsSound :=
    everywhere_isSound_distribute (filter_isOr_ne_nil hany)
      (fun e hmem => ⟨hfilter s es _ he e hmem, (List.mem_filter.1 hmem).2⟩) hconditions
  cases h with
  | core hcore => exact isWellFormed_core (isProgram_of_group he hcore)
  | alternates hgroups =>
    obtain ⟨hne, hprograms⟩ := isProgram_of_groups he.node he.children hgroups
    exact isWellFormed_alternates hne (fun h => absurd rfl h) hprograms
  | @distributed s es conditions groups hany hrest hconditions hgroups =>
    obtain ⟨hne, hsound⟩ := hors s es conditions he hany hconditions
    obtain ⟨hne, hprograms⟩ := isProgram_of_groups hne hsound hgroups
    exact isWellFormed_alternates hne (fun h => absurd rfl h) hprograms
  | @distributedBeside s es conditions g groups hany hrest hcore hconditions hgroups =>
    obtain ⟨hne, hsound⟩ := hors s es conditions he hany hconditions
    obtain ⟨hne, hprograms⟩ := isProgram_of_groups hne hsound hgroups
    have hg := isProgram_of_group
      (everywhere_isSound_conjunction hrest (hfilter s es _ he)) hcore
    exact isWellFormed_alternates hne (fun _ => hg) hprograms

end Trigger

/-- Every compiled trigger is well formed.  The expression and the bodies of script functions read
memory through functions only, and the variables hold values of such expressions under the same
functions. -/
theorem isWellFormed_compile {scope : Scope} (hbodies : Expr.BodiesMemoryFree scope.function?)
    (hvariables : ∀ name value, scope.lookup? name = some value →
      value.IsValueUnder scope.function?)
    {e : Expr} (he : e.IsMemoryFree) {t : Trigger} (h : compile scope e = .ok t) :
    t.IsWellFormed := by
  obtain ⟨v, hv, hgroups, -⟩ := compile_eq_ok_iff.1 h
  have hbodies' : Expr.BodiesMemoryFree scope.clause.function? := by
    rw [scope.function?_clause]
    exact hbodies
  have hsound : v.Everywhere Expr.IsSound := Expr.everywhere_isSound_evaluate hbodies'
    (fun name value hvalue => (hvariables name value hvalue).everywhere_isSound hbodies) he hv
  exact (Trigger.assembly_of_addGroups hgroups).isWellFormed hsound

/-- `x == 5 && never(byte(2) == 2) && (repeated(3, byte(5) == 5 || once(byte(1) == 1)) || dead())`,
where `x` holds the value of `word(byte(8) + 4) - byte(3)` and `dead()` returns `byte(4) * 2 == 0`.
-/
theorem isWellFormed_compile_guarded_alternates :
    let read (function : String) (address : Expr) : Expr := .call .unknown function [address]
    let is (left : Expr) (n : Int32) : Expr := .compare .unknown .equal left (.int n)
    let dead : Function := .script "dead" []
      (.returned .unknown (is (.arith .unknown .multiply (read "byte" (.int 4)) (.int 2)) 0))
    let bare := (Scope.root {}).setFunction dead
    let source : Expr := .arith .unknown .subtract
      (read "word" (.arith .unknown .add (read "byte" (.int 8)) (.int 4))) (read "byte" (.int 3))
    let value : Expr := .sum .unknown ⟨[.added (.plain ((MemoryRead.direct .byte 8).follow .word
      |>.withOffset 4)), ⟨.plain (.direct .byte 3), true⟩], 0⟩
    let scope := bare.setVariable "x" value
    let e : Expr := .join .unknown .all [is (.var .unknown "x") 5,
      .call .unknown "never" [is (read "byte" (.int 2)) 2], .join .unknown .any
        [.call .unknown "repeated" [.int 3, .join .unknown .any [is (read "byte" (.int 5)) 5,
          .call .unknown "once" [is (read "byte" (.int 1)) 1]]], .call .unknown "dead" []]]
    Expr.evaluate bare source = .ok value ∧ Expr.BodiesMemoryFree scope.function? ∧
      (∀ name v, scope.lookup? name = some v → v.IsValueUnder scope.function?) ∧
      e.IsMemoryFree ∧
      ∃ t, compile scope e = .ok t ∧ t.alternates.length = 2 ∧ t.IsWellFormed := by
  intro read is dead bare source value scope e
  have hvalue : Expr.evaluate bare source = .ok value := rfl
  have hfunctions : bare.function? = scope.function? := rfl
  have hbodies : Expr.BodiesMemoryFree scope.function? := by
    rw [← hfunctions]
    intro name name' parameters body h
    by_cases hname : dead.name = name
    · have hdead : bare.function? dead.name = some dead := rfl
      rw [← hname, hdead, Option.some.injEq] at h
      cases (show Function.script "dead" [] _ = _ from h)
      exact Expr.isMemoryFree_of_allNodes rfl
    · rw [Scope.function?_setFunction_of_ne _ hname] at h
      obtain ⟨b, hb⟩ := Scope.function?_root_eq_some h
      cases hb
  have hbare (name : String) : bare.lookup? name = none := rfl
  have hvariables : ∀ name v, scope.lookup? name = some v → v.IsValueUnder scope.function? := by
    intro name v h
    by_cases hname : name = "x"
    · rw [hname] at h
      rw [← (Option.some.inj h : value = v)]
      have hfree : source.IsMemoryFree := Expr.isMemoryFree_of_allNodes rfl
      have hnone : ∀ name v, bare.lookup? name = some v → v.IsValueUnder scope.function? :=
        fun name v h => nomatch (hbare name).symm.trans h
      exact .evaluate hfunctions hnone hfree hvalue
    · rw [Scope.lookup?_setVariable_of_ne bare hname, hbare] at h
      cases h
  have he : e.IsMemoryFree := Expr.isMemoryFree_of_allNodes rfl
  have hcompile : compile scope e = .ok _ := rfl
  exact ⟨hvalue, hbodies, hvariables, he, _, hcompile, rfl,
    isWellFormed_compile hbodies hvariables he hcompile⟩

end TriggerLang
