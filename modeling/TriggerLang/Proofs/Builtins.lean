import TriggerLang.Scope.Basic
/-!
# Scopes with the built-in functions

A scope *has the built-ins* when every built-in name still means its built-in function: scripts may
define functions of their own, but not under these names.  Root scopes have the built-ins
(`Scope.hasBuiltins_root`), and opening a trigger clause keeps them.
-/

namespace TriggerLang

/-! ### Names -/

namespace Builtin

/-- The built-in function with a name. -/
def ofName? (name : String) : Option Builtin :=
  all.find? fun b => b.name == name

/-- The list of built-in functions is complete. -/
theorem mem_all (b : Builtin) : b ∈ all := by
  cases b with
  | read size =>
    have hsize : size ∈ ReadSize.all := by
      cases size with
      | bit index => exact (by decide : ∀ i : Fin 8, .bit i ∈ ReadSize.all) index
      | _ => decide
    exact List.mem_append_left _ (List.mem_map_of_mem hsize)
  | always value => cases value <;> decide
  | guard g => cases g <;> decide
  | _ => decide

/-- No two built-in functions share a name. -/
theorem nodup_names : (all.map name).Nodup := by
  decide +kernel

/-- A built-in function is found under its own name. -/
@[simp] theorem ofName?_name (b : Builtin) : ofName? b.name = some b := by
  have h : ∀ b ∈ all, ofName? b.name = some b := by decide +kernel
  exact h b b.mem_all

end Builtin

/-! ### Functions of a frame -/

namespace Frame

/-- A function that was set is found under its name. -/
@[simp] theorem function?_setFunction_self (f : Frame) (g : Function) :
    (f.setFunction g).function? g.name = some g := by
  simp [function?, setFunction]

/-- A function that is set in a frame hides none under another name. -/
theorem function?_setFunction_of_ne (f : Frame) {g : Function} {name : String}
    (h : g.name ≠ name) : (f.setFunction g).function? name = f.function? name := by
  have hg : (g.name == name) = false := by simpa using h
  rw [function?, setFunction, List.find?_cons_of_neg (by simp [hg]), List.find?_filter, function?]
  congr 1
  funext g'
  by_cases hname : g'.name = name
  · simp [hname, h.symm]
  · simp [hname]

/-- Functions that are set hide none under a name that none of them has. -/
theorem function?_setFunctions_of_notMem (f : Frame) {functions : List Function} {name : String}
    (h : name ∉ functions.map Function.name) :
    (f.setFunctions functions).function? name = f.function? name := by
  induction functions generalizing f with
  | nil => rfl
  | cons g functions ih =>
    rw [List.map_cons, List.mem_cons, not_or] at h
    show ((f.setFunction g).setFunctions functions).function? name = _
    rw [ih (f.setFunction g) h.2, function?_setFunction_of_ne f (Ne.symm h.1)]

/-- Of functions with different names, each is found under its own. -/
theorem function?_setFunctions (f : Frame) {functions : List Function}
    (hnames : (functions.map Function.name).Nodup) {g : Function} (hg : g ∈ functions) :
    (f.setFunctions functions).function? g.name = some g := by
  induction functions generalizing f with
  | nil => cases hg
  | cons h functions ih =>
    rw [List.map_cons, List.nodup_cons] at hnames
    show ((f.setFunction h).setFunctions functions).function? g.name = _
    rcases List.mem_cons.1 hg with rfl | hg
    · rw [function?_setFunctions_of_notMem _ hnames.1, function?_setFunction_self]
    · exact ih (f.setFunction h) hnames.2 hg

/-- A function of a frame was set, or it was there before. -/
theorem mem_functions_setFunctions {f : Frame} {functions : List Function} {g : Function}
    (h : g ∈ (f.setFunctions functions).functions) : g ∈ functions ∨ g ∈ f.functions := by
  induction functions generalizing f with
  | nil => exact .inr h
  | cons g' functions ih =>
    obtain hlater | hset := ih (f := f.setFunction g') h
    · exact .inl (List.mem_cons_of_mem _ hlater)
    · obtain rfl | hbefore := List.mem_cons.1 hset
      · exact .inl List.mem_cons_self
      · exact .inr (List.mem_filter.1 hbefore).1

end Frame

/-! ### Scopes -/

namespace Scope

/-- Every built-in name means its built-in function. -/
def HasBuiltins (s : Scope) : Prop :=
  ∀ b : Builtin, s.function? b.name = some (.builtin b)

/-- A root scope has the built-ins. -/
theorem hasBuiltins_root (settings : Settings) : (root settings).HasBuiltins := by
  intro b
  have hnames : ((Builtin.all.map Function.builtin).map Function.name).Nodup := by
    rw [List.map_map]
    exact Builtin.nodup_names
  have hb := Frame.function?_setFunctions ({} : Frame) hnames
    (List.mem_map_of_mem (f := Function.builtin) b.mem_all)
  have hname : (Function.builtin b).name = b.name := rfl
  rw [hname] at hb
  simp [function?, frames, root, hb]

/-- A root scope has no other functions. -/
theorem function?_root_eq_some {settings : Settings} {name : String} {g : Function}
    (h : (root settings).function? name = some g) : ∃ b, g = .builtin b := by
  obtain ⟨f, hf, hfind⟩ := List.exists_of_findSome?_eq_some h
  obtain rfl := List.mem_singleton.1 hf
  obtain hset | hbefore := Frame.mem_functions_setFunctions (List.mem_of_find?_eq_some hfind)
  · obtain ⟨b, -, rfl⟩ := List.mem_map.1 hset
    exact ⟨b, rfl⟩
  · cases hbefore

/-- A function that was set in a scope is found there under its name. -/
theorem function?_setFunction_self (s : Scope) (g : Function) :
    (s.setFunction g).function? g.name = some g := by
  simp only [function?, setFunction, frames, List.findSome?_cons, Frame.function?_setFunction_self]

/-- A function that is set hides none under another name. -/
theorem function?_setFunction_of_ne (s : Scope) {g : Function} {name : String}
    (h : g.name ≠ name) : (s.setFunction g).function? name = s.function? name := by
  simp only [function?, setFunction, frames, List.findSome?_cons,
    Frame.function?_setFunction_of_ne _ h]

/-- A frame without functions hides none. -/
theorem function?_push (s : Scope) {f : Frame} (h : f.functions = []) (name : String) :
    (s.push f).function? name = s.function? name := by
  simp [function?, Frame.function?, h]

/-- A trigger clause keeps the built-ins. -/
theorem HasBuiltins.clause {s : Scope} (h : s.HasBuiltins) : s.clause.HasBuiltins := by
  intro b
  exact (function?_push s rfl b.name).trans (h b)

end Scope

end TriggerLang
