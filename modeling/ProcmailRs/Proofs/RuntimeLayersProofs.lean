import Mathlib
import ProcmailRs.RuntimeLayers

/-!
# Layers hide nothing and leak nothing

Every operation on the layers is the operation on the map they stand for, so a branch of a run is a
plain map of its own.
-/

namespace ProcmailRs

open Std

namespace LayeredVariables

variable {runtime : LayeredVariables} {name : String}

theorem find_eq : runtime.find = Layers.find (runtime.values :: runtime.parent) := by
  funext name
  unfold find
  rw [Layers.find_cons]
  cases runtime.values[name]? with
  | none => rfl
  | some value => rfl

theorem visibleValues_getElem? (name : String) : runtime.visibleValues[name]? = runtime.find name := by
  unfold visibleValues
  rw [Layers.getElem?_foldl_addUnder, find_eq]

/-! ### Reading -/

theorem get_eq : runtime.get = runtime.flatten.get := rfl

theorem getBytes_eq : runtime.getBytes = runtime.flatten.getBytes := rfl

/-- A listing shows each visible name once. -/
theorem lists_listing (read : RuntimeValue → Option Bytes) :
    Layers.Lists compare (fun name => (runtime.flatten.values name).bind read)
      (Layers.listing read runtime.visibleValues) := by
  have hlists := Layers.lists_listing read runtime.visibleValues
  simp only [visibleValues_getElem?] at hlists
  exact hlists

/-! ### Writing -/

@[simp] theorem flatten_insert (value : RuntimeValue) :
    (runtime.insert name value).flatten = runtime.flatten.insert name value := by
  unfold flatten RuntimeVariables.insert
  simp only [find_eq, RuntimeVariables.mk.injEq, insert, and_self, and_true]
  funext other
  exact Layers.find_insert name other value

@[simp] theorem flatten_set (value : Bytes) :
    (runtime.set name value).flatten = runtime.flatten.set name value := flatten_insert _

@[simp] theorem flatten_remove : (runtime.remove name).flatten = runtime.flatten.remove name :=
  flatten_insert _

/-- Both sides of a fork stand for the map that was forked. -/
theorem flatten_fork :
    runtime.fork.1.flatten = runtime.flatten ∧ runtime.fork.2.flatten = runtime.flatten := by
  have hfind : ∀ forked : LayeredVariables, forked.values = ∅ →
      forked.parent = runtime.values :: runtime.parent → forked.find = runtime.find := by
    intro forked hvalues hparent
    rw [find_eq, find_eq, hvalues, hparent]
    funext name
    exact Layers.find_empty_cons name
  have hforked : runtime.fork.1.flatten = runtime.flatten := by
    unfold flatten
    rw [hfind runtime.fork.1 rfl rfl]
    rfl
  exact ⟨hforked, hforked⟩

end LayeredVariables

namespace RuntimeVariables

variable {runtime : RuntimeVariables}

/-- One round of the loop over the positional parameters, over a plain map. -/
def placePositional (shifted : List Bytes) (runtime : RuntimeVariables) (index : Nat) :
    RuntimeVariables :=
  match shifted[index - 1]? with
  | some value => runtime.set (toString index) value
  | none => runtime.remove (toString index)

/-- The loop over all positional parameters places the shifted ones and removes the others. -/
theorem foldl_placePositional (shifted rest : List Bytes) (index : Nat)
    (hrest : ∀ k, shifted[index - 1 + k]? = rest[k]?) (hindex : 1 ≤ index) :
    (List.range' index (maxPositionalArguments + 1 - index)).foldl (placePositional shifted) runtime =
      runtime.placePositionals index rest := by
  induction rest generalizing runtime index with
  | nil =>
    unfold placePositionals
    refine List.foldl_ext _ _ _ ?_
    intro runtime k hk
    have hle := (List.mem_range'_1.mp hk).1
    have hnone : shifted[k - 1]? = none := by
      have hfrom := hrest (k - index)
      rw [show index - 1 + (k - index) = k - 1 by omega] at hfrom
      exact hfrom
    unfold placePositional
    rw [hnone]
  | cons value rest ih =>
    unfold placePositionals
    by_cases hle : index ≤ maxPositionalArguments
    · have hsome : shifted[index - 1]? = some value := hrest 0
      rw [if_pos hle, show maxPositionalArguments + 1 - index =
        maxPositionalArguments + 1 - (index + 1) + 1 by omega, List.range'_succ, List.foldl_cons]
      have hplaced : placePositional shifted runtime index = runtime.set (toString index) value := by
        unfold placePositional
        rw [hsome]
      rw [hplaced]
      refine ih (index + 1) ?_ (by omega)
      intro k
      rw [show index + 1 - 1 + k = index - 1 + (k + 1) by omega, hrest, List.getElem?_cons_succ]
    · rw [if_neg hle, show maxPositionalArguments + 1 - index = 0 by omega]
      rfl

end RuntimeVariables

namespace LayeredVariables

variable {runtime : LayeredVariables}

theorem flatten_placePositional (shifted : List Bytes) (index : Nat) :
    (placePositional shifted runtime index).flatten =
      RuntimeVariables.placePositional shifted runtime.flatten index := by
  unfold placePositional RuntimeVariables.placePositional
  cases shifted[index - 1]? with
  | none => exact flatten_remove
  | some value => exact flatten_set value

/-- A loop over the layers is the loop over the map when its rounds are. -/
theorem flatten_foldl {α : Type} {change : LayeredVariables → α → LayeredVariables}
    {flatChange : RuntimeVariables → α → RuntimeVariables}
    (h : ∀ runtime a, (change runtime a).flatten = flatChange runtime.flatten a) (items : List α) :
    (items.foldl change runtime).flatten = items.foldl flatChange runtime.flatten := by
  induction items generalizing runtime with
  | nil => rfl
  | cons a items ih => rw [List.foldl_cons, List.foldl_cons, ih, h]

theorem flatten_shiftPositionals (requested : Nat) :
    (runtime.shiftPositionals requested).flatten = runtime.flatten.shiftPositionals requested := by
  unfold shiftPositionals RuntimeVariables.shiftPositionals
  simp only [flatten_set, get_eq]
  rw [flatten_foldl fun runtime index => flatten_placePositional _ index]
  congr 1
  exact RuntimeVariables.foldl_placePositional _ _ 1 (fun k => by simp) (by omega)

/-- Removing names one after the other marks exactly these. -/
theorem flatten_foldl_remove (names : List String) :
    (names.foldl remove runtime).flatten =
      { runtime.flatten with
        values := fun name => if name ∈ names then some .Removed else runtime.flatten.values name } := by
  induction names generalizing runtime with
  | nil => simp
  | cons first names ih =>
    rw [List.foldl_cons, ih, flatten_remove]
    unfold RuntimeVariables.remove RuntimeVariables.insert
    simp only [RuntimeVariables.mk.injEq, and_true]
    funext name
    by_cases hnames : name ∈ names
    · rw [if_pos hnames, if_pos (List.mem_cons_of_mem _ hnames)]
    · by_cases hfirst : name = first
      · rw [if_neg hnames, if_pos hfirst, if_pos (by simp [hfirst])]
      · rw [if_neg hnames, if_neg hfirst, if_neg (by simp [hfirst, hnames])]

theorem mem_visibleValues_keys (name : String) :
    name ∈ runtime.visibleValues.keys ↔ (runtime.flatten.values name).isSome := by
  rw [ExtTreeMap.mem_keys, ExtTreeMap.mem_iff_isSome_getElem?, visibleValues_getElem?]
  exact Iff.rfl

theorem flatten_clearNumberedMatchValues :
    runtime.clearNumberedMatchValues.flatten = runtime.flatten.clearNumberedMatchValues := by
  unfold clearNumberedMatchValues RuntimeVariables.clearNumberedMatchValues
  rw [flatten_foldl_remove]
  simp only [RuntimeVariables.mk.injEq, and_true]
  funext name
  simp only [List.mem_filter, mem_visibleValues_keys, Bool.and_eq_true, and_comm]

/-- Every operation on the layers is the operation on the map. -/
theorem flatten_change (operation : VariableOperation) :
    (runtime.change operation).flatten = runtime.flatten.change operation := by
  cases operation with
  | set name value => exact flatten_set value
  | setBytes name value => exact flatten_insert _
  | remove name => exact flatten_remove
  | shiftPositionals requested => exact flatten_shiftPositionals requested
  | setMatchValue name value => exact flatten_insert _
  | clearMatchValues =>
    show (runtime.remove "MATCH").clearNumberedMatchValues.flatten = _
    rw [flatten_clearNumberedMatchValues, flatten_remove]
    rfl
  | clearNumberedMatchValues => exact flatten_clearNumberedMatchValues
  | setSystemHostname hostname => rfl
  | replaceCurrentRcFile path => rfl
  | setLastCommandStatus status => rfl

end LayeredVariables

/-! ### Runs -/

/-- A step on the branches is the step on the maps they stand for. -/
theorem map_flatten_step (branches : List LayeredVariables) (step : BranchStep) :
    (layeredStep branches step).map LayeredVariables.flatten =
      flatStep (branches.map LayeredVariables.flatten) step := by
  cases step with
  | fork branch =>
    unfold layeredStep flatStep
    simp only [List.getElem?_map]
    cases hbranch : branches[branch]? with
    | none => rfl
    | some runtime =>
      have hset : (branches.map LayeredVariables.flatten).set branch runtime.flatten =
          branches.map LayeredVariables.flatten := by
        refine List.ext_getElem? fun other => ?_
        rw [List.getElem?_set]
        by_cases hother : branch = other
        · subst hother
          simp only [List.getElem?_map, hbranch, Option.map_some, if_true, List.length_map]
          rw [if_pos (List.getElem?_eq_some_iff.mp hbranch).1]
        · rw [if_neg hother]
      simp only [Option.map_some, List.map_append, List.map_set, List.map_cons, List.map_nil,
        LayeredVariables.flatten_fork.1, LayeredVariables.flatten_fork.2, hset]
  | change branch operation =>
    unfold layeredStep flatStep
    refine List.ext_getElem? fun other => ?_
    simp only [List.getElem?_map, List.getElem?_modify]
    cases branches[other]? with
    | none => rfl
    | some runtime =>
      by_cases hother : branch = other
      · simp [hother, LayeredVariables.flatten_change]
      · simp [hother]

theorem map_flatten_run (branches : List LayeredVariables) (steps : List BranchStep) :
    (steps.foldl layeredStep branches).map LayeredVariables.flatten =
      steps.foldl flatStep (branches.map LayeredVariables.flatten) := by
  induction steps generalizing branches with
  | nil => rfl
  | cons step steps ih => rw [List.foldl_cons, List.foldl_cons, ih, map_flatten_step]

/-- All that a branch shows of its variables is what the map shows. -/
structure ShowsMap (runtime : LayeredVariables) (flat : RuntimeVariables) : Prop where
  get : ∀ name, runtime.get name = flat.get name
  getBytes : ∀ name, runtime.getBytes name = flat.getBytes name
  values : Layers.Lists compare (fun name => (flat.values name).bind RuntimeValue.text?)
    runtime.valueList
  byteValues : Layers.Lists compare (fun name => (flat.values name).bind RuntimeValue.bytes?)
    runtime.byteValueList
  systemHostname : runtime.systemHostname = flat.systemHostname

theorem showsMap_flatten (runtime : LayeredVariables) : ShowsMap runtime runtime.flatten := by
  constructor
  · intro name
    rw [LayeredVariables.get_eq]
  · intro name
    rw [LayeredVariables.getBytes_eq]
  · exact LayeredVariables.lists_listing _
  · exact LayeredVariables.lists_listing _
  · rfl

/-- The removal of a name hides it in the branch and leaves every other branch as it was. -/
structure RemovesOnlyIn (branch : Nat) (name : String) (before after : List LayeredVariables) :
    Prop where
  hidden : ∀ runtime ∈ after[branch]?, ∀ value, (name, value) ∉ runtime.byteValueList
  others : ∀ other, other ≠ branch → after[other]? = before[other]?

theorem removesOnlyIn_step (branches : List LayeredVariables) (branch : Nat) (name : String) :
    RemovesOnlyIn branch name branches (layeredStep branches (.change branch (.remove name))) := by
  constructor
  · intro runtime hruntime value hlisted
    obtain ⟨before, -, rfl⟩ : ∃ before, branches[branch]? = some before ∧
        before.remove name = runtime := by
      have hmodified := Option.mem_def.mp hruntime
      unfold layeredStep at hmodified
      rw [List.getElem?_modify_eq] at hmodified
      exact Option.map_eq_some_iff.mp hmodified
    have hvisible := ((LayeredVariables.lists_listing RuntimeValue.bytes?).mem_iff name value).mp hlisted
    rw [LayeredVariables.flatten_remove] at hvisible
    simp [RuntimeVariables.remove, RuntimeVariables.insert, RuntimeValue.bytes?] at hvisible
  · intro other hother
    unfold layeredStep
    exact List.getElem?_modify_ne _ branches hother.symm

/-- Whatever is forked and changed, every branch is a plain map that was copied in full when it was
forked and changed by its own operations only. -/
theorem branches_are_plain_maps (runtime : LayeredVariables) (steps : List BranchStep) :
    List.Forall₂ ShowsMap (steps.foldl layeredStep [runtime])
        (steps.foldl flatStep [runtime.flatten]) ∧
      ∀ branch name, RemovesOnlyIn branch name (steps.foldl layeredStep [runtime])
        ((steps ++ [BranchStep.change branch (.remove name)]).foldl layeredStep [runtime]) := by
  constructor
  · have hmaps : steps.foldl flatStep [runtime.flatten] =
        (steps.foldl layeredStep [runtime]).map LayeredVariables.flatten :=
      (map_flatten_run [runtime] steps).symm
    rw [hmaps, List.forall₂_map_right_iff, List.forall₂_same]
    intro branch _
    exact showsMap_flatten branch
  · intro branch name
    rw [List.foldl_append]
    exact removesOnlyIn_step _ branch name

end ProcmailRs
