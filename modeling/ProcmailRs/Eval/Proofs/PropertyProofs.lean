import ProcmailRs.Eval.Tree

/-!
# The properties of a tree

What the properties of a sequence say about its recipes, their conditions and their actions.
-/

namespace ProcmailRs

namespace PlanProperties

/-- A flag of the properties that is set for the whole as soon as it is set for a part. -/
structure IsFlag (flag : PlanProperties → Bool) : Prop where
  default : flag PlanProperties.default = false
  union : ∀ a b, flag (a.union b) = (flag a || flag b)

theorem isFlag_requiresOrderedDelivery : IsFlag requiresOrderedDelivery := ⟨rfl, fun _ _ => rfl⟩

section Flags

variable {flag : PlanProperties → Bool} (hflag : IsFlag flag)

include hflag

theorem flag_foldl {α : Type} (properties : α → PlanProperties) (start : PlanProperties)
    (parts : List α) :
    flag (parts.foldl (fun sum part => sum.union (properties part)) start) = false ↔
      flag start = false ∧ ∀ part ∈ parts, flag (properties part) = false := by
  induction parts generalizing start with
  | nil => simp
  | cons part rest ih =>
    rw [List.foldl_cons, ih, hflag.union, Bool.or_eq_false_iff, List.forall_mem_cons, and_assoc]

theorem flag_statements (statements : List CompiledStatement) :
    flag (statementsProperties statements) = false ↔
      ∀ statement ∈ statements, flag statement.properties = false := by
  unfold statementsProperties unions
  rw [List.foldl_map, flag_foldl hflag, hflag.default]
  simp

theorem flag_recipes (recipe : CompiledNode) (rest : List CompiledNode) :
    flag (recipesProperties (recipe :: rest)) = false ↔
      flag recipe.properties = false ∧ flag (recipesProperties rest) = false := by
  rw [recipesProperties, hflag.union, Bool.or_eq_false_iff]

end Flags

end PlanProperties

open PlanProperties

/-! ### Plans that need not be executed in order -/

/-- What a recipe is like that need not be executed in order. -/
structure CompiledNode.Unordered (recipe : CompiledNode) : Prop where
  lock : recipe.lock = none
  statements : ∀ statement ∈ recipe.precedingStatements,
    statement.properties.requiresOrderedDelivery = false
  conditions : ∀ condition ∈ recipe.conditions,
    condition.properties.requiresOrderedDelivery = false
  action : recipe.action.properties.requiresOrderedDelivery = false

theorem CompiledNode.unordered {recipe : CompiledNode}
    (h : recipe.properties.requiresOrderedDelivery = false) : recipe.Unordered := by
  obtain ⟨line, statements, lock, control, continuation, childStatus, conditions, action⟩ := recipe
  unfold CompiledNode.properties at h
  simp only [preemptive, Bool.or_eq_false_iff] at h
  obtain ⟨hunion, hlock⟩ := h
  rw [isFlag_requiresOrderedDelivery.union, Bool.or_eq_false_iff,
    flag_foldl isFlag_requiresOrderedDelivery, flag_statements isFlag_requiresOrderedDelivery]
    at hunion
  obtain ⟨⟨haction, hconditions⟩, hstatements⟩ := hunion
  simp only [Bool.or_eq_false_iff] at haction
  exact ⟨Option.not_isSome_iff_eq_none.mp (by simp [hlock]), hstatements, hconditions, haction.1⟩

theorem CompiledSequence.unordered {sequence : CompiledSequence}
    (h : sequence.properties.requiresOrderedDelivery = false) :
    (recipesProperties sequence.recipes).requiresOrderedDelivery = false ∧
      ∀ statement ∈ sequence.trailingStatements,
        statement.properties.requiresOrderedDelivery = false := by
  obtain ⟨recipes, trailing⟩ := sequence
  rw [CompiledSequence.properties] at h
  simp only [Bool.or_eq_false_iff] at h
  obtain ⟨hunion, -⟩ := h
  rw [isFlag_requiresOrderedDelivery.union, Bool.or_eq_false_iff,
    flag_statements isFlag_requiresOrderedDelivery] at hunion
  exact hunion

/-! ### Execution before anything is planned -/

/-- What must be executed before anything is planned must be executed in order. -/
def PlanProperties.Sound (properties : PlanProperties) : Prop :=
  properties.requiresPreemptiveOrderedDelivery = true → properties.requiresOrderedDelivery = true

namespace PlanProperties.Sound

theorem default : PlanProperties.default.Sound := fun h => nomatch h

theorem union {a b : PlanProperties} (ha : a.Sound) (hb : b.Sound) : (a.union b).Sound := by
  unfold Sound PlanProperties.union at *
  simp only [Bool.or_eq_true]
  exact Or.imp ha hb

theorem preemptive {properties : PlanProperties} (h : properties.Sound) (ordered : Bool) :
    (properties.preemptive ordered).Sound := by
  unfold Sound PlanProperties.preemptive at *
  simp only [Bool.or_eq_true]
  exact Or.imp_left h

theorem foldl {α : Type} {properties : α → PlanProperties} (h : ∀ part, (properties part).Sound)
    {start : PlanProperties} (hstart : start.Sound) (parts : List α) :
    (parts.foldl (fun sum part => sum.union (properties part)) start).Sound := by
  induction parts generalizing start with
  | nil => exact hstart
  | cons part rest ih => exact ih (hstart.union (h part))

theorem statement (statement : CompiledStatement) : statement.properties.Sound := by
  cases statement with
  | CommandAssignment assignment => exact fun _ => rfl
  | Assignment assignment => exact id
  | Unset unset => exact id
  | Host assignment => exact fun h => nomatch h
  | Include expression => exact fun h => nomatch h
  | Switch expression => exact fun h => nomatch h

theorem statements (statements : List CompiledStatement) :
    (statementsProperties statements).Sound := by
  unfold statementsProperties unions
  rw [List.foldl_map]
  exact foldl statement default statements

theorem condition (condition : CompiledCondition) : condition.properties.Sound := by
  cases condition with
  | ShellExpanded line negated condition => exact fun _ => rfl
  | Resolved condition =>
    intro h
    simp only [CompiledCondition.properties, ResolvedCondition.properties] at h ⊢
    split at h
    all_goals first | rfl | cases h

theorem readsResult_of_unknownResultRead : ∀ recipes : List CompiledNode,
    unknownResultRead recipes = true →
      ((recipes.drop 1).any fun recipe => recipe.control.readsResult) = true
  | [], h => nomatch h
  | [recipe], h => nomatch h
  | first :: second :: rest, h => by
    simp only [unknownResultRead, Bool.or_eq_true, Bool.and_eq_true] at h
    simp only [List.drop_succ_cons, List.drop_zero, List.any_cons, Bool.or_eq_true]
    rcases h with ⟨hreads, -⟩ | h
    · exact .inl hreads
    · right
      simpa using readsResult_of_unknownResultRead (second :: rest) h

mutual

theorem action : ∀ action : CompiledAction, action.properties.Sound
  | .Pipe command options => by
    rw [CompiledAction.properties]
    exact fun _ => rfl
  | .Capture action options => by
    rw [CompiledAction.properties]
    split_ifs
    · exact fun h => nomatch h
    · exact fun _ => rfl
  | .Deliver destination continuation outputEnding => by
    rw [CompiledAction.properties]
    exact id
  | .Block children => by
    rw [CompiledAction.properties]
    exact sequence children
  | .Headers resolveWith => by
    rw [CompiledAction.properties]
    exact fun h => nomatch h

theorem recipe : ∀ recipe : CompiledNode, recipe.properties.Sound
  | ⟨_, statements', _, _, _, _, conditions, action'⟩ => by
    unfold CompiledNode.properties
    exact ((foldl condition ((action action').preemptive _) conditions).union
      (statements statements')).preemptive _

theorem recipes : ∀ recipes : List CompiledNode, (recipesProperties recipes).Sound
  | [] => by
    rw [recipesProperties]
    exact default
  | first :: rest => by
    rw [recipesProperties]
    exact (recipe first).union (recipes rest)

theorem sequence : ∀ sequence : CompiledSequence, sequence.properties.Sound
  | ⟨recipes', trailing⟩ => by
    rw [CompiledSequence.properties]
    have hunion := (recipes recipes').union (statements trailing)
    unfold Sound at hunion ⊢
    simp only [Bool.or_eq_true]
    exact Or.imp hunion (readsResult_of_unknownResultRead recipes')

end

end PlanProperties.Sound

end ProcmailRs
