import Mathlib.Logic.Function.Basic
import Mathlib.Data.Option.Basic
import Mathlib.Data.List.Basic

/-!
# Shared cells

Several handles may point to one cell. A write through a handle that is the only one of its cell is a
write in place; any other write takes a new cell, so that the other handles keep what they point to. A
cell that is filled in place is filled for all its handles.
-/

namespace ProcmailRs.Sharing

/-- The cells that have been allocated, and the handles that have been opened: each of them points to a
cell until it is dropped. -/
structure Heap (α : Type*) where
  content : Nat → α
  allocated : Nat
  pointer : Nat → Option Nat
  opened : Nat
  valid : ∀ i cell, pointer i = some cell → i < opened ∧ cell < allocated

namespace Heap

variable {α : Type*}

/-- The heap before any cell is allocated. -/
def empty (content : Nat → α) : Heap α where
  content := content
  allocated := 0
  pointer _ := none
  opened := 0
  valid _ _ h := nomatch h

/-- What a handle points to. -/
def value (heap : Heap α) (i : Nat) : Option α := (heap.pointer i).map heap.content

/-- Another handle points to the cell. -/
def shared (heap : Heap α) (i cell : Nat) : Bool :=
  (List.range heap.opened).any fun j => j != i && heap.pointer j == some cell

/-- The handle is the only one of its cell. -/
def isUnique (heap : Heap α) (i : Nat) : Bool := (heap.pointer i).any fun cell => !heap.shared i cell

/-- A new handle with a cell of its own. -/
def alloc (heap : Heap α) (a : α) : Heap α where
  content := Function.update heap.content heap.allocated a
  allocated := heap.allocated + 1
  pointer := Function.update heap.pointer heap.opened (some heap.allocated)
  opened := heap.opened + 1
  valid i cell h := by
    by_cases hi : i = heap.opened
    · subst hi
      rw [Function.update_self] at h
      cases h
      omega
    · rw [Function.update_of_ne hi] at h
      have hvalid := heap.valid i cell h
      omega

/-- A new handle that points where `i` points. -/
def clone (heap : Heap α) (i : Nat) : Heap α where
  content := heap.content
  allocated := heap.allocated
  pointer := Function.update heap.pointer heap.opened (heap.pointer i)
  opened := heap.opened + 1
  valid j cell h := by
    by_cases hj : j = heap.opened
    · subst hj
      rw [Function.update_self] at h
      have hvalid := heap.valid i cell h
      omega
    · rw [Function.update_of_ne hj] at h
      have hvalid := heap.valid j cell h
      omega

/-- One handle is given up, and its cell is left as it is. -/
def drop (heap : Heap α) (i : Nat) : Heap α where
  content := heap.content
  allocated := heap.allocated
  pointer := Function.update heap.pointer i none
  opened := heap.opened
  valid j cell h := by
    by_cases hj : j = i
    · subst hj
      rw [Function.update_self] at h
      cases h
    · rw [Function.update_of_ne hj] at h
      exact heap.valid j cell h

/-- A write in place, seen through every handle of the cell. -/
def fill (heap : Heap α) (i : Nat) (a : α) : Heap α where
  content := match heap.pointer i with
    | none => heap.content
    | some cell => Function.update heap.content cell a
  allocated := heap.allocated
  pointer := heap.pointer
  opened := heap.opened
  valid := heap.valid

/-- A write into a cell of its own. -/
def assign (heap : Heap α) (i : Nat) (a : α) : Heap α where
  content := Function.update heap.content heap.allocated a
  allocated := heap.allocated + 1
  pointer := if (heap.pointer i).isSome then Function.update heap.pointer i (some heap.allocated)
    else heap.pointer
  opened := heap.opened
  valid j cell h := by
    by_cases hi : (heap.pointer i).isSome = true
    · rw [if_pos hi] at h
      by_cases hj : j = i
      · subst hj
        rw [Function.update_self] at h
        cases h
        obtain ⟨old, hold⟩ := Option.isSome_iff_exists.mp hi
        have hvalid := heap.valid j old hold
        omega
      · rw [Function.update_of_ne hj] at h
        have hvalid := heap.valid j cell h
        omega
    · rw [if_neg hi] at h
      have hvalid := heap.valid j cell h
      omega

/-! ### What the handles point to -/

variable {heap : Heap α} {i j cell : Nat} {a : α}

theorem pointer_eq_none (h : heap.value i = none) : heap.pointer i = none := by
  simpa [value] using h

/-- A new cell is nobody else's. -/
theorem map_update_allocated {p : Option Nat} (h : ∀ cell, p = some cell → cell < heap.allocated) :
    p.map (Function.update heap.content heap.allocated a) = p.map heap.content := by
  cases p with
  | none => rfl
  | some cell =>
    have hlt := h cell rfl
    rw [Option.map_some, Option.map_some, Function.update_of_ne (by omega)]

theorem value_alloc_self : (heap.alloc a).value heap.opened = some a := by
  simp [value, alloc]

theorem value_alloc_of_ne (h : i ≠ heap.opened) : (heap.alloc a).value i = heap.value i := by
  unfold value alloc
  dsimp only
  rw [Function.update_of_ne h, map_update_allocated fun cell hcell => (heap.valid i cell hcell).2]

theorem value_clone_self : (heap.clone i).value heap.opened = heap.value i := by
  simp [value, clone]

theorem value_clone_of_ne (h : j ≠ heap.opened) : (heap.clone i).value j = heap.value j := by
  simp [value, clone, Function.update_of_ne h]

theorem value_drop_self : (heap.drop i).value i = none := by
  simp [value, drop]

theorem value_drop_of_ne (h : j ≠ i) : (heap.drop i).value j = heap.value j := by
  simp [value, drop, Function.update_of_ne h]

theorem value_fill_self (h : heap.value i ≠ none) : (heap.fill i a).value i = some a := by
  cases hpointer : heap.pointer i with
  | none => simp [value, hpointer] at h
  | some cell => simp [value, fill, hpointer]

/-- The other handles see what is filled in, or they point elsewhere. -/
theorem value_fill_cases (h : j ≠ i) : (heap.fill i a).value j = heap.value j ∨
    heap.value j = heap.value i ∧ heap.value i ≠ none ∧ heap.isUnique i = false ∧
      (heap.fill i a).value j = some a := by
  cases hpointer : heap.pointer i with
  | none =>
    left
    simp [value, fill, hpointer]
  | some cell =>
    by_cases hsame : heap.pointer j = some cell
    · right
      have hopened := (heap.valid j cell hsame).1
      have hshared : heap.shared i cell = true := by
        unfold shared
        rw [List.any_eq_true]
        exact ⟨j, List.mem_range.mpr hopened, by simp [h, hsame]⟩
      refine ⟨?_, ?_, ?_, ?_⟩
      · rw [value, value, hsame, hpointer]
      · rw [value, hpointer]
        simp
      · unfold isUnique
        rw [hpointer, Option.any_some, hshared]
        rfl
      · simp [value, fill, hpointer, hsame]
    · left
      unfold value fill
      dsimp only
      rw [hpointer]
      cases hother : heap.pointer j with
      | none => rfl
      | some other =>
        have hne : other ≠ cell := by
          rintro rfl
          exact hsame hother
        simp [Function.update_of_ne hne]

/-- A write through the only handle of a cell is nobody else's. -/
theorem value_fill_of_unique (hunique : heap.isUnique i = true) (h : j ≠ i) :
    (heap.fill i a).value j = heap.value j := by
  rcases value_fill_cases h with hsame | ⟨-, -, hshared, -⟩
  · exact hsame
  · rw [hunique] at hshared
    cases hshared

theorem value_assign_self (h : heap.value i ≠ none) : (heap.assign i a).value i = some a := by
  cases hpointer : heap.pointer i with
  | none => simp [value, hpointer] at h
  | some cell => simp [value, assign, hpointer]

theorem value_assign_of_ne (h : j ≠ i) : (heap.assign i a).value j = heap.value j := by
  have hpointer : (heap.assign i a).pointer j = heap.pointer j := by
    unfold assign
    dsimp only
    split_ifs
    · exact Function.update_of_ne h _ _
    · rfl
  unfold value
  rw [hpointer]
  exact map_update_allocated fun cell hcell => (heap.valid j cell hcell).2

/-- A cell of its own is the only one. -/
theorem isUnique_assign (h : heap.value i ≠ none) : (heap.assign i a).isUnique i = true := by
  cases hpointer : heap.pointer i with
  | none => simp [value, hpointer] at h
  | some old =>
    have hself : (heap.assign i a).pointer i = some heap.allocated := by
      simp [assign, hpointer]
    have hshared : (heap.assign i a).shared i heap.allocated = false := by
      unfold shared
      rw [List.any_eq_false]
      intro j hj hboth
      rw [Bool.and_eq_true, bne_iff_ne, beq_iff_eq] at hboth
      obtain ⟨hne, hsame⟩ := hboth
      have hother : heap.pointer j = some heap.allocated := by
        rw [← hsame]
        simp [assign, hpointer, Function.update_of_ne hne]
      have hvalid := heap.valid j heap.allocated hother
      omega
    unfold isUnique
    rw [hself, Option.any_some, hshared]
    rfl

/-! ### What holds of every cell that is in use -/

/-- Every handle points to a good cell. -/
def All (P : α → Prop) (heap : Heap α) : Prop := ∀ i a, heap.value i = some a → P a

variable {P : α → Prop}

theorem all_empty (content : Nat → α) : (empty content).All P := fun _ _ h => nomatch h

theorem All.alloc (h : heap.All P) (ha : P a) : (heap.alloc a).All P := by
  intro j b hb
  by_cases hj : j = heap.opened
  · subst hj
    rw [value_alloc_self] at hb
    cases hb
    exact ha
  · rw [value_alloc_of_ne hj] at hb
    exact h j b hb

theorem All.clone (h : heap.All P) (i : Nat) : (heap.clone i).All P := by
  intro j b hb
  by_cases hj : j = heap.opened
  · subst hj
    rw [value_clone_self] at hb
    exact h i b hb
  · rw [value_clone_of_ne hj] at hb
    exact h j b hb

theorem All.drop (h : heap.All P) (i : Nat) : (heap.drop i).All P := by
  intro j b hb
  by_cases hj : j = i
  · subst hj
    rw [value_drop_self] at hb
    cases hb
  · rw [value_drop_of_ne hj] at hb
    exact h j b hb

theorem All.fill (h : heap.All P) (ha : P a) : (heap.fill i a).All P := by
  intro j b hb
  by_cases hj : j = i
  · subst hj
    have hsome : heap.value j ≠ none := by
      intro hnone
      simp [value, Heap.fill, pointer_eq_none hnone] at hb
    rw [value_fill_self hsome] at hb
    cases hb
    exact ha
  · rcases value_fill_cases hj with hsame | ⟨-, -, -, hfilled⟩
    · rw [hsame] at hb
      exact h j b hb
    · rw [hfilled] at hb
      cases hb
      exact ha

theorem All.assign (h : heap.All P) (ha : P a) : (heap.assign i a).All P := by
  intro j b hb
  by_cases hj : j = i
  · subst hj
    have hsome : heap.value j ≠ none := by
      intro hnone
      simp [value, Heap.assign, pointer_eq_none hnone] at hb
    rw [value_assign_self hsome] at hb
    cases hb
    exact ha
  · rw [value_assign_of_ne hj] at hb
    exact h j b hb

end Heap

end ProcmailRs.Sharing
