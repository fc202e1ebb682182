import Mathlib.Algebra.BigOperators.Group.Finset.Basic
import Mathlib.Algebra.BigOperators.Group.Finset.Piecewise
import Mathlib.Data.Fintype.Basic
import Mathlib.Logic.Relation
import Mathlib.Tactic.Abel

/-!
# Interleaved processes

Processes work on a state that they share, each with a state of its own. In a step one of them acts, on
the shared state and on its own, or the surroundings change the shared state. A run takes any number of
steps, in any order.

Two rules say what holds throughout a run. By `Run.assertions` each process keeps an assertion about the
shared state and its own one, if nobody else spoils it. By `Run.balance` a quantity that is held partly
in the shared state and partly by the processes stays the same, if no act changes what the actor and
the shared state have together.
-/

namespace Interleaving

variable {ι σ ρ : Type*}

/-- What each process can do on its own, and what happens to the shared state by itself. -/
structure System (ι σ ρ : Type*) where
  act : ι → σ → ρ → σ → ρ → Prop
  surroundings : σ → σ → Prop

/-- What the parties share, and what each of them has of its own. -/
structure Configuration (ι σ ρ : Type*) where
  shared : σ
  own : ι → ρ

variable [DecidableEq ι]

/-- One party acts, or the surroundings change what is shared. -/
inductive Step (S : System ι σ ρ) : Configuration ι σ ρ → Configuration ι σ ρ → Prop
  | act {c : Configuration ι σ ρ} {i : ι} {s : σ} {r : ρ} (h : S.act i c.shared (c.own i) s r) :
    Step S c ⟨s, Function.update c.own i r⟩
  | surroundings {c : Configuration ι σ ρ} {s : σ} (h : S.surroundings c.shared s) : Step S c ⟨s, c.own⟩

/-- A run whose configurations all satisfy `P`, the first and the last one too. -/
inductive Run (S : System ι σ ρ) (P : Configuration ι σ ρ → Prop) :
    Configuration ι σ ρ → Configuration ι σ ρ → Prop
  | start {c : Configuration ι σ ρ} (h : P c) : Run S P c c
  | step {c c' c'' : Configuration ι σ ρ} (h : Run S P c c') (hstep : Step S c' c'') (hP : P c'') :
    Run S P c c''

namespace Run

variable {S : System ι σ ρ} {P Q : Configuration ι σ ρ → Prop} {c c' : Configuration ι σ ρ}

theorem last (h : Run S P c c') : P c' := by
  cases h with
  | start h => exact h
  | step _ _ hP => exact hP

theorem invariant (h : Run S P c c') (hstart : Q c)
    (hstep : ∀ c c', P c → Q c → Step S c c' → Q c') : Q c' := by
  induction h with
  | start _ => exact hstart
  | step hrun hs _ ih => exact hstep _ _ hrun.last ih hs

/-- A run of a system is one of a system that allows more. -/
theorem weaken {S' : System ι σ ρ} (hact : ∀ i s r s' r', S.act i s r s' r' → S'.act i s r s' r')
    (hsurroundings : ∀ s s', S.surroundings s s' → S'.surroundings s s') (h : Run S P c c') :
    Run S' P c c' := by
  induction h with
  | start h => exact .start h
  | step _ hs h ih =>
    cases hs with
    | act hs => exact ih.step (.act (hact _ _ _ _ _ hs)) h
    | surroundings hs => exact ih.step (.surroundings (hsurroundings _ _ hs)) h

/-- Each process keeps its assertion by its own acts, and the acts of the others and the surroundings
do not spoil it. -/
theorem assertions {A : ι → σ → ρ → Prop} (h : Run S P c c') (hstart : ∀ i, A i c.shared (c.own i))
    (hact : ∀ i s r s' r', A i s r → S.act i s r s' r' → A i s' r')
    (hother : ∀ i j s r t s' t', i ≠ j → A i s r → A j s t → S.act j s t s' t' → A i s' r)
    (hsurroundings : ∀ i s r s', A i s r → S.surroundings s s' → A i s' r) :
    ∀ i, A i c'.shared (c'.own i) := by
  refine h.invariant (Q := fun c => ∀ i, A i c.shared (c.own i)) hstart ?_
  intro c c' _ hc hs i
  cases hs with
  | surroundings hs => exact hsurroundings i _ _ _ (hc i) hs
  | @act j s r hs =>
    by_cases hij : i = j
    · subst hij
      simp only [Function.update_self]
      exact hact i _ _ _ _ (hc i) hs
    · simp only [Function.update_of_ne hij]
      exact hother i j _ _ _ _ _ hij (hc i) (hc j) hs

/-- One process acts for a while, and the others wait. -/
theorem solo (p : σ → Prop) (h : Run S P c c') (i : ι) {r : ρ} {after : σ × ρ} (hown : c'.own i = r)
    (hP : ∀ s own, p s → P ⟨s, own⟩)
    (hsolo : Relation.ReflTransGen (fun x y : σ × ρ => S.act i x.1 x.2 y.1 y.2 ∧ p y.1)
      (c'.shared, r) after) :
    Run S P c ⟨after.1, Function.update c'.own i after.2⟩ := by
  induction hsolo with
  | refl =>
    rw [← hown, Function.update_eq_self]
    exact h
  | @tail middle after _ hact ih =>
    have hown : Function.update (Function.update c'.own i middle.2) i after.2 =
        Function.update c'.own i after.2 := Function.update_idem ..
    rw [← hown]
    refine ih.step (.act ?_) (hP _ _ hact.2)
    simp only [Function.update_self]
    exact hact.1

end Run

/-! ### Quantities -/

section Balance

variable [Fintype ι] {M : Type*} [AddCommGroup M]

/-- What the shared state and all processes have together. -/
def total (stock : σ → M) (share : ρ → M) (c : Configuration ι σ ρ) : M :=
  stock c.shared + ∑ i, share (c.own i)

theorem sum_update (share : ρ → M) (own : ι → ρ) (i : ι) (r : ρ) :
    ∑ j, share (Function.update own i r j) = ∑ j, share (own j) - share (own i) + share r := by
  have hcomp : (fun j => share (Function.update own i r j)) =
      Function.update (fun j => share (own j)) i (share r) :=
    Function.comp_update share own i r
  rw [hcomp, Finset.sum_update_of_mem (Finset.mem_univ i),
    ← Finset.sum_erase_add _ _ (Finset.mem_univ i), Finset.erase_eq]
  abel

variable {S : System ι σ ρ} {stock : σ → M} {share : ρ → M} {c c' : Configuration ι σ ρ}

theorem Step.balance (hact : ∀ i s r s' r', S.act i s r s' r' → stock s' + share r' = stock s + share r)
    (hsurroundings : ∀ s s', S.surroundings s s' → stock s' = stock s) (h : Step S c c') :
    total stock share c' = total stock share c := by
  cases h with
  | surroundings h => simp only [total, hsurroundings _ _ h]
  | @act i s r h =>
    have heq := hact i _ _ _ _ h
    simp only [total, sum_update]
    calc stock s + (∑ j, share (c.own j) - share (c.own i) + share r)
        = stock s + share r + (∑ j, share (c.own j) - share (c.own i)) := by abel
      _ = stock c.shared + ∑ j, share (c.own j) := by rw [heq]; abel

theorem Run.balance {P : Configuration ι σ ρ → Prop}
    (hact : ∀ i s r s' r', S.act i s r s' r' → stock s' + share r' = stock s + share r)
    (hsurroundings : ∀ s s', S.surroundings s s' → stock s' = stock s) (h : Run S P c c') :
    total stock share c' = total stock share c :=
  h.invariant (Q := fun c' => total stock share c' = total stock share c) rfl
    fun _ _ _ hc hs => (Step.balance hact hsurroundings hs).trans hc

end Balance

end Interleaving
