import Mathlib.Data.List.Basic

/-!
# Logs of several paths

An execution that can branch logs its events with the number of the path they belong to; new paths get
the next free number. Some events close their path. A segment is what one path logged, together with
the paths started meanwhile.
-/

namespace Paths

variable {ε : Type}

/-- Behind an event that closes its path nothing is logged on that path. -/
def Ordered (closes : ε → Prop) (log : List (Nat × ε)) : Prop :=
  log.Pairwise fun e f => closes e.2 → f.1 ≠ e.1

/-- The events of path `p` and of the paths numbered from `n` up to `n'`. The path `p` may be closed
only if `closed` holds. -/
structure Segment (closes : ε → Prop) (p n n' : Nat) (closed : Prop) (log : List (Nat × ε)) :
    Prop where
  le : n ≤ n'
  owner : ∀ e ∈ log, e.1 = p ∨ n ≤ e.1 ∧ e.1 < n'
  ordered : Ordered closes log
  running : ¬closed → ∀ e ∈ log, e.1 = p → ¬closes e.2

namespace Segment

variable {closes : ε → Prop} {p n k n' : Nat} {closed closed' : Prop} {log log' : List (Nat × ε)}

theorem nil : Segment closes p n n closed [] :=
  ⟨Nat.le_refl _, by simp, List.Pairwise.nil, by simp⟩

theorem singleton {e : ε} (h : closes e → closed) : Segment closes p n n closed [(p, e)] := by
  refine ⟨Nat.le_refl _, ?_, List.pairwise_singleton _ _, ?_⟩
  · simp
  · intro hclosed f hf _ hcloses
    rw [List.mem_singleton.mp hf] at hcloses
    exact hclosed (h hcloses)

theorem mono (h : Segment closes p n n' closed log) (hc : closed → closed') :
    Segment closes p n n' closed' log :=
  ⟨h.le, h.owner, h.ordered, fun hn => h.running fun hclosed => hn (hc hclosed)⟩

/-- A path that is still running goes on. -/
theorem append (h : Segment closes p n k False log)
    (h' : Segment closes p k n' closed log') : Segment closes p n n' closed (log ++ log') := by
  have hle := h.le
  have hle' := h'.le
  refine ⟨by omega, ?_, ?_, ?_⟩
  · intro e he
    rcases List.mem_append.mp he with he | he
    · rcases h.owner e he with ho | ho
      · exact .inl ho
      · exact .inr ⟨ho.1, by omega⟩
    · rcases h'.owner e he with ho | ho
      · exact .inl ho
      · exact .inr ⟨by omega, ho.2⟩
  · refine List.pairwise_append.mpr ⟨h.ordered, h'.ordered, ?_⟩
    -- A path closed in the first part is not `p`, so the second part has no number of it.
    intro e he f hf hcloses
    have hne : e.1 ≠ p := fun hep => h.running not_false e he hep hcloses
    have ho : n ≤ e.1 ∧ e.1 < k := (h.owner e he).resolve_left hne
    rcases h'.owner f hf with hf | hf
    · rw [hf]
      exact hne.symm
    · omega
  · intro hclosed e he hep
    rcases List.mem_append.mp he with he | he
    · exact h.running not_false e he hep
    · exact h'.running hclosed e he hep

/-- A branch started by the path: to the path it is something that happened beside it. -/
theorem branch (hp : p < n) (h : Segment closes n (n + 1) n' closed log) :
    Segment closes p n n' False log := by
  have hle := h.le
  refine ⟨by omega, ?_, h.ordered, ?_⟩
  · intro e he
    rcases h.owner e he with ho | ho
    · exact .inr ⟨by omega, by omega⟩
    · exact .inr ⟨by omega, ho.2⟩
  · intro _ e he hep
    rcases h.owner e he with ho | ho
    · omega
    · omega

end Segment

/-- A path is closed at most once. -/
theorem Ordered.filter_length_le_one {closes : ε → Prop} {log : List (Nat × ε)}
    (h : Ordered closes log) {final : Nat × ε → Bool} {p : Nat}
    (hfinal : ∀ e, final e = true → e.1 = p ∧ closes e.2) : (log.filter final).length ≤ 1 := by
  have hpair := List.Pairwise.filter final h
  match hlog : log.filter final with
  | [] => simp
  | [_] => simp
  | e :: f :: rest =>
    have hmem : ∀ g ∈ e :: f :: rest, final g = true := by
      intro g hg
      rw [← hlog] at hg
      exact (List.mem_filter.mp hg).2
    obtain ⟨he, hce⟩ := hfinal e (hmem e (by simp))
    obtain ⟨hf, -⟩ := hfinal f (hmem f (by simp))
    rw [hlog] at hpair
    exact absurd (hf.trans he.symm) ((List.pairwise_cons.mp hpair).1 f (by simp) hce)

end Paths
