import Gearman.Transition

/-!
# Ranks of runs

A rank that some enabled step lowers, as long as the goal is not reached, bounds a run
that reaches it. A rank that no step raises and the steps of one party lower bounds how
many steps that party takes in any run.
-/

namespace Gearman.Ranking
open Transition
variable {σ α : Type*} {step : σ → α → Option σ} {allow : σ → α → Bool} {I goal : σ → Prop}
  {s t : σ}

theorem exists_run (rank : σ → ℕ)
    (h : ∀ s, I s → ¬ goal s →
      ∃ a t, allow s a = true ∧ step s a = some t ∧ I t ∧ rank t < rank s)
    (h₀ : I s) : ∃ as t, run step allow s as = some t ∧ goal t ∧ as.length ≤ rank s := by
  -- the number of steps that are left is at most the rank
  have key : ∀ n s, I s → rank s ≤ n →
      ∃ as t, run step allow s as = some t ∧ goal t ∧ as.length ≤ n := by
    intro n
    induction n with
    | zero =>
      intro s hs hn
      by_cases hg : goal s
      · exact ⟨[], s, rfl, hg, le_rfl⟩
      · obtain ⟨a, t, -, -, -, hlt⟩ := h s hs hg
        omega
    | succ n ih =>
      intro s hs hn
      by_cases hg : goal s
      · exact ⟨[], s, rfl, hg, Nat.zero_le _⟩
      · obtain ⟨a, t, ha, hstep, ht, hlt⟩ := h s hs hg
        obtain ⟨as, u, hrun, hu, hlen⟩ := ih t ht (by omega)
        exact ⟨a :: as, u, run_cons_eq_some.mpr ⟨ha, t, hstep, hrun⟩, hu, by simpa using hlen⟩
  exact key (rank s) s h₀ le_rfl

theorem count_add_rank_le (rank : σ → ℕ) (own : α → Bool)
    (h : ∀ s a t, I s → allow s a = true → step s a = some t →
      I t ∧ rank t ≤ rank s ∧ (own a = true → rank t < rank s))
    {as : List α} (h₀ : I s) (hrun : run step allow s as = some t) :
    as.countP own + rank t ≤ rank s := by
  induction as generalizing s with
  | nil =>
    cases hrun
    simp
  | cons a as ih =>
    obtain ⟨ha, u, hu, hrest⟩ := run_cons_eq_some.mp hrun
    obtain ⟨hI, hle, hlt⟩ := h s a u h₀ ha hu
    have hcount := ih hI hrest
    cases hown : own a with
    | false =>
      rw [List.countP_cons_of_neg (by simp [hown])]
      omega
    | true =>
      have hlt := hlt hown
      rw [List.countP_cons_of_pos hown]
      omega

end Gearman.Ranking
