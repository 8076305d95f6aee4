import Mathlib.Algebra.BigOperators.Group.Finset.Basic
import Mathlib.Tactic

/-!
# Counting over a table of processes

The processes are numbered from zero in the order they start. A tally is the sum of a
weight over those that have started: it changes by the weights of the process that
moved, and by the weight of a process that starts.
-/

namespace Gearman.Tally
variable {τ : Type*} {w v : τ → ℕ} {f : ℕ → Option τ} {n i : ℕ} {x y : τ}

def tally (w : τ → ℕ) (f : ℕ → Option τ) (n : ℕ) : ℕ :=
  ∑ i ∈ Finset.range n, (f i).elim 0 w

theorem tally_update (hi : i < n) (hx : f i = some x) :
    tally w (Function.update f i (some y)) n + w x = tally w f n + w y := by
  have hmem : i ∈ Finset.range n := Finset.mem_range.mpr hi
  have hold := Finset.add_sum_erase (Finset.range n) (fun j => (f j).elim 0 w) hmem
  have hnew := Finset.add_sum_erase (Finset.range n)
    (fun j => (Function.update f i (some y) j).elim 0 w) hmem
  have hrest : ∑ j ∈ (Finset.range n).erase i, (Function.update f i (some y) j).elim 0 w =
      ∑ j ∈ (Finset.range n).erase i, (f j).elim 0 w := by
    apply Finset.sum_congr rfl
    intro j hj
    rw [Function.update_of_ne (Finset.ne_of_mem_erase hj)]
  simp only [Function.update_self, hx, Option.elim_some] at hold hnew
  simp only [tally]
  omega

theorem tally_spawn : tally w (Function.update f n (some y)) (n + 1) = tally w f n + w y := by
  rw [tally, Finset.sum_range_succ, Function.update_self]
  congr 1
  apply Finset.sum_congr rfl
  intro j hj
  rw [Function.update_of_ne (Finset.mem_range.mp hj).ne]

theorem tally_mono (h : ∀ x, w x ≤ v x) : tally w f n ≤ tally v f n := by
  apply Finset.sum_le_sum
  intro j _
  cases f j with
  | none => exact le_rfl
  | some x => exact h x

end Gearman.Tally
