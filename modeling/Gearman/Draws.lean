import Mathlib.Algebra.BigOperators.Field
import Mathlib.Data.Fintype.BigOperators
import Mathlib.Data.Rat.Cast.Order
import Mathlib.Tactic

/-!
# Programs that draw uniformly below a bound

A program returns a value or draws a number below `n` and goes on with it. Draws
are independent and each outcome of a draw is equally likely, so the probability of
an event is the average over the outcomes, an exact rational. A draw below zero is
a run-time panic: it has no outcome, and its share of the probability is lost.
-/

namespace Gearman

inductive Draw (α : Type*)
  | ret (a : α)
  | draw (n : ℕ) (next : Fin n → Draw α)

namespace Draw
variable {α β : Type*}

def map (f : α → β) : Draw α → Draw β
  | .ret a => .ret (f a)
  | .draw n next => .draw n (fun i => map f (next i))

def prob (p : α → Bool) : Draw α → ℚ
  | .ret a => if p a then 1 else 0
  | .draw n next => (∑ i : Fin n, prob p (next i)) / n

theorem prob_ret (p : α → Bool) (a : α) : prob p (.ret a) = if p a then 1 else 0 := rfl

theorem prob_map (f : α → β) (p : β → Bool) (d : Draw α) :
    prob p (d.map f) = prob (fun a => p (f a)) d := by
  induction d with
  | ret a => rfl
  | draw n next ih => simp only [map, prob, ih]

/-- A draw whose outcomes all lead to the same chance changes nothing. -/
theorem prob_draw_const {n : ℕ} (hn : 0 < n) {p : α → Bool} {next : Fin n → Draw α} {q : ℚ}
    (h : ∀ i, prob p (next i) = q) : prob p (.draw n next) = q := by
  have hn' : (n : ℚ) ≠ 0 := by exact_mod_cast hn.ne'
  simp only [prob, h, Finset.sum_const, Finset.card_univ, Fintype.card_fin, nsmul_eq_mul]
  exact mul_div_cancel_left₀ q hn'

theorem prob_draw_ret {n : ℕ} (p : α → Bool) (f : Fin n → α) :
    prob p (.draw n (fun i => .ret (f i))) =
      ((Finset.univ.filter (fun i => p (f i) = true)).card : ℚ) / n := by
  simp only [prob, Finset.sum_boole]

end Draw
end Gearman
