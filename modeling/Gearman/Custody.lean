import Gearman.Transition

/-!
# What the processes of a table hold

`held g f` is the table of what each process of the table `f` holds, if `g` reads it off
a process. Something with a key is held by one process at a time: it is taken under a key
that nobody holds, dropped, or handed to another process.
-/

namespace Gearman.Custody
open Transition
variable {ι σ ρ κ : Type*}

def held (g : σ → Option ρ) (f : ι → Option σ) (i : ι) : Option ρ := (f i).bind g

/-- No two processes hold something of one key. -/
def Exclusive (key : ρ → κ) (h : ι → Option ρ) : Prop :=
  ∀ i j p q, h i = some p → h j = some q → key p = key q → i = j

variable {g : σ → Option ρ} {f : ι → Option σ} {i j : ι} {x y : σ}

theorem held_of_eq (h : f i = some x) : held g f i = g x := by
  rw [held, h, Option.bind_some]

theorem held_eq_some {p : ρ} (h : held g f i = some p) : ∃ x, f i = some x ∧ g x = some p :=
  Option.bind_eq_some_iff.mp h

variable [DecidableEq ι]

theorem held_update (g : σ → Option ρ) (f : ι → Option σ) (i : ι) (x : σ) :
    held g (Function.update f i (some x)) = Function.update (held g f) i (g x) := by
  funext j
  by_cases hj : j = i
  · subst hj
    simp [held]
  · simp [held, Function.update_of_ne hj]

theorem held_update_same (h : f i = some y) (hg : g x = g y) :
    held g (Function.update f i (some x)) = held g f := by
  have hy : held g f i = g y := held_of_eq h
  rw [held_update, hg, ← hy, Function.update_eq_self]

theorem held_update_new (h : f i = none) (hg : g x = none) :
    held g (Function.update f i (some x)) = held g f := by
  have hn : held g f i = none := by rw [held, h, Option.bind_none]
  rw [held_update, hg, ← hn, Function.update_eq_self]

variable {key : ρ → κ} {h : ι → Option ρ} {p : ρ}

theorem Exclusive.take (hx : Exclusive key h) (hnew : ∀ j q, h j = some q → key q ≠ key p) :
    Exclusive key (Function.update h i (some p)) := by
  intro j j' q q' hj hj' hk
  rcases update_eq_some hj with ⟨hji, rfl⟩ | ⟨-, hold⟩
  · rcases update_eq_some hj' with ⟨hji', -⟩ | ⟨-, hold'⟩
    · exact hji.trans hji'.symm
    · exact absurd hk.symm (hnew j' q' hold')
  · rcases update_eq_some hj' with ⟨-, rfl⟩ | ⟨-, hold'⟩
    · exact absurd hk (hnew j q hold)
    · exact hx j j' q q' hold hold' hk

theorem update_none_eq_some (hj : Function.update h i none j = some p) : j ≠ i ∧ h j = some p := by
  by_cases hji : j = i
  · subst hji
    simp at hj
  · exact ⟨hji, by rwa [Function.update_of_ne hji] at hj⟩

/-- A process that moves has dropped what it held, or holds the same. -/
theorem held_of_update {p : ρ} (h : f i = some y) (hg : g x = none ∨ g x = g y)
    (hp : held g (Function.update f i (some x)) j = some p) : held g f j = some p := by
  rcases hg with hn | heq
  · rw [held_update, hn] at hp
    exact (update_none_eq_some hp).2
  · rwa [held_update_same h heq] at hp

theorem held_of_new {p : ρ} (hg : g x = none)
    (hp : held g (Function.update f i (some x)) j = some p) : held g f j = some p := by
  rw [held_update, hg] at hp
  exact (update_none_eq_some hp).2

theorem Exclusive.drop (hx : Exclusive key h) (i : ι) :
    Exclusive key (Function.update h i none) := by
  intro j j' q q' hj hj' hk
  exact hx j j' q q' (update_none_eq_some hj).2 (update_none_eq_some hj').2 hk

/-- Process `i` hands what it holds to process `j`, which may hold it in another way. -/
theorem Exclusive.hand {q : ρ} (hx : Exclusive key h) (hi : h i = some p) (hk : key q = key p)
    (j : ι) : Exclusive key (Function.update (Function.update h i none) j (some q)) := by
  refine (hx.drop i).take ?_
  intro j' r hr hkey
  obtain ⟨hne, hr⟩ := update_none_eq_some hr
  exact hne (hx j' i r p hr hi (hkey.trans hk))

end Gearman.Custody
