import Mathlib.Tactic

/-!
# Guarded runs of a partial step function

`step s a` is `none` when the action is not enabled. A run is a finite list of
actions, each of them also allowed by a guard on the state before the step, so a
theorem about all runs that keep a condition is a theorem about the guarded runs.
An invariant is proved once for the start and once for a single step.

A history variable records what a run has done without changing what it can do:
`traced` carries one beside the state.
-/

namespace Gearman.Transition
variable {σ α : Type*}

def run (step : σ → α → Option σ) (allow : σ → α → Bool) : σ → List α → Option σ
  | s, [] => some s
  | s, a :: as => if allow s a then (step s a).bind (run step allow · as) else none

def always : σ → α → Bool := fun _ _ => true

def Reachable (step : σ → α → Option σ) (allow : σ → α → Bool) (s t : σ) : Prop :=
  ∃ as, run step allow s as = some t

variable {step : σ → α → Option σ} {allow : σ → α → Bool} {s t u : σ}

theorem run_cons_eq_some {a : α} {as : List α} :
    run step allow s (a :: as) = some t ↔
      allow s a = true ∧ ∃ u, step s a = some u ∧ run step allow u as = some t := by
  simp [run, Option.bind_eq_some_iff]

theorem run_append_iff {as bs : List α} :
    run step allow s (as ++ bs) = some u ↔
      ∃ t, run step allow s as = some t ∧ run step allow t bs = some u := by
  induction as generalizing s with
  | nil => simp [run]
  | cons a as ih =>
    rw [List.cons_append, run_cons_eq_some]
    constructor
    · rintro ⟨ha, v, hv, hrest⟩
      obtain ⟨t, ht, hu⟩ := ih.mp hrest
      exact ⟨t, run_cons_eq_some.mpr ⟨ha, v, hv, ht⟩, hu⟩
    · rintro ⟨t, ht, hu⟩
      obtain ⟨ha, v, hv, hrest⟩ := run_cons_eq_some.mp ht
      exact ⟨ha, v, hv, ih.mpr ⟨t, hrest, hu⟩⟩

theorem run_append {as bs : List α} (h : run step allow s as = some t)
    (h' : run step allow t bs = some u) : run step allow s (as ++ bs) = some u :=
  run_append_iff.mpr ⟨t, h, h'⟩

theorem run_single {a : α} (ha : allow s a = true) (h : step s a = some t) :
    run step allow s [a] = some t := run_cons_eq_some.mpr ⟨ha, t, h, rfl⟩

theorem run_invariant {I : σ → Prop}
    (hstep : ∀ s a t, I s → allow s a = true → step s a = some t → I t)
    {as : List α} (h : run step allow s as = some t) (h₀ : I s) : I t := by
  induction as generalizing s with
  | nil =>
    cases h
    exact h₀
  | cons a as ih =>
    obtain ⟨ha, v, hv, hrest⟩ := run_cons_eq_some.mp h
    exact ih hrest (hstep s a v h₀ ha hv)

theorem Reachable.refl (s : σ) : Reachable step allow s s := ⟨[], rfl⟩

theorem Reachable.trans (h : Reachable step allow s t) (h' : Reachable step allow t u) :
    Reachable step allow s u := by
  obtain ⟨as, has⟩ := h
  obtain ⟨bs, hbs⟩ := h'
  exact ⟨as ++ bs, run_append has hbs⟩

theorem Reachable.single {a : α} (ha : allow s a = true) (h : step s a = some t) :
    Reachable step allow s t := ⟨[a], run_single ha h⟩

theorem Reachable.head {a : α} (ha : allow s a = true) (h : step s a = some t)
    (h' : Reachable step allow t u) : Reachable step allow s u :=
  (Reachable.single ha h).trans h'

theorem Reachable.invariant {I : σ → Prop} (h : Reachable step allow s t) (h₀ : I s)
    (hstep : ∀ s a t, I s → allow s a = true → step s a = some t → I t) : I t := by
  obtain ⟨as, has⟩ := h
  exact run_invariant hstep has h₀

variable {η : Type*}

/-- The machine beside a history variable that `note` brings up to date. -/
def traced (step : σ → α → Option σ) (note : η → σ → α → σ → η) (x : σ × η) (a : α) :
    Option (σ × η) :=
  (step x.1 a).map (fun t => (t, note x.2 x.1 a t))

variable {note : η → σ → α → σ → η} {x y : σ × η}

theorem traced_eq_some {a : α} :
    traced step note x a = some y ↔ step x.1 a = some y.1 ∧ y.2 = note x.2 x.1 a y.1 := by
  constructor
  · intro h
    obtain ⟨t, ht, rfl⟩ := Option.map_eq_some_iff.mp h
    exact ⟨ht, rfl⟩
  · rintro ⟨ht, hy⟩
    exact Option.map_eq_some_iff.mpr ⟨y.1, ht, Prod.ext rfl hy.symm⟩

/-- The entries of a table of processes after one of them has moved. -/
theorem update_eq_some {ι : Type*} [DecidableEq ι] {f : ι → Option σ} {i j : ι}
    (h : Function.update f i (some s) j = some t) : (j = i ∧ t = s) ∨ (j ≠ i ∧ f j = some t) := by
  by_cases hj : j = i
  · subst hj
    rw [Function.update_self] at h
    exact Or.inl ⟨rfl, (Option.some.inj h).symm⟩
  · rw [Function.update_of_ne hj] at h
    exact Or.inr ⟨hj, h⟩

/-- What holds of every entry of a table, and of the new one, when one of them has moved. -/
theorem forall_update {ι : Type*} [DecidableEq ι] {f : ι → Option σ} {i : ι} {P : ι → σ → Prop}
    (hnew : P i s) (hf : ∀ j t, f j = some t → P j t) (j : ι) (t : σ)
    (h : Function.update f i (some s) j = some t) : P j t := by
  rcases update_eq_some h with ⟨rfl, rfl⟩ | ⟨-, hold⟩
  · exact hnew
  · exact hf j t hold

theorem eq_of_update_ne {ι : Type*} [DecidableEq ι] {f : ι → Option σ} {i j : ι}
    (h : Function.update f i (some s) j = some t) (hne : f j ≠ some t) : j = i ∧ t = s :=
  (update_eq_some h).resolve_right (fun hold => hne hold.2)

end Gearman.Transition
