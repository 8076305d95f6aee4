import Gearman.Transition

/-!
# Forward simulation between guarded machines

A relation between the states of two machines is a simulation if every allowed step of
the first is answered by a run of the second, possibly an empty one. Whole runs are
then answered too.
-/

namespace Gearman.Transition
variable {σ τ α β : Type*}

def Simulates (step : σ → α → Option σ) (allow : σ → α → Bool) (step' : τ → β → Option τ)
    (allow' : τ → β → Bool) (R : σ → τ → Prop) : Prop :=
  ∀ s a s' t, R s t → allow s a = true → step s a = some s' →
    ∃ t', Reachable step' allow' t t' ∧ R s' t'

variable {step : σ → α → Option σ} {allow : σ → α → Bool} {step' : τ → β → Option τ}
variable {allow' : τ → β → Bool} {R : σ → τ → Prop}

theorem Simulates.run (h : Simulates step allow step' allow' R) {as : List α} {s s' : σ} {t : τ}
    (hrun : run step allow s as = some s') (hR : R s t) :
    ∃ t', Reachable step' allow' t t' ∧ R s' t' := by
  induction as generalizing s t with
  | nil =>
    cases hrun
    exact ⟨t, .refl t, hR⟩
  | cons a as ih =>
    obtain ⟨ha, u, hu, hrest⟩ := run_cons_eq_some.mp hrun
    obtain ⟨v, hv, hRv⟩ := h s a u t hR ha hu
    obtain ⟨t', ht', hR'⟩ := ih hrest hRv
    exact ⟨t', hv.trans ht', hR'⟩

end Gearman.Transition
