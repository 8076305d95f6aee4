import Gearman.ClientDrops

/-!
# A call writes its request once

No call writes a second request, on the same connection or, after a redial, on another:
what has failed is left to the caller to repeat. A call that comes back with the server's
answer has written exactly one.
-/

namespace Gearman.Client
open Transition

/-- A result that only a reply of the server can give. -/
def Ret.replies : Ret → Bool
  | .handle _ => true
  | .echo _ => true
  | .status _ => true
  | _ => false

def Pc.replied : Pc → Bool
  | .unlock ret => ret.replies
  | .returned ret => ret.replies
  | _ => false

structure Once (s : St) : Prop where
  count : ∀ i c, (s.conns c).callers.count (some i) ≤ 1
  replied : ∀ i call, s.calls i = some call → call.pc.replied = true → ∃ c, Wrote s i c

variable {cfg : Cfg} {s t : St} {a : Act} {i c : ℕ} {call : Call} {pc : Pc}

theorem Posts.count (hp : Posts s t c) (hs : Sent s)
    (h : (s.conns c).callers.count (some i) ≤ 1) : (t.conns c).callers.count (some i) ≤ 1 := by
  cases hp with
  | same heq => rwa [heq]
  | fresh hc heq => simp [heq]
  | option heq => simpa [heq] using h
  | @written j call token deadline hcall hpc hopen ht heq =>
    rw [heq, List.count_append]
    by_cases hj : i = j
    · subst hj
      -- The call that writes has not written before.
      have hnone : (s.conns c).callers.count (some i) = 0 := by
        refine List.count_eq_zero.mpr (hs.unsent i c ?_)
        intro call' hcall'
        cases Option.some.inj (hcall.symm.trans hcall')
        rw [hpc]
        rfl
      simp [hnone]
    · simpa [Ne.symm hj] using h

theorem replies_reply {op : Op} {resp : Response} (h : (op.reply resp).replies = true) :
    op ≠ .close := by
  rintro rfl
  cases h

theorem Local.brings (hl : Local s call pc) (h : pc.replied = true) :
    call.pc.awaiting = true ∧ call.op ≠ .close := by
  cases hl with
  | replied hpc hr =>
    rw [hpc]
    exact ⟨rfl, replies_reply h⟩
  | noConn hpc hmu hc =>
    cases hop : call.op <;> simp [hop, Op.afterClose, Pc.replied, Ret.replies] at h
  | _ => cases h

theorem Shared.brings (hs : Shared t call pc) (h : pc.replied = true) :
    call.pc.replied = true := by
  cases hs with
  | unlock hpc =>
    rw [hpc]
    exact h
  | abandon hpc => cases hop : call.op <;> simp [hop, Op.afterAbandon, Pc.replied, Ret.replies] at h
  | resetEcho hpc => cases hop : call.op <;> simp [hop, Op.afterClose, Pc.replied, Ret.replies] at h
  | _ => cases h

theorem entry_replied (op : Op) : op.entry.replied = false := by
  cases op with
  | submit bg funcname data flag h id => cases bg <;> rfl
  | _ => rfl

theorem Once.move (hi : Once s) (hs : Sent s) (hm : Move cfg s a t) : Once t where
  count := fun i c => (hm.posts c).count hs (hi.count i c)
  replied := by
    intro i call' hcall' hrep
    have stays : ∀ c, Wrote s i c → ∃ c, Wrote t i c :=
      fun c hc => ⟨c, (hm.posts c).stays (hs.retired i c hc).1 hc⟩
    rcases hm.call_origin hcall' with ⟨call, hcall, hadv⟩ | ⟨-, -, hentry, -⟩
    · rcases hadv.pc with heq | hl | hsh
      · obtain ⟨c, hc⟩ := hi.replied i call hcall (heq ▸ hrep)
        exact stays c hc
      · obtain ⟨hpc, hop⟩ := hl.brings hrep
        obtain ⟨c, hc⟩ := hs.awaiting i call hcall hop hpc
        exact stays c hc
      · obtain ⟨c, hc⟩ := hi.replied i call hcall (hsh.brings hrep)
        exact stays c hc
    · rw [hentry, entry_replied] at hrep
      cases hrep

theorem once_new (cfg : Cfg) : Once (new cfg) where
  count := fun i c => (List.count_eq_zero.mpr (not_wrote_new cfg i c)).trans_le (Nat.zero_le 1)
  replied := fun i call h => by cases h

/-- The requests of a call, over all connections: none before its write, never more than one,
and exactly one when the call has come back with a reply. -/
theorem request_written_once (cfg : Cfg) (s : St) (i : ℕ)
    (h : Reachable (step cfg) always (new cfg) s) :
    (∀ c, (s.conns c).callers.count (some i) ≤ 1) ∧
    (∀ c c', Wrote s i c → Wrote s i c' → c = c') ∧
    (∀ call, s.calls i = some call → call.pc.unsent = true → ∀ c, ¬ Wrote s i c) ∧
    (∀ call, s.calls i = some call → call.pc.replied = true →
      ∃ c, (s.conns c).callers.count (some i) = 1) := by
  obtain ⟨⟨hr, hp, hs⟩, hi⟩ : (Rounds s ∧ Ports s ∧ Sent s) ∧ Once s := by
    refine h.invariant (I := fun u => (Rounds u ∧ Ports u ∧ Sent u) ∧ Once u)
      ⟨sent_reachable (.refl _), once_new cfg⟩ ?_
    rintro u act v ⟨⟨hr, hp, hs⟩, hu⟩ _ hstep
    have hm := step_move hstep
    exact ⟨⟨hr.move hm, hp.move hr.wired hm, hs.move hr hp hm⟩, hu.move hs hm⟩
  refine ⟨hi.count i, hs.unique i, ?_, ?_⟩
  · intro call hcall hun c
    refine hs.unsent i c ?_
    intro call' hcall'
    cases Option.some.inj (hcall.symm.trans hcall')
    exact hun
  · intro call hcall hrep
    obtain ⟨c, hc⟩ := hi.replied i call hcall hrep
    exact ⟨c, le_antisymm (hi.count i c) (List.count_pos_iff.mpr hc)⟩

/-- An `Echo` from its call to its return. -/
def echoedActs : List Act :=
  [.call 0 (.echo [1]), .caller 0, .caller 0, .caller 0, .caller 0, .write 0 none,
    .reader, .reader, .answer 0 0 dtEchoRes [1], .readPacket, .reader,
    .process, .process, .process, .process, .caller 0, .caller 0]

theorem request_written_once_answered :
    ∃ s, Reachable (step demoCfg) always (new demoCfg) s ∧
      (s.calls 0).map Call.pc = some (.returned (.echo (some [1]))) ∧
      ∃ c, (s.conns c).callers.count (some 0) = 1 := by
  refine ⟨_, ⟨echoedActs, rfl⟩, rfl, ?_⟩
  exact (request_written_once demoCfg _ 0 ⟨echoedActs, rfl⟩).2.2.2 _ rfl rfl

end Gearman.Client
