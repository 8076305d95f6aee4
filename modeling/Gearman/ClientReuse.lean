import Gearman.ClientRouting

/-!
# Job handles that are used more than once

The map of `processLoop` is keyed by the job handle alone. A handle keeps its handler when the
connection is replaced, so a packet that a restarted server sends for another job reaches the
handler of the old one. And a second `JOB_CREATED` for a handle replaces the handler of the
first, so of two calls that the server has attached to one job only the later is told its end.
-/

namespace Gearman.Client
open Bytes Wire Transition Subscription

variable {cfg : Cfg} {s t : St} {a : Act} {x : History} {p : Packet} {q : Processed}
variable {log : List Processed} {handle : Bytes} {cb r : ℕ}

/-- The connections of the `JOB_CREATED`s for `handle` since its last terminal packet. -/
def openedOn (handle : Bytes) (log : List Processed) : List ℕ :=
  log.foldl (fun conns q =>
    if q.packet.resp.handle = handle then
      if q.packet.resp.dataType = dtJobCreated then conns ++ [q.packet.conn]
      else if isFinal q.packet.resp.dataType then [] else conns
    else conns) []

def sameConn (y : St × History) : Act → Bool
  | .process =>
    match y.1.proc with
    | .dispatch p =>
      !isJobPacket p.resp.dataType || (openedOn p.resp.handle y.2.log).all (fun c => c = p.conn)
    | _ => true
  | _ => true

theorem openedOn_concat (handle : Bytes) (log : List Processed) (q : Processed) :
    openedOn handle (log ++ [q]) =
      if q.packet.resp.handle = handle then
        if q.packet.resp.dataType = dtJobCreated then openedOn handle log ++ [q.packet.conn]
        else if isFinal q.packet.resp.dataType then [] else openedOn handle log
      else openedOn handle log := by
  simp only [openedOn, List.foldl_append, List.foldl_cons, List.foldl_nil]

theorem mem_openedOn (h : log[r]? = some q) (hreg : q.registers = some (handle, cb))
    (hlive : ((events log).drop (r + 1)).any (ends Packet.final handle) = false) :
    q.packet.conn ∈ openedOn handle log := by
  induction log using List.reverseRecOn with
  | nil => simp at h
  | append_singleton log q' ih =>
    rw [openedOn_concat]
    rcases concat_getElem?.mp h with hold | ⟨rfl, rfl⟩
    · have hev : (events log)[r]? = some q.event := by simp [events, hold]
      have hconcat : events (log ++ [q']) = events log ++ [q'.event] := by simp [events]
      rw [hconcat, drop_concat hev, List.any_append, Bool.or_eq_false_iff] at hlive
      have hmem := ih hold hlive.1
      have hend : ends Packet.final handle q'.event = false := by simpa using hlive.2
      split_ifs with hh hc hf
      · exact List.mem_append_left _ hmem
      · have hnone : q'.registers = none := by
          simp [Processed.registers, hc]
        simp [Processed.event, hnone, isJobPacket, hf, ends, hh, Packet.final] at hend
      · exact hmem
      · exact hmem
    · obtain ⟨⟨htype, hh⟩, -⟩ := registers_iff.mp hreg
      rw [if_pos hh, if_pos htype]
      exact List.mem_append_right _ (List.mem_singleton_self _)

theorem Recorded.logged (hi : Recorded s x) (hm : Move cfg s a t) :
    (x.note s a t).log = x.log ∨ ∃ q, (x.note s a t).log = x.log ++ [q] ∧ a = .process ∧
      (isJobPacket q.packet.resp.dataType = true → s.proc = .dispatch q.packet) ∧
      (q.taken.internal ≠ none → s.proc = .deliver q.taken q.packet) := by
  rcases hm.logged x with heq | ⟨q, heq, rfl, hcur, hrecv⟩
  · exact Or.inl heq
  · refine Or.inr ⟨q, heq, rfl, ?_⟩
    cases hpc : s.proc with
    | got p =>
      rw [hpc] at hcur
      cases hcur
      have hne : t.proc ≠ s.proc := by
        rw [hrecv, hpc]
        simp
      have hnot := gotStep_not_job (hm.got_step hpc hne ▸ hrecv)
      refine ⟨fun hjob => ?_, fun h => absurd rfl h⟩
      rw [hnot] at hjob
      cases hjob
    | dispatch p =>
      rw [hpc] at hcur
      cases hcur
      exact ⟨fun _ => rfl, fun h => absurd rfl h⟩
    | deliver h p =>
      rw [hpc] at hcur
      cases hcur
      refine ⟨fun hjob => ?_, fun _ => rfl⟩
      rw [hi.matched.not_job hpc] at hjob
      cases hjob
    | recv =>
      rw [hpc] at hcur
      cases hcur
    | exited =>
      rw [hpc] at hcur
      cases hcur

def SameConns (log : List Processed) (received : List (ℕ × ℕ × Packet)) : Prop :=
  ∀ r cb p q, (r, cb, p) ∈ received → log[r]? = some q → p.conn = q.packet.conn

theorem SameConns.concat (hi : SameConns log (routed log).received)
    (hg : isJobPacket q.packet.resp.dataType = true →
      ∀ c ∈ openedOn q.packet.resp.handle log, c = q.packet.conn) :
    SameConns (log ++ [q]) (routed (log ++ [q])).received := by
  intro r cb p q' hw hq'
  have hconcat : events (log ++ [q]) = events log ++ [q.event] := by simp [events]
  rw [routed, hconcat, received_concat, List.mem_append] at hw
  have hold : ∀ {handle}, (events log)[r]? = some (.subscribe handle cb) → log[r]? = some q' := by
    intro handle hsub
    rcases concat_getElem?.mp hq' with h | ⟨rfl, -⟩
    · exact h
    · simp [events] at hsub
  rcases hw with hw | hw
  · obtain ⟨handle, hsub⟩ := received_subscribed hw
    exact hi r cb p q' hw (hold hsub)
  · obtain ⟨handle, hev, ho⟩ := mem_delivery.mp hw
    obtain ⟨hsub, hlive⟩ := owner_iff.mp ho
    have hlog := hold hsub
    have hreg : q'.registers = some (handle, cb) := by
      have hr := events_getElem?.mp hsub
      rw [registration, hlog] at hr
      exact hr
    obtain ⟨hjob, rfl, rfl⟩ : isJobPacket q.packet.resp.dataType = true ∧
        q.packet.resp.handle = handle ∧ q.packet = p := by
      unfold Processed.event at hev
      split at hev
      · cases hev
      · split_ifs at hev with hj
        cases hev
        exact ⟨hj, rfl, rfl⟩
    exact (hg hjob _ (mem_openedOn hlog hreg hlive)).symm

theorem handlers_keep_connection (cfg : Cfg) (y : St × History)
    (hy : Reachable (traced (step cfg) History.note) sameConn (new cfg, {}) y) :
    ∃ received : List (ℕ × ℕ × Packet), y.1.callbacks = received.map Prod.snd ∧
      Routes y.2.log received ∧ SameConns y.2.log received := by
  have hi : Recorded y.1 y.2 ∧ SameConns y.2.log (routed y.2.log).received := by
    refine hy.invariant
      (I := fun y => Recorded y.1 y.2 ∧ SameConns y.2.log (routed y.2.log).received)
      ⟨recorded_new cfg, fun r cb p q h => by cases h⟩ ?_
    rintro ⟨s, x⟩ a ⟨t, x'⟩ ⟨hrec, hsame⟩ hg hstep
    obtain ⟨hs, hx'⟩ := traced_eq_some.mp hstep
    simp only at hs hx'
    subst hx'
    have hm := step_move hs
    refine ⟨hrec.move hm, ?_⟩
    rcases hrec.logged hm with heq | ⟨q, heq, rfl, hjob, -⟩
    · simp only [heq]
      exact hsame
    · simp only [heq]
      refine hsame.concat ?_
      intro hj
      have hpc : s.proc = .dispatch q.packet := hjob hj
      simpa [sameConn, hpc, hj] using hg
  exact ⟨_, hi.1.routed.callbacks, routes_routed y.2.log, hi.2⟩

/-- The handle of the first job is given again after a restart, when that job is done. -/
def restartActs : List Act :=
  submitActs 0 (some 7) ++ createdActs 0 0 0 ++ workActs 0 dtWorkComplete ++ redialActs ++
    [.reader] ++ submitActs 1 (some 8) ++ createdActs 1 0 1 ++ workActs 1 dtWorkComplete

theorem handlers_keep_connection_restarted :
    ∃ y, run (traced (step demoCfg) History.note) sameConn (new demoCfg, {}) restartActs = some y ∧
      y.1.callbacks.map (fun w => (w.1, w.2.conn)) = [(7, 0), (8, 1)] ∧
      ∃ received : List (ℕ × ℕ × Packet), y.1.callbacks = received.map Prod.snd ∧
        Routes y.2.log received ∧ SameConns y.2.log received := by
  have hrun : (run (traced (step demoCfg) History.note) sameConn (new demoCfg, {})
      restartActs).map (fun y => y.1.callbacks.map (fun w => (w.1, w.2.conn))) =
      some [(7, 0), (8, 1)] := by decide +kernel
  obtain ⟨y, hy, hcallbacks⟩ := Option.map_eq_some_iff.mp hrun
  exact ⟨y, hy, hcallbacks, handlers_keep_connection demoCfg y ⟨_, hy⟩⟩

/-- The server is restarted and gives the handle of the first job to another one, which was
submitted without a handler. -/
theorem handler_crosses_connections :
    ∃ y, Reachable (traced (step demoCfg) History.note) always (new demoCfg, {}) y ∧
      y.1.callbacks.map (fun w => (w.1, w.2.conn)) = [(7, 1)] ∧
      (registration y.2.log 0, (y.2.log[0]?).map (fun q => q.packet.conn)) =
        (some ([72], 7), some 0) ∧
      ∀ received : List (ℕ × ℕ × Packet), y.1.callbacks = received.map Prod.snd →
        Routes y.2.log received → ¬ SameConns y.2.log received := by
  obtain ⟨y, p, q, q₁, q₂, hy, hcallbacks, hlog, hreg, hreg₁, hreg₂, hp, hq⟩ : ∃ y p q q₁ q₂,
      run (traced (step demoCfg) History.note) always (new demoCfg, {})
        (submitActs 0 (some 7) ++ createdActs 0 0 0 ++ redialActs ++ [.reader] ++
          submitActs 1 none ++ createdActs 1 0 1 ++ workActs 1 dtWorkComplete) = some y ∧
      y.1.callbacks = [(7, p)] ∧ y.2.log = [q, q₁, q₂] ∧ q.registers = some ([72], 7) ∧
      q₁.registers = none ∧ q₂.registers = none ∧ p.conn = 1 ∧ q.packet.conn = 0 :=
    ⟨_, _, _, _, _, rfl, rfl, rfl, rfl, rfl, rfl, rfl, rfl⟩
  refine ⟨y, ⟨_, hy⟩, by simp [hcallbacks, hp], by simp [registration, hlog, hreg, hq], ?_⟩
  intro received hcb hroutes hsame
  rw [hcallbacks] at hcb
  obtain ⟨⟨r, cb, p'⟩, rfl, hw⟩ := List.map_eq_singleton_iff.mp hcb.symm
  cases hw
  obtain ⟨handle, hr⟩ := hroutes.registered r 7 p (List.mem_singleton_self _)
  have hzero : r = 0 := by
    rw [hlog] at hr
    rcases r with _ | _ | _ | n
    · rfl
    · simp [registration, hreg₁] at hr
    · simp [registration, hreg₂] at hr
    · simp [registration] at hr
  subst hzero
  have heq := hsame 0 7 p q (List.mem_singleton_self _) (by simp [hlog])
  rw [hp, hq] at heq
  cases heq

def unshared (y : St × History) : Act → Bool
  | .process =>
    match y.1.proc with
    | .deliver h p =>
      h.internal.isNone || h.external.isNone ||
        (p.resp.handle ≠ [] && (y.1.rhandlers.lookup p.resp.handle).isNone)
    | _ => true
  | _ => true

def kinds (log : List Processed) : List (UInt32 × Bytes) :=
  log.map (fun q => (q.packet.resp.dataType, q.packet.resp.handle))

def created (handle : Bytes) (w : UInt32 × Bytes) : Bool := w.1 = dtJobCreated && w.2 = handle

def ended (handle : Bytes) (w : UInt32 × Bytes) : Bool := isFinal w.1 && w.2 = handle

structure Settled (ws : List (UInt32 × Bytes)) : Prop where
  each : ∀ handle n, (ws.take n).countP (ended handle) ≤ (ws.take n).countP (created handle)
  all : ∀ handle, ws.countP (ended handle) = ws.countP (created handle)

def Completed (log : List Processed) (received : List (ℕ × ℕ × Packet)) (i : ℕ) (handle : Bytes)
    (cb : ℕ) : Prop :=
  ∃ r q p, log[r]? = some q ∧ q.taken.internal = some i ∧ q.registers = some (handle, cb) ∧
    (r, cb, p) ∈ received ∧ isFinal p.resp.dataType = true ∧ p.resp.handle = handle

theorem Settled.ended_after {ws : List (UInt32 × Bytes)} (h : Settled ws)
    (hr : ws[r]? = some (dtJobCreated, handle)) : ∃ w ∈ ws.drop (r + 1), ended handle w = true := by
  by_contra hnone
  have hdrop : (ws.drop (r + 1)).countP (ended handle) = 0 := by
    rw [List.countP_eq_zero]
    intro w hw hend
    exact hnone ⟨w, hw, hend⟩
  have htake : ws.take (r + 1) = ws.take r ++ [(dtJobCreated, handle)] := by
    rw [List.take_add_one, hr, Option.toList_some]
  have hnot : ended handle (dtJobCreated, handle) = false := by
    simp [ended, show isFinal dtJobCreated = false by decide]
  have hyes : created handle (dtJobCreated, handle) = true := by simp [created]
  have hsplit : ∀ P : UInt32 × Bytes → Bool, ws.countP P =
      (ws.take r).countP P + (if P (dtJobCreated, handle) then 1 else 0) +
        (ws.drop (r + 1)).countP P := by
    intro P
    conv_lhs => rw [← List.take_append_drop (r + 1) ws, List.countP_append, htake,
      List.countP_append, List.countP_singleton]
  have hends := hsplit (ended handle)
  have hcreated := hsplit (created handle)
  rw [hnot, hdrop] at hends
  rw [hyes] at hcreated
  have heach := h.each handle r
  have hall := h.all handle
  simp only [Bool.false_eq_true, if_false, if_true] at hends hcreated
  omega

structure Exclusive (log : List Processed) : Prop where
  free : ∀ n handle cb, registration log n = some (handle, cb) →
    (routed (log.take n)).owner handle = none
  named : ∀ q ∈ log, q.packet.resp.dataType = dtJobCreated → q.taken.internal.isSome = true →
    q.taken.external.isSome = true → q.packet.resp.handle ≠ []

theorem Exclusive.concat (hi : Exclusive log)
    (hfree : ∀ handle cb, q.registers = some (handle, cb) → (routed log).owner handle = none)
    (hnamed : q.packet.resp.dataType = dtJobCreated → q.taken.internal.isSome = true →
      q.taken.external.isSome = true → q.packet.resp.handle ≠ []) : Exclusive (log ++ [q]) := by
  refine ⟨?_, ?_⟩
  · intro n handle cb hreg
    obtain ⟨q', hq', hr⟩ := Option.bind_eq_some_iff.mp hreg
    rcases concat_getElem?.mp hq' with hold | ⟨rfl, rfl⟩
    · obtain ⟨hn, -⟩ := List.getElem?_eq_some_iff.mp hold
      rw [List.take_append_of_le_length hn.le]
      exact hi.free n handle cb (by rw [registration, hold]; exact hr)
    · rw [List.take_left]
      exact hfree handle cb hr
  · intro q' hq'
    rcases List.mem_append.mp hq' with hold | hnew
    · exact hi.named q' hold
    · cases List.mem_singleton.mp hnew
      exact hnamed

theorem mem_jobPackets {log : List Processed} (h : p ∈ jobPackets handle log) :
    p.resp.handle = handle := by
  induction log with
  | nil => cases h
  | cons q rest ih =>
    rw [jobPackets] at h
    split_ifs at h with hreg hjob hfinal
    · cases h
    · rw [List.mem_singleton] at h
      rw [h]
      exact hjob.2
    · rcases List.mem_cons.mp h with rfl | h
      · exact hjob.2
      · exact ih h
    · exact ih h

theorem event_of_ended (h : ended handle (q.packet.resp.dataType, q.packet.resp.handle) = true) :
    q.event = .message handle q.packet ∧ q.packet.final = true := by
  obtain ⟨hf, hh⟩ : isFinal q.packet.resp.dataType = true ∧ q.packet.resp.handle = handle := by
    simpa [ended] using h
  have hnone : q.registers = none := by
    have hne : q.packet.resp.dataType ≠ dtJobCreated := by
      intro htype
      rw [htype] at hf
      exact absurd hf (by decide)
    simp [Processed.registers, hne]
  exact ⟨by simp [Processed.event, hnone, isJobPacket, hf, hh], hf⟩

theorem Exclusive.completed (hi : Exclusive log) (hs : Settled (kinds log)) {i : ℕ}
    (hq : log[r]? = some q) (hint : q.taken.internal = some i)
    (hreg : q.registers = some (handle, cb)) :
    Completed log (routed log).received i handle cb := by
  obtain ⟨⟨htype, hhandle⟩, -⟩ := registers_iff.mp hreg
  have hkind : (kinds log)[r]? = some (dtJobCreated, handle) := by
    simp [kinds, hq, htype, hhandle]
  obtain ⟨w, hw, hend⟩ := hs.ended_after hkind
  rw [kinds, ← List.map_drop] at hw
  obtain ⟨q', hq', rfl⟩ := List.mem_map.mp hw
  obtain ⟨hev, hfinal⟩ := event_of_ended hend
  have hmem : .message handle q'.packet ∈ (events log).drop (r + 1) := by
    rw [events, ← List.map_drop]
    exact List.mem_map.mpr ⟨q', hq', hev⟩
  have hsub : registration log r = some (handle, cb) := by rw [registration, hq]; exact hreg
  have hfree : ∀ n cb', (events log)[n]? = some (.subscribe handle cb') →
      (desk Packet.final ((events log).take n)).owner handle = none := by
    intro n cb' hn
    rw [events, ← List.map_take]
    exact hi.free n handle cb' (events_getElem?.mp hn)
  obtain ⟨p, hpf, hpw⟩ := final_received hfree (events_getElem?.mpr hsub) hfinal hmem
  rw [events, ← List.map_drop] at hpw
  have hpw' : p ∈ jobPackets handle (log.drop (r + 1)) := by
    rw [jobPackets_eq_window]
    exact hpw
  have hp := hpw'
  rw [← (routes_routed log).exact r handle cb hsub] at hpw'
  obtain ⟨⟨r', cb', p'⟩, hfilter, rfl⟩ := List.mem_map.mp hpw'
  obtain ⟨hin, hr'⟩ := List.mem_filter.mp hfilter
  cases of_decide_eq_true hr'
  obtain ⟨handle', hsub'⟩ := (routes_routed log).registered r' cb' p' hin
  cases hsub.symm.trans hsub'
  exact ⟨r', q, p', hq, hint, hreg, hin, hpf, mem_jobPackets hp⟩

theorem Exclusive.run {y : St × History}
    (hy : Reachable (traced (step cfg) History.note) unshared (new cfg, {}) y) :
    Recorded y.1 y.2 ∧ Exclusive y.2.log := by
  refine hy.invariant (I := fun y => Recorded y.1 y.2 ∧ Exclusive y.2.log)
    ⟨recorded_new cfg, ⟨fun n handle cb h => (by cases h), fun q h => (by cases h)⟩⟩ ?_
  rintro ⟨s, x⟩ a ⟨t, x'⟩ ⟨hrec, hexcl⟩ hg hstep
  obtain ⟨hs, hx'⟩ := traced_eq_some.mp hstep
  simp only at hs hx'
  subst hx'
  have hm := step_move hs
  refine ⟨hrec.move hm, ?_⟩
  rcases hrec.logged hm with heq | ⟨q, heq, rfl, -, hdel⟩
  · simp only [heq]
    exact hexcl
  · simp only [heq]
    have hfree : q.taken.internal.isSome = true → q.taken.external.isSome = true →
        q.packet.resp.handle ≠ [] ∧ s.rhandlers.lookup q.packet.resp.handle = none := by
      intro hint hext
      have hpc : s.proc = .deliver q.taken q.packet := hdel (Option.isSome_iff_ne_none.mp hint)
      simpa [unshared, hpc, Option.isNone_iff_eq_none, Option.isSome_iff_ne_none.mp hint,
        Option.isSome_iff_ne_none.mp hext] using hg
    refine hexcl.concat ?_ (fun _ hint hext => (hfree hint hext).1)
    intro handle cb hreg
    obtain ⟨⟨-, rfl⟩, -, hint, hext⟩ := registers_iff.mp hreg
    have hnone := (hfree hint (by simp [hext])).2
    rw [hrec.routed.owner] at hnone
    exact Option.map_eq_none_iff.mp hnone

theorem coalesced_jobs_complete (cfg : Cfg) (y : St × History)
    (hy : Reachable (traced (step cfg) History.note) unshared (new cfg, {}) y)
    (hs : Settled (kinds y.2.log)) :
    ∃ received : List (ℕ × ℕ × Packet), y.1.callbacks = received.map Prod.snd ∧
      Routes y.2.log received ∧
      ∀ i call funcname data flag cb id handle, y.1.calls i = some call →
        call.op = .submit false funcname data flag (some cb) id →
        call.pc = .returned (.handle handle) → Completed y.2.log received i handle cb := by
  obtain ⟨hrec, hexcl⟩ := Exclusive.run hy
  refine ⟨_, hrec.routed.callbacks, routes_routed y.2.log, ?_⟩
  intro i call funcname data flag cb id handle hcall hop hpc
  obtain ⟨p, ⟨q, hq, rfl, hint, hext, hslot⟩, hret⟩ :=
    hrec.filed.rets i call (.handle handle) hcall (by rw [hpc]; rfl) rfl
  have htype : q.packet.resp.dataType = dtJobCreated := (hslot .created).mp (by rw [hop]; rfl)
  have hhandle : q.packet.resp.handle = handle := by
    have hne : q.packet.resp.dataType ≠ dtError := by
      rw [htype]
      decide
    simp only [hop, Op.reply, if_neg hne] at hret
    exact (Ret.handle.inj hret).symm
  have hcb : q.taken.external = some cb := by
    rw [hext, hop]
    rfl
  have hsome : q.taken.internal.isSome = true := by simp [hint]
  have hnamed := hexcl.named q hq htype hsome (by simp [hcb])
  obtain ⟨r, hr⟩ := List.mem_iff_getElem?.mp hq
  exact hexcl.completed hs hr hint
    (registers_iff.mpr ⟨⟨htype, hhandle⟩, hhandle ▸ hnamed, hsome, hcb⟩)

theorem Settled.of_single {ws : List (UInt32 × Bytes)} (handle : Bytes)
    (h : ∀ w ∈ ws, w.2 = handle)
    (heach : ∀ n < ws.length,
      (ws.take n).countP (ended handle) ≤ (ws.take n).countP (created handle))
    (hall : ws.countP (ended handle) = ws.countP (created handle)) : Settled ws := by
  have hzero : ∀ {handle'}, handle' ≠ handle → ∀ vs, vs ⊆ ws →
      vs.countP (ended handle') = 0 ∧ vs.countP (created handle') = 0 := by
    intro handle' hne vs hsub
    have hw : ∀ w ∈ vs, w.2 ≠ handle' := fun w hw heq => hne (heq.symm.trans (h w (hsub hw)))
    constructor <;> rw [List.countP_eq_zero] <;> intro w hmem
    · simp [ended, hw w hmem]
    · simp [created, hw w hmem]
  refine ⟨?_, ?_⟩
  · intro handle' n
    by_cases hh : handle' = handle
    · subst hh
      by_cases hn : n < ws.length
      · exact heach n hn
      · rw [List.take_of_length_le (Nat.le_of_not_lt hn)]
        exact hall.le
    · exact (hzero hh _ (List.take_subset n ws)).1.trans_le (Nat.zero_le _)
  · intro handle'
    by_cases hh : handle' = handle
    · subst hh
      exact hall
    · obtain ⟨hends, hcreated⟩ := hzero hh ws (List.Subset.refl ws)
      rw [hends, hcreated]

theorem coalesced_jobs_complete_in_turn :
    ∃ y, run (traced (step demoCfg) History.note) unshared (new demoCfg, {})
      (submitActs 0 (some 7) ++ createdActs 0 0 0 ++ workActs 0 dtWorkComplete ++
        submitActs 1 (some 8) ++ createdActs 0 1 1 ++ workActs 0 dtWorkComplete) = some y ∧
      Settled (kinds y.2.log) ∧
      ∃ received : List (ℕ × ℕ × Packet), y.1.callbacks = received.map Prod.snd ∧
        Completed y.2.log received 0 [72] 7 ∧ Completed y.2.log received 1 [72] 8 := by
  obtain ⟨y, call, call', hy, hkinds, hcall, hop, hpc, hcall', hop', hpc'⟩ : ∃ y call call',
      run (traced (step demoCfg) History.note) unshared (new demoCfg, {})
        (submitActs 0 (some 7) ++ createdActs 0 0 0 ++ workActs 0 dtWorkComplete ++
          submitActs 1 (some 8) ++ createdActs 0 1 1 ++ workActs 0 dtWorkComplete) = some y ∧
      kinds y.2.log = [(dtJobCreated, [72]), (dtWorkComplete, [72]), (dtJobCreated, [72]),
        (dtWorkComplete, [72])] ∧
      y.1.calls 0 = some call ∧ call.op = .submit false [102] [] 0 (some 7) [117] ∧
      call.pc = .returned (.handle [72]) ∧
      y.1.calls 1 = some call' ∧ call'.op = .submit false [102] [] 0 (some 8) [117] ∧
      call'.pc = .returned (.handle [72]) :=
    ⟨_, _, _, rfl, rfl, rfl, rfl, rfl, rfl, rfl, rfl⟩
  have hs : Settled (kinds y.2.log) := by
    rw [hkinds]
    exact .of_single [72] (by decide) (by decide) (by decide)
  obtain ⟨received, hcb, -, hdone⟩ := coalesced_jobs_complete demoCfg y ⟨_, hy⟩ hs
  exact ⟨y, hy, hs, received, hcb, hdone 0 call _ _ _ 7 _ [72] hcall hop hpc,
    hdone 1 call' _ _ _ 8 _ [72] hcall' hop' hpc'⟩

/-- Two calls that get one handle while its job runs: the handler of the first is replaced, and
the second terminal packet finds none. -/
theorem coalesced_job_lost :
    ∃ y, Reachable (traced (step demoCfg) History.note) always (new demoCfg, {}) y ∧
      y.1.nconn = 1 ∧ Settled (kinds y.2.log) ∧
      (y.1.calls 0).map (fun call => (call.op.external, call.pc.ret)) =
        some (some 7, some (.handle [72])) ∧
      y.1.callbacks.map Prod.fst = [8] := by
  obtain ⟨y, hy, hkinds, hconn, hcall, hcallbacks⟩ : ∃ y,
      run (traced (step demoCfg) History.note) always (new demoCfg, {})
        (submitActs 0 (some 7) ++ createdActs 0 0 0 ++ submitActs 1 (some 8) ++
          createdActs 0 1 1 ++ workActs 0 dtWorkComplete ++ workActs 0 dtWorkComplete) = some y ∧
      kinds y.2.log = [(dtJobCreated, [72]), (dtJobCreated, [72]), (dtWorkComplete, [72]),
        (dtWorkComplete, [72])] ∧
      y.1.nconn = 1 ∧
      (y.1.calls 0).map (fun call => (call.op.external, call.pc.ret)) =
        some (some 7, some (.handle [72])) ∧
      y.1.callbacks.map Prod.fst = [8] :=
    ⟨_, rfl, rfl, rfl, rfl, rfl⟩
  have hs : Settled (kinds y.2.log) := by
    rw [hkinds]
    exact .of_single [72] (by decide) (by decide) (by decide)
  exact ⟨y, ⟨_, hy⟩, hconn, hs, hcall, hcallbacks⟩

end Gearman.Client
