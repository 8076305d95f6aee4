import Gearman.ClientHistory
import Gearman.Subscription

/-!
# Which handler the packets of a job reach

`processLoop` keeps the handlers of the running jobs in a map by job handle. A `JOB_CREATED`
that is matched with a handler enters it, a terminal packet deletes it. This is a desk of
subscriptions, so each registration is invoked on exactly its window of the packets.
-/

namespace Gearman.Client
open Bytes Wire Transition Subscription

def isJobPacket (dataType : UInt32) : Bool := isProgress dataType || isFinal dataType

/-- The job handle and the handler that a `JOB_CREATED` has entered into the map. -/
def Processed.registers (q : Processed) : Option (Bytes × ℕ) :=
  if q.packet.resp.dataType = dtJobCreated ∧ q.taken.internal.isSome ∧ q.packet.resp.handle ≠ []
  then q.taken.external.map (fun cb => (q.packet.resp.handle, cb))
  else none

def registration (log : List Processed) (r : ℕ) : Option (Bytes × ℕ) :=
  (log[r]?).bind Processed.registers

/-- Of the packets processed after a registration for `handle`, those that belong to it. -/
def jobPackets (handle : Bytes) : List Processed → List Packet
  | [] => []
  | q :: rest =>
    if q.registers.any (fun w => w.1 = handle) then []
    else if isJobPacket q.packet.resp.dataType ∧ q.packet.resp.handle = handle then
      q.packet :: if isFinal q.packet.resp.dataType then [] else jobPackets handle rest
    else jobPackets handle rest

/-- The invocations, each with the position of its registration. -/
structure Routes (log : List Processed) (received : List (ℕ × ℕ × Packet)) : Prop where
  registered : ∀ r cb p, (r, cb, p) ∈ received → ∃ handle, registration log r = some (handle, cb)
  exact : ∀ r handle cb, registration log r = some (handle, cb) →
    (received.filter (fun w => w.1 = r)).map (fun w => w.2.2) =
      jobPackets handle (log.drop (r + 1))

def Packet.final (p : Packet) : Bool := isFinal p.resp.dataType

def Processed.event (q : Processed) : Event Bytes ℕ Packet :=
  match q.registers with
  | some (handle, cb) => .subscribe handle cb
  | none =>
    if isJobPacket q.packet.resp.dataType then .message q.packet.resp.handle q.packet else .skip

def events (log : List Processed) : List (Event Bytes ℕ Packet) := log.map Processed.event

def routed (log : List Processed) : Desk Bytes ℕ Packet := desk Packet.final (events log)

variable {cfg : Cfg} {s t : St} {a : Act} {x : History} {p : Packet} {q : Processed}
variable {log : List Processed} {handle : Bytes} {cb r : ℕ}

theorem event_of_registers (h : q.registers = some (handle, cb)) :
    q.event = .subscribe handle cb := by
  rw [Processed.event, h]

theorem event_subscribe : q.event = .subscribe handle cb ↔ q.registers = some (handle, cb) := by
  constructor
  · intro h
    unfold Processed.event at h
    split at h
    · rename_i heq
      cases h
      exact heq
    · split_ifs at h
  · exact event_of_registers

theorem registers_iff : q.registers = some (handle, cb) ↔
    (q.packet.resp.dataType = dtJobCreated ∧ q.packet.resp.handle = handle) ∧ handle ≠ [] ∧
      q.taken.internal.isSome = true ∧ q.taken.external = some cb := by
  unfold Processed.registers
  split_ifs with hc
  · simp only [Option.map_eq_some_iff, Prod.mk.injEq, hc.1, true_and]
    constructor
    · rintro ⟨cb', hcb, hh, rfl⟩
      exact ⟨hh, hh ▸ hc.2.2, hc.2.1, hcb⟩
    · rintro ⟨hh, -, -, hcb⟩
      exact ⟨cb, hcb, hh, rfl⟩
  · simp only [false_iff]
    rintro ⟨⟨htype, rfl⟩, hh, hint, -⟩
    exact hc ⟨htype, hint, hh⟩

theorem jobPackets_eq_window (handle : Bytes) (log : List Processed) :
    jobPackets handle log = window Packet.final handle (events log) := by
  induction log with
  | nil => rfl
  | cons q rest ih =>
    have hrest : jobPackets handle rest =
        window Packet.final handle (rest.map Processed.event) := ih
    simp only [jobPackets, events, List.map_cons, window, hrest]
    cases hreg : q.registers with
    | some w =>
      obtain ⟨handle', cb⟩ := w
      by_cases hh : handle' = handle
      · simp [event_of_registers hreg, carries, ends, hh]
      · have hne : ¬ (isJobPacket q.packet.resp.dataType = true ∧
            q.packet.resp.handle = handle) := by
          rw [(registers_iff.mp hreg).1.2]
          exact fun h => hh h.2
        simp [event_of_registers hreg, carries, ends, hh, hne]
    | none =>
      cases hjob : isJobPacket q.packet.resp.dataType with
      | false => simp [Processed.event, hreg, hjob, carries, ends]
      | true =>
        by_cases hh : q.packet.resp.handle = handle
        · simp [Processed.event, hreg, hjob, carries, ends, hh, Packet.final]
        · simp [Processed.event, hreg, hjob, carries, ends, hh]

structure Routed (s : St) (log : List Processed) : Prop where
  owner : ∀ handle, s.rhandlers.lookup handle = ((routed log).owner handle).map Prod.snd
  callbacks : s.callbacks = (routed log).received.map Prod.snd

theorem routed_concat (log : List Processed) (q : Processed) :
    routed (log ++ [q]) = (routed log).take Packet.final q.event := by
  simp only [routed, events, List.map_append, List.map_singleton, desk_concat]

theorem Routed.keep (hi : Routed s log) (hr : t.rhandlers = s.rhandlers)
    (hc : t.callbacks = s.callbacks) : Routed t log :=
  ⟨fun handle => hr ▸ hi.owner handle, hc ▸ hi.callbacks⟩

theorem Routed.rest (hi : Routed s x.log) (hp : t.proc = s.proc) (hr : t.rhandlers = s.rhandlers)
    (hc : t.callbacks = s.callbacks) : Routed t (x.note s a t).log := by
  rw [note_same hp]
  exact hi.keep hr hc

theorem Routed.skip (hi : Routed s log) (he : q.event = .skip) (hr : t.rhandlers = s.rhandlers)
    (hc : t.callbacks = s.callbacks) : Routed t (log ++ [q]) := by
  refine ⟨?_, ?_⟩
  · intro handle
    rw [routed_concat, he, hr]
    exact hi.owner handle
  · rw [routed_concat, he, hc]
    exact hi.callbacks

theorem Routed.subscribe (hi : Routed s log) (he : q.event = .subscribe handle cb)
    (hr : t.rhandlers = s.rhandlers.insert handle cb) (hc : t.callbacks = s.callbacks) :
    Routed t (log ++ [q]) := by
  refine ⟨?_, ?_⟩
  · intro handle'
    rw [routed_concat, he, hr]
    by_cases hh : handle' = handle
    · subst hh
      simp [Desk.take]
    · rw [AList.lookup_insert_ne hh, hi.owner handle']
      simp [Desk.take, hh]
  · rw [routed_concat, he, hc]
    exact hi.callbacks

theorem Routed.message (hi : Routed s log) (he : q.event = .message p.resp.handle p)
    (hr : t.rhandlers = (jobPacket s p).rhandlers) (hc : t.callbacks = (jobPacket s p).callbacks) :
    Routed t (log ++ [q]) := by
  have howner := hi.owner p.resp.handle
  cases ho : (routed log).owner p.resp.handle with
  | none =>
    rw [ho] at howner
    have hj : jobPacket s p = { s with proc := .recv } := by
      rw [jobPacket, howner]
      rfl
    rw [hj] at hr hc
    refine ⟨?_, ?_⟩
    · intro handle
      rw [routed_concat, he, hr]
      simpa [Desk.take, ho] using hi.owner handle
    · rw [routed_concat, he, hc]
      simpa [Desk.take, ho] using hi.callbacks
  | some w =>
    rw [ho] at howner
    have hj : jobPacket s p = { s with
        callbacks := s.callbacks ++ [(w.2, p)]
        rhandlers := if isFinal p.resp.dataType then s.rhandlers.erase p.resp.handle
          else s.rhandlers
        proc := .recv } := by
      rw [jobPacket, howner]
      rfl
    rw [hj] at hr hc
    refine ⟨?_, ?_⟩
    · intro handle
      rw [routed_concat, he, hr]
      cases hf : isFinal p.resp.dataType with
      | false => simpa [Desk.take, ho, Packet.final, hf] using hi.owner handle
      | true =>
        by_cases hh : handle = p.resp.handle
        · subst hh
          simp [Desk.take, ho, Packet.final, hf]
        · simpa [Desk.take, ho, Packet.final, hf, hh, AList.lookup_erase_ne hh]
            using hi.owner handle
    · rw [routed_concat, he, hc]
      simp [Desk.take, ho, hi.callbacks]

theorem gotStep_recv (h : (gotStep s p).proc = .recv) :
    p.resp.dataType = dtOptionSent ∨ p.resp.dataType = dtOptionRes ∨ p.resp.dataType = dtError := by
  unfold gotStep at h
  split_ifs at h with hm hp ho he
  · exact Or.inl hm
  · exact Or.inr (Or.inl ho)
  · exact Or.inr (Or.inr he)

theorem gotStep_not_job (h : (gotStep s p).proc = .recv) : isJobPacket p.resp.dataType = false := by
  rcases gotStep_recv h with h | h | h <;> rw [h] <;> decide

theorem dispatchStep_job (h : isJobPacket p.resp.dataType = true) :
    dispatchStep s p = jobPacket s p := by
  have hne : ∀ d ∈ [dtError, dtOptionRes, dtStatusRes, dtJobCreated, dtEchoRes],
      p.resp.dataType ≠ d := by
    intro d hd heq
    rw [heq] at h
    fin_cases hd <;> revert h <;> decide
  have hjob : (isProgress p.resp.dataType || isFinal p.resp.dataType) = true := h
  simp only [List.mem_cons, List.not_mem_nil, or_false, forall_eq_or_imp, forall_eq] at hne
  simp only [dispatchStep, hne, hjob, if_true, if_false]

theorem dispatchStep_other (h : isJobPacket p.resp.dataType = false) :
    (dispatchStep s p).rhandlers = s.rhandlers ∧ (dispatchStep s p).callbacks = s.callbacks := by
  have hjob : ¬ (isProgress p.resp.dataType || isFinal p.resp.dataType) = true := by
    simpa [isJobPacket] using h
  simp only [dispatchStep]
  split_ifs <;> exact ⟨rfl, rfl⟩

theorem registers_untaken (h : q.taken.internal = none) : q.registers = none := by
  simp [Processed.registers, h]

theorem event_skip (hr : q.registers = none) (h : isJobPacket q.packet.resp.dataType = false) :
    q.event = .skip := by
  simp [Processed.event, hr, h]

theorem Routed.dispatched (hi : Routed s log) (hr : t.rhandlers = (dispatchStep s p).rhandlers)
    (hc : t.callbacks = (dispatchStep s p).callbacks) : Routed t (log ++ [{ packet := p }]) := by
  have hnone : ({ packet := p } : Processed).registers = none := registers_untaken rfl
  cases hj : isJobPacket p.resp.dataType with
  | true =>
    rw [dispatchStep_job hj] at hr hc
    exact hi.message (by simp [Processed.event, hnone, hj]) hr hc
  | false =>
    rw [(dispatchStep_other hj).1] at hr
    rw [(dispatchStep_other hj).2] at hc
    exact hi.skip (event_skip hnone hj) hr hc

theorem Matched.not_job (hi : Matched s) {h : HandledResponse ℕ ℕ} (hpc : s.proc = .deliver h p) :
    isJobPacket p.resp.dataType = false :=
  hi.type_of (fun d => isJobPacket d = false) hpc (by decide) (fun k => by cases k <;> decide)

theorem Routed.delivered (hi : Routed s log) (hmt : Matched s) {h : HandledResponse ℕ ℕ} {j : ℕ}
    (hpc : s.proc = .deliver h p) (hj : h.internal = some j) (hr : t.rhandlers = retain s h p)
    (hc : t.callbacks = s.callbacks) : Routed t (log ++ [{ packet := p, taken := h }]) := by
  have hjob := hmt.not_job hpc
  obtain ⟨call, -, hext, hslot⟩ := hmt.deliver h p j hpc hj
  cases hcb : h.external with
  | none =>
    have hreg : ({ packet := p, taken := h } : Processed).registers = none := by
      simp [Processed.registers, hcb]
    exact hi.skip (event_skip hreg hjob) (by rw [hr, retain, hcb]) hc
  | some cb =>
    have htype : p.resp.dataType = dtJobCreated := by
      refine (hslot .created).mp ?_
      by_contra hne
      rw [hext, Op.external_of_slot hne] at hcb
      cases hcb
    by_cases hh : p.resp.handle = []
    · have hreg : ({ packet := p, taken := h } : Processed).registers = none := by
        simp [Processed.registers, hh]
      exact hi.skip (event_skip hreg hjob) (by rw [hr, retain, hcb]; exact if_pos hh) hc
    · have hreg : ({ packet := p, taken := h } : Processed).registers =
          some (p.resp.handle, cb) := by
        simp [Processed.registers, htype, hj, hh, hcb]
      exact hi.subscribe (event_of_registers hreg) (by rw [hr, retain, hcb]; exact if_neg hh) hc

theorem Routed.move (hi : Routed s x.log) (hmt : Matched s) (hm : Move cfg s a t) :
    Routed t (x.note s a t).log := by
  cases hm with
  | recv hpc hin =>
    rw [note_moved hpc rfl (by simp)]
    exact hi.keep rfl rfl
  | procExit hpc hin hc =>
    rw [note_moved hpc rfl (by simp)]
    exact hi.keep rfl rfl
  | @got p pending state pc hpc heq hnext =>
    rcases hnext with rfl | rfl
    · rw [note_moved hpc rfl (by simp)]
      have hjob := gotStep_not_job (congrArg St.proc heq)
      exact hi.skip (event_skip (registers_untaken rfl) hjob) rfl rfl
    · rw [note_moved hpc rfl (by simp)]
      exact hi.keep rfl rfl
  | dispatched hpc htype heq =>
    rw [note_moved hpc rfl (by simp)]
    exact hi.dispatched (congrArg St.rhandlers heq).symm (congrArg St.callbacks heq).symm
  | takeStatus hpc htype =>
    rw [note_moved hpc rfl (by simp)]
    exact hi.keep rfl rfl
  | take k hpc htype =>
    rw [note_moved hpc rfl (by simp)]
    exact hi.keep rfl rfl
  | dropReply hpc hint =>
    rw [note_moved hpc rfl (by simp)]
    exact hi.skip (event_skip (registers_untaken hint) (hmt.not_job hpc)) rfl rfl
  | deliver hpc hint hcall hr =>
    rw [note_moved hpc rfl (by simp)]
    exact hi.delivered hmt hpc hint rfl rfl
  | _ => exact hi.rest rfl rfl rfl

theorem routed_new (cfg : Cfg) : Routed (new cfg) [] := ⟨fun _ => rfl, rfl⟩

theorem events_getElem? : (events log)[r]? = some (.subscribe handle cb) ↔
    registration log r = some (handle, cb) := by
  simp only [events, registration, List.getElem?_map, Option.map_eq_some_iff,
    Option.bind_eq_some_iff, event_subscribe]

theorem routes_routed (log : List Processed) : Routes log (routed log).received where
  registered r cb p h := by
    obtain ⟨handle, hsub⟩ := received_subscribed h
    exact ⟨handle, events_getElem?.mp hsub⟩
  exact r handle cb h := by
    rw [routed, received_eq_window (events_getElem?.mpr h), jobPackets_eq_window]
    simp only [events, List.map_drop]

structure Recorded (s : St) (x : History) : Prop where
  rounds : Rounds s
  matched : Matched s
  filed : Filed s x.log
  routed : Routed s x.log

theorem Recorded.move (hi : Recorded s x) (hm : Move cfg s a t) : Recorded t (x.note s a t) :=
  ⟨hi.rounds.move hm, hi.matched.move hi.rounds.status hm, hi.filed.move hi.matched hm,
    hi.routed.move hi.matched hm⟩

theorem recorded_new (cfg : Cfg) : Recorded (new cfg) {} :=
  ⟨rounds_new cfg, matched_new cfg, filed_new cfg, routed_new cfg⟩

theorem Recorded.run {allow : St × History → Act → Bool} {y : St × History}
    (h : Reachable (traced (step cfg) History.note) allow (new cfg, {}) y) : Recorded y.1 y.2 := by
  refine h.invariant (I := fun y => Recorded y.1 y.2) (recorded_new cfg) ?_
  intro y act z hy _ hstep
  obtain ⟨hs, hz⟩ := traced_eq_some.mp hstep
  rw [hz]
  exact hy.move (step_move hs)

/-- Each registration of a handler is invoked on exactly the packets of its job that are
processed until the terminal one or the next registration for the handle, in their order. -/
theorem job_packets_routed (cfg : Cfg) (y : St × History)
    (hy : Reachable (traced (step cfg) History.note) always (new cfg, {}) y) :
    ∃ received : List (ℕ × ℕ × Packet), y.1.callbacks = received.map Prod.snd ∧
      Routes y.2.log received :=
  ⟨_, (Recorded.run hy).routed.callbacks, routes_routed y.2.log⟩

/-- A foreground submission with the handler `cb`, up to the wait for its reply. -/
def submitActs (i : ℕ) (cb : Option ℕ) : List Act :=
  [.call i (.submit false [102] [] 0 cb [117]), .caller i, .caller i, .caller i, .caller i,
    .write i none]

/-- `readLoop` takes a packet and `processLoop` is done with it after `n` steps. -/
def passActs (n : ℕ) : List Act :=
  [.reader, .reader, .readPacket, .reader] ++ List.replicate n .process

/-- The server accepts the job of the request `k` as `H`, and the call returns. -/
def createdActs (c k i : ℕ) : List Act :=
  [.answer c k dtJobCreated [72]] ++ passActs 4 ++ [.caller i, .caller i]

def workActs (c : ℕ) (dataType : UInt32) : List Act :=
  [.push c dataType [72, 0, 100]] ++ passActs 3

theorem job_packets_routed_once :
    ∃ y, run (traced (step demoCfg) History.note) always (new demoCfg, {})
      (submitActs 0 (some 7) ++ createdActs 0 0 0 ++ workActs 0 dtWorkData ++
        workActs 0 dtWorkComplete ++ workActs 0 dtWorkComplete) = some y ∧
      y.1.callbacks.map (fun w => (w.1, w.2.resp.dataType)) =
        [(7, dtWorkData), (7, dtWorkComplete)] ∧
      ∃ received : List (ℕ × ℕ × Packet), y.1.callbacks = received.map Prod.snd ∧
        Routes y.2.log received := by
  have hrun : (run (traced (step demoCfg) History.note) always (new demoCfg, {})
      (submitActs 0 (some 7) ++ createdActs 0 0 0 ++ workActs 0 dtWorkData ++
        workActs 0 dtWorkComplete ++ workActs 0 dtWorkComplete)).map
      (fun y => y.1.callbacks.map (fun w => (w.1, w.2.resp.dataType))) =
      some [(7, dtWorkData), (7, dtWorkComplete)] := by decide +kernel
  obtain ⟨y, hy, hcallbacks⟩ := Option.map_eq_some_iff.mp hrun
  exact ⟨y, hy, hcallbacks, job_packets_routed demoCfg y ⟨_, hy⟩⟩

end Gearman.Client
