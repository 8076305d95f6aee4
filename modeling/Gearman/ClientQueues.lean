import Gearman.ClientLifecycle

/-!
# Who owns what is queued

A call to `do` or `Echo` registers one handler while it holds `client.Mutex`, and
gives the mutex back only when that handler is gone: taken for a reply, cancelled,
or dropped with the connection. The last case is the delicate one: a call that times
out empties the queue only if it still finds a connection, so a connection can have
been lost under it only together with a reset of the queue that is still to come.
-/

namespace Gearman.Client
open Transition

/-- The queue the reply of a call goes through; `Status` and `Close` use none. -/
def Op.slot : Op → Option Which
  | .submit _ _ _ _ _ _ => some .created
  | .echo _ => some .echo
  | .status _ => none
  | .close => none

def Call.holds (call : Call) : Bool :=
  match call.pc with
  | .register => true
  | .getRW _ => true
  | .write _ _ => true
  | .cancel _ _ => true
  | .wait _ _ => true
  | .abandon _ => true
  | .unlock _ => true
  | .closeConn => decide (call.op ≠ .close)
  | .resetCreated => decide (call.op ≠ .close)
  | .resetEcho => decide (call.op ≠ .close)
  | _ => false

def Pc.resets (k : Which) : Pc → Bool
  | .resetCreated => true
  | .resetEcho => decide (k = .echo)
  | _ => false

def ReadPc.resets (k : Which) : ReadPc → Bool
  | .resetCreated => true
  | .resetEcho => decide (k = .echo)
  | _ => false

variable {cfg : Cfg} {s t : St} {a : Act} {k : Which}

structure Locks (s : St) : Prop where
  mutex : ∀ i call, s.calls i = some call → call.holds = true → s.mutex = some i
  connMu : ∀ i call, s.calls i = some call → call.pc.resets .echo = true →
    s.connMu = some (.caller i)
  reader : s.reader.resets .echo = true → s.connMu = some .reader

theorem Pc.resets_echo {pc : Pc} (h : pc.resets k = true) : pc.resets .echo = true := by
  cases pc <;> first | rfl | cases h

theorem ReadPc.resets_echo {pc : ReadPc} (h : pc.resets k = true) : pc.resets .echo = true := by
  cases pc <;> first | rfl | cases h

theorem Locks.keep (hi : Locks s) (hcalls : t.calls = s.calls) (hmx : t.mutex = s.mutex)
    (hmu : ∀ who, who ≠ .reader → s.connMu = some who → t.connMu = some who)
    (hr : t.reader.resets .echo = true → t.connMu = some .reader) : Locks t where
  mutex := by
    rw [hcalls, hmx]
    exact hi.mutex
  connMu := by
    intro j call hj hpc
    rw [hcalls] at hj
    exact hmu _ (by simp) (hi.connMu j call hj hpc)
  reader := hr

theorem Locks.update (hi : Locks s) {i : ℕ} {new : Call}
    (hcalls : t.calls = Function.update s.calls i (some new)) (hr : t.reader = s.reader)
    (hmx : ∀ j, j ≠ i → s.mutex = some j → t.mutex = some j)
    (hmu : ∀ who, who ≠ .caller i → s.connMu = some who → t.connMu = some who)
    (hh : new.holds = true → t.mutex = some i)
    (hc : new.pc.resets .echo = true → t.connMu = some (.caller i)) : Locks t where
  mutex := by
    intro j call hj hold
    rw [hcalls] at hj
    rcases update_eq_some hj with ⟨rfl, rfl⟩ | ⟨hne, hj⟩
    · exact hh hold
    · exact hmx j hne (hi.mutex j call hj hold)
  connMu := by
    intro j call hj hpc
    rw [hcalls] at hj
    rcases update_eq_some hj with ⟨rfl, rfl⟩ | ⟨hne, hj⟩
    · exact hc hpc
    · exact hmu _ (by simpa using hne) (hi.connMu j call hj hpc)
  reader := by
    intro h
    rw [hr] at h
    exact hmu _ (by simp) (hi.reader h)

theorem Locks.stay (hi : Locks s) {i : ℕ} {call new : Call} (h : s.calls i = some call)
    (hcalls : t.calls = Function.update s.calls i (some new)) (hr : t.reader = s.reader)
    (hmx : t.mutex = s.mutex) (hmu : t.connMu = s.connMu)
    (hh : new.holds = true → call.holds = true)
    (hc : new.pc.resets .echo = true → call.pc.resets .echo = true) : Locks t := by
  refine hi.update hcalls hr (fun _ _ hj => hmx.trans hj) (fun _ _ hw => hmu.trans hw) ?_ ?_
  · intro hnew
    exact hmx.trans (hi.mutex i call h (hh hnew))
  · intro hnew
    exact hmu.trans (hi.connMu i call h (hc hnew))

theorem Local.holds {call : Call} {pc : Pc} (hl : Local s call pc)
    (h : Call.holds { call with pc } = true) : call.holds = true := by
  cases hl with
  | noConn hpc hmu hc =>
    cases hop : call.op <;> simp_all [Call.holds, Op.afterClose]
  | _ => simp_all [Call.holds]

theorem Local.resets {call : Call} {pc : Pc} (hl : Local s call pc) : pc.resets k = false := by
  cases hl with
  | noConn hpc hmu hc => cases call.op <;> rfl
  | _ => rfl

def Shaped (s : St) : Prop :=
  ∀ i call, s.calls i = some call → call.pc = .setClosed → call.op = .close

theorem Shaped.move (hi : Shaped s) (hm : Move cfg s a t) : Shaped t := by
  intro i call' hcall' hpc
  rcases hm.call_origin hcall' with ⟨call, hcall, hadv⟩ | ⟨_, _, hentry, _⟩
  · rw [hadv.op]
    exact hi i call hcall (hadv.forward.setClosed hpc)
  · rw [hpc] at hentry
    cases hop : call'.op with
    | submit bg funcname data flag cb uid => cases bg <;> simp [hop, Op.entry] at hentry
    | echo data => simp [hop, Op.entry] at hentry
    | status handle => simp [hop, Op.entry] at hentry
    | close => rfl

theorem Locks.move (hi : Locks s) (hsh : Shaped s) (hm : Move cfg s a t) : Locks t := by
  cases hm with
  | begin i op h =>
    refine hi.update rfl rfl (fun _ _ h => h) (fun _ _ h => h) ?_ ?_
    all_goals
      cases op with
      | submit bg funcname data flag cb uid => cases bg <;> simp [Call.holds, Op.entry, Pc.resets]
      | _ => simp [Call.holds, Op.entry, Pc.resets]
  | pc h hl => exact hi.stay h rfl rfl rfl rfl hl.holds (by simp [hl.resets])
  | lock h hpc hfree =>
    refine hi.update rfl rfl ?_ (fun _ _ h => h) (fun _ => rfl) (by simp [Pc.resets])
    intro j _ hj
    simp [hfree] at hj
  | register h hpc =>
    exact hi.stay h rfl rfl rfl rfl (by simp [Call.holds, hpc]) (by simp [Pc.resets])
  | written h hpc hopen =>
    exact hi.stay h rfl rfl rfl rfl (by simp [Call.holds, hpc]) (by simp [Pc.resets])
  | cancel h hpc =>
    exact hi.stay h rfl rfl rfl rfl (by simp [Call.holds, hpc]) (by simp [Pc.resets])
  | @abandon i call token h hpc =>
    refine hi.stay h rfl rfl rfl rfl (by simp [Call.holds, hpc]) ?_
    cases hop : call.op <;> simp [Op.afterAbandon, Pc.resets]
  | setClosed h hpc hmu =>
    exact hi.stay h rfl rfl rfl rfl (by simp [Call.holds, hsh _ _ h hpc]) (by simp [Pc.resets])
  | drop h hpc hfree hc =>
    refine hi.update rfl rfl (fun _ _ h => h) ?_ ?_ (fun _ => rfl)
    · intro who _ hw
      simp [hfree] at hw
    · intro hh
      exact hi.mutex _ _ h (by simpa [Call.holds, hpc] using hh)
  | resetCreated h hpc =>
    exact hi.stay h rfl rfl rfl rfl (by simp [Call.holds, hpc]) (by simp [hpc, Pc.resets])
  | @resetEcho i call h hpc =>
    have hmine := hi.connMu _ _ h (by simp [hpc, Pc.resets])
    refine hi.update rfl rfl (fun _ _ h => h) ?_ ?_ ?_
    · intro who hne hw
      exact absurd (Option.some.inj (hmine.symm.trans hw)).symm hne
    · intro hh
      refine hi.mutex _ _ h ?_
      cases hop : call.op <;> simp_all [Call.holds, Op.afterClose]
    · intro hc
      cases hop : call.op <;> simp [hop, Op.afterClose, Pc.resets] at hc
  | unlock h hpc =>
    have hmine := hi.mutex _ _ h (by simp [Call.holds, hpc])
    refine hi.update rfl rfl ?_ (fun _ _ h => h) (by simp [Call.holds]) (by simp [Pc.resets])
    intro j hne hj
    exact absurd (Option.some.inj (hmine.symm.trans hj)).symm hne
  | deliver hpc hint h hr =>
    exact hi.stay h rfl rfl rfl rfl id id
  | readerDrop hpc hfree hc =>
    refine hi.keep rfl rfl ?_ (fun _ => rfl)
    intro who _ hw
    simp [hfree] at hw
  | readerResetCreated hpc =>
    exact hi.keep rfl rfl (fun _ _ h => h) (fun _ => hi.reader (by simp [hpc, ReadPc.resets]))
  | readerResetEcho hpc =>
    have hmine := hi.reader (by simp [hpc, ReadPc.resets])
    refine hi.keep rfl rfl ?_ (by simp [ReadPc.resets])
    intro who hne hw
    exact absurd (Option.some.inj (hmine.symm.trans hw)).symm hne
  | reader hl =>
    refine hi.keep rfl rfl (fun _ _ h => h) ?_
    cases hl <;> simp [ReadPc.resets]
  | publish hpc hmu hc =>
    refine hi.keep rfl rfl (fun _ _ h => h) ?_
    cases cfg.wantExceptions <;> simp [ReadPc.resets]
  | dialled hpc =>
    refine hi.keep rfl rfl (fun _ _ h => h) ?_
    cases cfg.wantExceptions <;> simp [ReadPc.resets]
  | _ => first
    | exact hi.keep rfl rfl (fun _ _ h => h) hi.reader
    | exact hi.keep rfl rfl (fun _ _ h => h) (by simp [ReadPc.resets])

/-- Somebody has dropped the connection and has not emptied queue `k` yet. -/
def Pending (s : St) (k : Which) : Prop :=
  s.reader.resets k = true ∨ ∃ i call, s.calls i = some call ∧ call.pc.resets k = true

theorem Pending.keep (h : Pending s k) (hcalls : t.calls = s.calls)
    (hr : s.reader.resets k = true → t.reader.resets k = true) : Pending t k := by
  rcases h with h | h
  · exact Or.inl (hr h)
  · exact Or.inr (hcalls ▸ h)

theorem Pending.update (h : Pending s k) {i : ℕ} {new : Call}
    (hcalls : t.calls = Function.update s.calls i (some new)) (hr : t.reader = s.reader)
    (hnew : ∀ old, s.calls i = some old → old.pc.resets k = true → new.pc.resets k = true) :
    Pending t k := by
  rcases h with h | ⟨j, call, hj, hpc⟩
  · exact Or.inl (hr ▸ h)
  · by_cases hij : j = i
    · subst hij
      exact Or.inr ⟨j, new, by simp [hcalls], hnew call hj hpc⟩
    · exact Or.inr ⟨j, call, by simp [hcalls, hij, hj], hpc⟩

theorem Pending.advance (h : Pending s k) {i : ℕ} {old new : Call} (hold : s.calls i = some old)
    (hcalls : t.calls = Function.update s.calls i (some new)) (hr : t.reader = s.reader)
    (hpc : old.pc.resets k = true → new.pc.resets k = true) : Pending t k := by
  apply h.update hcalls hr
  intro old' hold' hres
  cases Option.some.inj (hold.symm.trans hold')
  exact hpc hres

theorem Locks.not_pending (hi : Locks s) (hmu : s.connMu = none) : ¬ Pending s k := by
  rintro (h | ⟨i, call, hcall, hpc⟩)
  · have hr := hi.reader (ReadPc.resets_echo h)
    simp [hmu] at hr
  · have hc := hi.connMu i call hcall (Pc.resets_echo hpc)
    simp [hmu] at hc

/-- The entry of call `i` in queue `k` while the call is at a given point. -/
def EntryAt (k : Which) (i : ℕ) (e : SlotEntry ℕ ℕ) : Pc → Prop
  | .getRW token => e.id = token ∧ e.h.internal = some i
  | .write token _ => e.id = token ∧ e.h.internal = some i
  | .cancel token _ => e.id = token ∧ e.h.internal = some i
  | .wait token _ => e.id = token ∧ e.h.internal = some i
  | .abandon token => e.id = token ∧ e.h.internal = some i
  | .closeConn => e.h.internal = none
  | .resetCreated => e.h.internal = none
  | .resetEcho => e.h.internal = none ∧ k = .echo
  | _ => False

/-- From the moment the call has found a connection until it closes it. -/
def Pc.sent : Pc → Bool
  | .write _ _ => true
  | .wait _ _ => true
  | .abandon _ => true
  | .closeConn => true
  | _ => false

structure Owned (s : St) (k : Which) (i : ℕ) (call : Call) (e : SlotEntry ℕ ℕ) : Prop where
  active : s.calls i = some call
  op : call.op.slot = some k
  queue : (s.handlers.slot k).queue = [e]
  entry : EntryAt k i e call.pc
  sent : call.pc.sent = true → s.conn ≠ none ∨ Pending s k
  result : call.result = none
  unserved : s.proc.delivers i = false

def QueueOk (s : St) (k : Which) : Prop :=
  (s.handlers.slot k).queue = [] ∨ ∃ i call e, Owned s k i call e

/-- A reply reaches only calls that have registered. -/
structure Fresh (s : St) : Prop where
  unbegun : ∀ i, s.calls i = none → s.proc.delivers i = false
  early : ∀ i call, s.calls i = some call → call.pc.early = true →
    call.result = none ∧ s.proc.delivers i = false

def StatusOk (s : St) : Prop :=
  ∀ handle i, s.handlers.status.lookup handle = some i →
    ∃ call, s.calls i = some call ∧ call.op.slot = none ∧ call.pc.early = false

structure Rounds (s : St) : Prop where
  wired : Wired s
  shaped : Shaped s
  locks : Locks s
  fresh : Fresh s
  status : StatusOk s
  queue : ∀ k, QueueOk s k

theorem Owned.holds {i : ℕ} {call : Call} {e : SlotEntry ℕ ℕ} (h : Owned s k i call e) :
    call.holds = true := by
  have hop : call.op ≠ .close := by
    intro hop
    have := h.op
    simp [hop, Op.slot] at this
  have he := h.entry
  cases hpc : call.pc <;> simp_all [EntryAt, Call.holds]

theorem Owned.not_early {i : ℕ} {call : Call} {e : SlotEntry ℕ ℕ} (h : Owned s k i call e) :
    call.pc.early = false := by
  have he := h.entry
  cases hpc : call.pc <;> simp_all [EntryAt, Pc.early]

theorem Owned.keep {i : ℕ} {call : Call} {e : SlotEntry ℕ ℕ} (h : Owned s k i call e)
    (hcall : t.calls i = some call)
    (hq : (t.handlers.slot k).queue = (s.handlers.slot k).queue)
    (hsent : s.conn ≠ none ∨ Pending s k → t.conn ≠ none ∨ Pending t k)
    (hd : t.proc.delivers i = false) : Owned t k i call e :=
  ⟨hcall, h.op, hq.trans h.queue, h.entry, fun hs => hsent (h.sent hs), h.result, hd⟩

theorem Owned.advance {i : ℕ} {call : Call} {e : SlotEntry ℕ ℕ} (h : Owned s k i call e)
    {pc : Pc} (hcalls : t.calls = Function.update s.calls i (some { call with pc }))
    (hq : (t.handlers.slot k).queue = (s.handlers.slot k).queue) (hproc : t.proc = s.proc)
    (hentry : EntryAt k i e pc) (hsent : pc.sent = true → t.conn ≠ none ∨ Pending t k) :
    QueueOk t k := by
  refine Or.inr ⟨i, { call with pc }, e, ?_, h.op, hq.trans h.queue, hentry, hsent, h.result, ?_⟩
  · rw [hcalls, Function.update_self]
  · rw [hproc]
    exact h.unserved

theorem QueueOk.keep (h : QueueOk s k) (hcalls : t.calls = s.calls)
    (hq : (t.handlers.slot k).queue = (s.handlers.slot k).queue)
    (hsent : s.conn ≠ none ∨ Pending s k → t.conn ≠ none ∨ Pending t k)
    (hd : ∀ i call e, Owned s k i call e → t.proc.delivers i = false) : QueueOk t k := by
  rcases h with h | ⟨i, call, e, ho⟩
  · exact Or.inl (hq.trans h)
  · exact Or.inr ⟨i, call, e, ho.keep (hcalls ▸ ho.active) hq hsent (hd i call e ho)⟩

theorem QueueOk.update (h : QueueOk s k) {i : ℕ} {new : Call}
    (hcalls : t.calls = Function.update s.calls i (some new))
    (hq : (t.handlers.slot k).queue = (s.handlers.slot k).queue)
    (hsent : s.conn ≠ none ∨ Pending s k → t.conn ≠ none ∨ Pending t k)
    (hd : ∀ j call e, Owned s k j call e → j ≠ i → t.proc.delivers j = false)
    (hown : ∀ call e, Owned s k i call e → QueueOk t k) : QueueOk t k := by
  rcases h with h | ⟨j, call, e, ho⟩
  · exact Or.inl (hq.trans h)
  · by_cases hij : j = i
    · subst hij
      exact hown call e ho
    · refine Or.inr ⟨j, call, e, ho.keep ?_ hq hsent (hd j call e ho hij)⟩
      rw [hcalls, Function.update_of_ne hij]
      exact ho.active

theorem Locks.owner {i j : ℕ} {call call' : Call} {e : SlotEntry ℕ ℕ} (hl : Locks s)
    (hcall : s.calls i = some call) (hh : call.holds = true) (ho : Owned s k j call' e) :
    Owned s k i call e := by
  have hi := hl.mutex i call hcall hh
  have hj := hl.mutex j call' ho.active ho.holds
  cases Option.some.inj (hi.symm.trans hj)
  cases Option.some.inj (hcall.symm.trans ho.active)
  exact ho

namespace Handlers
variable (hs : Handlers) {op : Op}

theorem register_slot_ne (h : op.slot ≠ some k) (i : ℕ) :
    (hs.register op i).1.slot k = hs.slot k := by
  cases op <;> cases k <;> first | rfl | exact absurd rfl h

theorem register_slot (h : op.slot = some k) (i : ℕ) :
    ∃ external, (hs.register op i).1.slot k = ((hs.slot k).set i external).1 ∧
      (hs.register op i).2 = ((hs.slot k).set i external).2 := by
  cases op <;> cases k <;> first | exact ⟨_, rfl, rfl⟩ | cases h

theorem cancel_slot_ne (h : op.slot ≠ some k) (token : UInt64) :
    (hs.cancel op token).slot k = hs.slot k := by
  cases op <;> cases k <;> first | rfl | exact absurd rfl h

theorem cancel_slot (h : op.slot = some k) (token : UInt64) :
    (hs.cancel op token).slot k = (hs.slot k).cancel token := by
  cases op <;> cases k <;> first | rfl | cases h

theorem giveUp_slot_ne (h : op.slot ≠ some k) (token : UInt64) (expires : ℕ) :
    (hs.giveUp op token expires).slot k = hs.slot k := by
  cases op <;> cases k <;> first | rfl | exact absurd rfl h

theorem giveUp_slot (h : op.slot = some k) (token : UInt64) (expires : ℕ) :
    (hs.giveUp op token expires).slot k = (hs.slot k).abandon token expires := by
  cases op <;> cases k <;> first | rfl | cases h

theorem setSlot_slot (slot : HandlerSlot ℕ ℕ) : (hs.setSlot slot k).slot k = slot := by
  cases k <;> rfl

theorem setSlot_slot_ne {k' : Which} (h : k' ≠ k) (slot : HandlerSlot ℕ ℕ) :
    (hs.setSlot slot k').slot k = hs.slot k := by
  cases k <;> cases k' <;> first | rfl | exact absurd rfl h

end Handlers

theorem Op.afterAbandon_slot {op : Op} (h : op.slot = some k) : op.afterAbandon = .closeConn := by
  cases op <;> first | rfl | cases h

theorem Local.source_resets {call : Call} {pc : Pc} (hl : Local s call pc) :
    call.pc.resets k = false := by
  cases hl <;> simp [*, Pc.resets]

theorem Rounds.pass (hi : Rounds s) {i : ℕ} {call new : Call} (h : s.calls i = some call)
    (hcalls : t.calls = Function.update s.calls i (some new)) (hr : t.reader = s.reader)
    (hproc : t.proc = s.proc) (hconn : t.conn = s.conn)
    (hq : (t.handlers.slot k).queue = (s.handlers.slot k).queue)
    (hres : call.pc.resets k = true → new.pc.resets k = true)
    (hown : ∀ e, Owned s k i call e →
      (s.conn ≠ none ∨ Pending s k → t.conn ≠ none ∨ Pending t k) → QueueOk t k) :
    QueueOk t k := by
  have hsent : s.conn ≠ none ∨ Pending s k → t.conn ≠ none ∨ Pending t k := by
    intro hs
    rw [hconn]
    exact hs.imp_right (fun hp => hp.advance h hcalls hr hres)
  refine (hi.queue k).update hcalls hq hsent (fun _ _ _ ho _ => hproc ▸ ho.unserved) ?_
  intro call' e ho
  cases Option.some.inj (ho.active.symm.trans h)
  exact hown e ho hsent

theorem Rounds.local (hi : Rounds s) {i : ℕ} {call : Call} {pc : Pc} (h : s.calls i = some call)
    (hl : Local s call pc) (k : Which) : QueueOk (s.setPc i call pc) k := by
  refine hi.pass h rfl rfl rfl rfl rfl (by simp [hl.source_resets]) ?_
  intro e ho hsent
  have he := ho.entry
  cases hl with
  | startLost hpc hmu hc => simp [hpc, EntryAt] at he
  | startOk hpc hmu hc => simp [hpc, EntryAt] at he
  | invalidId hpc hid => simp [hpc, EntryAt] at he
  | enterLost hpc hid hmu hc => simp [hpc, EntryAt] at he
  | enterOk hpc hid hmu hc => simp [hpc, EntryAt] at he
  | noRW hpc hmu hrw =>
    rw [hpc] at he
    exact ho.advance rfl rfl rfl he (by simp [Pc.sent])
  | someRW hpc hmu hrw =>
    rw [hpc] at he
    refine ho.advance rfl rfl rfl he (fun _ => Or.inl ?_)
    have hconn := hi.wired.rw_eq
    rw [hrw] at hconn
    exact fun hnone => by cases hconn.trans hnone
  | writeFailed hpc err =>
    rw [hpc] at he
    exact ho.advance rfl rfl rfl he (by simp [Pc.sent])
  | replied hpc hr =>
    have hres := ho.result
    simp [hr] at hres
  | timedOut hpc hd =>
    rw [hpc] at he
    exact ho.advance rfl rfl rfl he (fun _ => hsent (ho.sent (by simp [hpc, Pc.sent])))
  | noConn hpc hmu hc =>
    rcases ho.sent (by simp [hpc, Pc.sent]) with hne | hp
    · exact absurd hc hne
    · exact absurd hp (hi.locks.not_pending hmu)

theorem Rounds.register (hi : Rounds s) {i : ℕ} {call : Call} (h : s.calls i = some call)
    (hpc : call.pc = .register) (k : Which) :
    QueueOk { s.setPc i call (.getRW (s.handlers.register call.op i).2) with
      handlers := (s.handlers.register call.op i).1 } k := by
  have hnot : ∀ e, ¬ Owned s k i call e := by
    intro e ho
    simpa [hpc, EntryAt] using ho.entry
  by_cases hop : call.op.slot = some k
  · have hempty : (s.handlers.slot k).queue = [] := by
      rcases hi.queue k with hq | ⟨j, call', e, ho⟩
      · exact hq
      · exact absurd (hi.locks.owner h (by simp [Call.holds, hpc]) ho) (hnot e)
    have hfresh := hi.fresh.early i call h (by simp [hpc, Pc.early])
    obtain ⟨external, hslot, htoken⟩ := Handlers.register_slot s.handlers hop i
    refine Or.inr ⟨i, { call with pc := .getRW (s.handlers.register call.op i).2 },
      { id := ((s.handlers.slot k).set i external).2, h := ⟨some i, external⟩ },
      Function.update_self .., hop, ?_, ⟨?_, rfl⟩, by simp [Pc.sent], hfresh.1, hfresh.2⟩
    · exact (congrArg HandlerSlot.queue hslot).trans (HandlerSlot.set_queue hempty i external)
    · exact htoken.symm
  · exact hi.pass h rfl rfl rfl rfl
      (congrArg HandlerSlot.queue (Handlers.register_slot_ne s.handlers hop i))
      (by simp [hpc, Pc.resets]) (fun e ho _ => absurd ho (hnot e))

theorem QueueOk.only (hq : QueueOk s k) : (s.handlers.slot k).Only
    (fun e => ∃ i call, Owned s k i call e) := by
  rcases hq with hq | ⟨i, call, e, ho⟩
  · exact Or.inl hq
  · exact Or.inr ⟨e, ho.queue, i, call, ho⟩

theorem Rounds.only_mine (hi : Rounds s) {i : ℕ} {call : Call} (h : s.calls i = some call)
    (hh : call.holds = true) : (s.handlers.slot k).Only (fun e => Owned s k i call e) := by
  apply (hi.queue k).only.mono
  rintro e ⟨j, call', ho⟩
  exact hi.locks.owner h hh ho

theorem Rounds.cancel (hi : Rounds s) {i : ℕ} {call : Call} {token : UInt64} {err : Err}
    (h : s.calls i = some call) (hpc : call.pc = .cancel token err) (k : Which) :
    QueueOk { s.setPc i call (.unlock (.err err)) with
      handlers := s.handlers.cancel call.op token } k := by
  by_cases hop : call.op.slot = some k
  · refine Or.inl ?_
    have hmine := hi.only_mine (k := k) h (by simp [Call.holds, hpc])
    have hid : (s.handlers.slot k).Only (fun e => e.id = token) := by
      apply hmine.mono
      intro e ho
      have he := ho.entry
      rw [hpc] at he
      exact he.1
    exact (congrArg HandlerSlot.queue (Handlers.cancel_slot s.handlers hop token)).trans
      hid.cancel_queue
  · exact hi.pass h rfl rfl rfl rfl
      (congrArg HandlerSlot.queue (Handlers.cancel_slot_ne s.handlers hop token))
      (by simp [hpc, Pc.resets]) (fun e ho _ => absurd ho.op hop)

theorem Rounds.abandon (hi : Rounds s) {i : ℕ} {call : Call} {token : UInt64}
    (h : s.calls i = some call) (hpc : call.pc = .abandon token) (expires : ℕ) (k : Which) :
    QueueOk { s.setPc i call call.op.afterAbandon with
      handlers := s.handlers.giveUp call.op token expires } k := by
  by_cases hop : call.op.slot = some k
  · have hslot := congrArg HandlerSlot.queue
      (Handlers.giveUp_slot s.handlers hop token expires)
    rcases hi.only_mine (k := k) h (by simp [Call.holds, hpc]) with hq | ⟨e, hq, ho⟩
    · refine Or.inl (hslot.trans ?_)
      simp [HandlerSlot.abandon, HandlerSlot.abandonFirst, hq]
    · have he := ho.entry
      rw [hpc] at he
      refine Or.inr ⟨i, { call with pc := call.op.afterAbandon },
        { e with h := {}, expires := some expires }, Function.update_self .., hop, ?_, ?_, ?_,
        ho.result, ho.unserved⟩
      · refine hslot.trans ?_
        simp [HandlerSlot.abandon, HandlerSlot.abandonFirst, hq, he.1]
      · simp [Op.afterAbandon_slot hop, EntryAt]
      · intro _
        exact (ho.sent (by simp [hpc, Pc.sent])).imp_right
          (fun hp => hp.advance h rfl rfl (by simp [hpc, Pc.resets]))
  · exact hi.pass h rfl rfl rfl rfl
      (congrArg HandlerSlot.queue (Handlers.giveUp_slot_ne s.handlers hop token expires))
      (by simp [hpc, Pc.resets]) (fun e ho _ => absurd ho.op hop)

theorem Owned.internal {i j : ℕ} {call : Call} {e : SlotEntry ℕ ℕ} (ho : Owned s k i call e)
    (h : e.h.internal = some j) : i = j := by
  have he := ho.entry
  cases hpc : call.pc <;> simp_all [EntryAt]

theorem QueueOk.take (hq : QueueOk s k) {now : ℕ} {j : ℕ}
    (h : ((s.handlers.slot k).take now).2.internal = some j) :
    ∃ call e, Owned s k j call e ∧ e.h = ((s.handlers.slot k).take now).2 := by
  obtain ⟨e, _, ⟨i, call, ho⟩, heq⟩ := hq.only.take_internal h
  cases ho.internal (heq ▸ h)
  exact ⟨call, e, ho, heq⟩

theorem Rounds.take (hi : Rounds s) {p : Packet} (k' k : Which) :
    QueueOk { s with
      handlers := s.handlers.setSlot ((s.handlers.slot k').take s.now).1 k'
      proc := .deliver ((s.handlers.slot k').take s.now).2 p } k := by
  by_cases hk : k' = k
  · subst hk
    refine Or.inl ?_
    exact (congrArg HandlerSlot.queue (Handlers.setSlot_slot s.handlers _)).trans
      ((hi.queue k').only.take_queue s.now)
  · refine (hi.queue k).keep rfl ?_ id ?_
    · exact congrArg HandlerSlot.queue (Handlers.setSlot_slot_ne s.handlers hk _)
    · intro i call e ho
      simp only [ProcPc.delivers, decide_eq_false_iff_not]
      intro hd
      obtain ⟨call', e', ho', _⟩ := (hi.queue k').take hd
      cases Option.some.inj (ho.active.symm.trans ho'.active)
      exact hk (Option.some.inj (ho'.op.symm.trans ho.op))

theorem sending_resets {pc : ReadPc} {p : Packet} (h : pc.sending = some p) :
    pc.resets k = false := by
  cases pc <;> simp [ReadPc.sending, ReadPc.resets] at h ⊢

theorem Rounds.queue_move (hi : Rounds s) (hm : Move cfg s a t) (k : Which) : QueueOk t k := by
  cases hm with
  | begin i op h =>
    refine (hi.queue k).update rfl rfl ?_ (fun _ _ _ ho _ => ho.unserved) ?_
    · intro hs
      refine hs.imp_right (fun hp => hp.update rfl rfl ?_)
      intro old hold
      simp [h] at hold
    · intro call e ho
      have hact := ho.active
      simp [h] at hact
  | pc h hl => exact hi.local h hl k
  | register h hpc => exact hi.register h hpc k
  | cancel h hpc => exact hi.cancel h hpc k
  | abandon h hpc => exact hi.abandon h hpc _ k
  | lock h hpc hfree =>
    exact hi.pass h rfl rfl rfl rfl rfl (by simp [hpc, Pc.resets])
      (fun e ho _ => absurd ho.entry (by simp [hpc, EntryAt]))
  | written h hpc hopen =>
    refine hi.pass h rfl rfl rfl rfl rfl (by simp [hpc, Pc.resets]) ?_
    intro e ho hsent
    have he := ho.entry
    rw [hpc] at he
    exact ho.advance rfl rfl rfl he (fun _ => hsent (ho.sent (by simp [hpc, Pc.sent])))
  | setClosed h hpc hmu =>
    exact hi.pass h rfl rfl rfl rfl rfl (by simp [hpc, Pc.resets])
      (fun e ho _ => absurd ho.entry (by simp [hpc, EntryAt]))
  | drop h hpc hmu hc =>
    refine (hi.queue k).update rfl rfl ?_ (fun _ _ _ ho _ => ho.unserved) ?_
    · exact fun _ => Or.inr (Or.inr ⟨_, _, Function.update_self .., rfl⟩)
    · intro call' e ho
      cases Option.some.inj (ho.active.symm.trans h)
      have he := ho.entry
      rw [hpc] at he
      exact ho.advance rfl rfl rfl he (by simp [Pc.sent])
  | resetCreated h hpc =>
    cases k with
    | created => exact Or.inl rfl
    | echo =>
      refine hi.pass h rfl rfl rfl rfl rfl (fun _ => rfl) ?_
      intro e ho _
      have he := ho.entry
      rw [hpc] at he
      exact ho.advance rfl rfl rfl ⟨he, rfl⟩ (by simp [Pc.sent])
  | resetEcho h hpc =>
    cases k with
    | echo => exact Or.inl rfl
    | created =>
      exact hi.pass h rfl rfl rfl rfl rfl (by simp [hpc, Pc.resets])
        (fun e ho _ => absurd ho.entry (by simp [hpc, EntryAt]))
  | unlock h hpc =>
    exact hi.pass h rfl rfl rfl rfl rfl (by simp [hpc, Pc.resets])
      (fun e ho _ => absurd ho.entry (by simp [hpc, EntryAt]))
  | deliver hpc hint h hr =>
    refine (hi.queue k).update rfl rfl ?_ (fun _ _ _ _ _ => rfl) ?_
    · exact fun hs => hs.imp_right (fun hp => hp.advance h rfl rfl id)
    · intro call' e ho
      have hun := ho.unserved
      simp [hpc, ProcPc.delivers, hint] at hun
  | takeStatus hpc htype =>
    refine (hi.queue k).keep rfl (by cases k <;> rfl) id ?_
    intro i call e ho
    simp only [ProcPc.delivers, decide_eq_false_iff_not]
    intro hd
    obtain ⟨call', hcall', hop, _⟩ := hi.status _ i hd
    cases Option.some.inj (ho.active.symm.trans hcall')
    have hk := ho.op
    simp [hop] at hk
  | take k' hpc htype => exact hi.take k' k
  | readerDrop hpc hmu hc =>
    exact (hi.queue k).keep rfl rfl (fun _ => Or.inr (Or.inl rfl)) (fun _ _ _ ho => ho.unserved)
  | readerResetCreated hpc =>
    cases k with
    | created => exact Or.inl rfl
    | echo =>
      exact (hi.queue .echo).keep rfl rfl
        (fun hs => hs.imp_right (fun hp => hp.keep rfl (fun _ => rfl)))
        (fun _ _ _ ho => ho.unserved)
  | readerResetEcho hpc =>
    cases k with
    | echo => exact Or.inl rfl
    | created =>
      exact (hi.queue .created).keep rfl rfl
        (fun hs => hs.imp_right (fun hp => hp.keep rfl (by simp [hpc, ReadPc.resets])))
        (fun _ _ _ ho => ho.unserved)
  | publish hpc hmu hc =>
    exact (hi.queue k).keep rfl rfl (fun _ => Or.inl (by simp)) (fun _ _ _ ho => ho.unserved)
  | reader hl =>
    refine (hi.queue k).keep rfl rfl ?_ (fun _ _ _ ho => ho.unserved)
    refine fun hs => hs.imp_right (fun hp => hp.keep rfl ?_)
    cases hl with
    | closed hpc hmu hc => rcases hpc with h | h | h <;> simp [h, ReadPc.resets]
    | _ => simp [*, ReadPc.resets]
  | send hpc hin hfull =>
    exact (hi.queue k).keep rfl rfl
      (fun hs => hs.imp_right (fun hp => hp.keep rfl (by simp [sending_resets hpc])))
      (fun _ _ _ ho => ho.unserved)
  | got hpc heq hnext =>
    refine (hi.queue k).keep rfl rfl id (fun _ _ _ _ => ?_)
    rcases hnext with rfl | rfl <;> rfl
  | _ => first
    | exact (hi.queue k).keep rfl rfl id (fun _ _ _ ho => ho.unserved)
    | exact (hi.queue k).keep rfl rfl id (fun _ _ _ _ => rfl)
    | exact (hi.queue k).keep rfl rfl
        (fun hs => hs.imp_right (fun hp => hp.keep rfl (by simp [*, ReadPc.resets])))
        (fun _ _ _ ho => ho.unserved)

theorem Rounds.named (hi : Rounds s) {i : ℕ} (h : s.handlers.Names i) :
    ∃ call, s.calls i = some call ∧ call.pc.early = false := by
  rcases h with ⟨k, hk⟩ | ⟨handle, hh⟩
  · obtain ⟨e, he, hint⟩ := HandlerSlot.mem_live.mp hk
    rcases hi.queue k with hq | ⟨j, call, e', ho⟩
    · simp [hq] at he
    · rw [ho.queue] at he
      cases List.mem_singleton.mp he
      cases ho.internal hint
      exact ⟨call, ho.active, ho.not_early⟩
  · obtain ⟨call, hcall, _, he⟩ := hi.status handle i hh
    exact ⟨call, hcall, he⟩

theorem Move.delivers (hm : Move cfg s a t) {i : ℕ} (h : t.proc.delivers i = true) :
    s.proc.delivers i = true ∨ s.handlers.Names i := by
  cases hm with
  | got hpc heq hnext => rcases hnext with rfl | rfl <;> cases h
  | takeStatus hpc htype =>
    simp only [ProcPc.delivers, decide_eq_true_eq] at h
    exact Or.inr (Or.inr ⟨_, h⟩)
  | take k hpc htype =>
    simp only [ProcPc.delivers, decide_eq_true_eq] at h
    exact Or.inr (Or.inl ⟨k, HandlerSlot.take_internal_mem h⟩)
  | _ => first | exact Or.inl h | cases h

theorem Rounds.fresh_move (hi : Rounds s) (hm : Move cfg s a t) : Fresh t := by
  have key : ∀ i, s.proc.delivers i = false →
      (∀ call, s.calls i = some call → call.pc.early = true) → t.proc.delivers i = false := by
    intro i hd hearly
    by_contra hne
    rcases hm.delivers (by simpa using hne) with h | h
    · simp [hd] at h
    · obtain ⟨call, hcall, he⟩ := hi.named h
      simp [hearly call hcall] at he
  constructor
  · intro i hnone
    have hs := hm.calls_stay hnone
    exact key i (hi.fresh.unbegun i hs) (by simp [hs])
  · intro i call' hcall' hearly
    rcases hm.call_origin hcall' with ⟨call, hcall, hadv⟩ | ⟨hnone, hres, _, _, hproc, _⟩
    · obtain ⟨hr, hd⟩ := hi.fresh.early i call hcall (hadv.forward.early hearly)
      refine ⟨by rw [hadv.unserved hd, hr], key i hd ?_⟩
      · intro c hc
        cases Option.some.inj (hcall.symm.trans hc)
        exact hadv.forward.early hearly
    · exact ⟨hres, hproc ▸ hi.fresh.unbegun i hnone⟩

theorem StatusOk.of_sub (hi : StatusOk s) (hm : Move cfg s a t)
    (h : ∀ handle i, t.handlers.status.lookup handle = some i →
      s.handlers.status.lookup handle = some i) : StatusOk t := by
  intro handle i hl
  obtain ⟨call, hcall, hop, he⟩ := hi handle i (h handle i hl)
  obtain ⟨call', hcall', hadv⟩ := hm.call hcall
  refine ⟨call', hcall', by rw [hadv.op]; exact hop, ?_⟩
  by_contra hne
  simp [hadv.forward.early (by simpa using hne)] at he

theorem Handlers.register_status {hs : Handlers} {op : Op} {i j : ℕ} {handle : Bytes}
    (h : (hs.register op i).1.status.lookup handle = some j) :
    hs.status.lookup handle = some j ∨ (j = i ∧ op = .status handle) := by
  cases op with
  | status name =>
    by_cases hne : handle = name
    · subst hne
      rw [register, StatusHandlers.set, AList.lookup_insert] at h
      exact Or.inr ⟨(Option.some.inj h).symm, rfl⟩
    · rw [register, StatusHandlers.set, AList.lookup_insert_ne hne] at h
      exact Or.inl h
  | _ => exact Or.inl h

theorem Handlers.cancel_status {hs : Handlers} {op : Op} {j : ℕ} {token : UInt64} {handle : Bytes}
    (h : (hs.cancel op token).status.lookup handle = some j) :
    hs.status.lookup handle = some j := by
  cases op with
  | status name => exact lookup_erase_some h
  | _ => exact h

theorem Handlers.giveUp_status {hs : Handlers} {op : Op} {j : ℕ} {token : UInt64} {expires : ℕ}
    {handle : Bytes} (h : (hs.giveUp op token expires).status.lookup handle = some j) :
    hs.status.lookup handle = some j := by
  cases op with
  | status name => exact lookup_erase_some h
  | _ => exact h

theorem StatusOk.move (hi : StatusOk s) (hm : Move cfg s a t) : StatusOk t := by
  have hm' := hm
  cases hm with
  | register h hpc =>
    intro handle i hl
    rcases Handlers.register_status hl with hl | ⟨rfl, hop⟩
    · obtain ⟨call, hcall, hop, he⟩ := hi handle i hl
      obtain ⟨call', hcall', hadv⟩ := hm'.call hcall
      refine ⟨call', hcall', by rw [hadv.op]; exact hop, ?_⟩
      by_contra hne
      simp [hadv.forward.early (by simpa using hne)] at he
    · exact ⟨_, Function.update_self .., by rw [hop]; rfl, rfl⟩
  | cancel h hpc => exact hi.of_sub hm' (fun _ _ => Handlers.cancel_status)
  | abandon h hpc => exact hi.of_sub hm' (fun _ _ => Handlers.giveUp_status)
  | takeStatus hpc htype => exact hi.of_sub hm' (fun _ _ => Handlers.lookup_erase_some)
  | take k hpc htype => exact hi.of_sub hm' (fun _ _ h => by cases k <;> exact h)
  | _ => exact hi.of_sub hm' (fun _ _ h => h)

theorem Rounds.move (hi : Rounds s) (hm : Move cfg s a t) : Rounds t where
  wired := hi.wired.move hm
  shaped := hi.shaped.move hm
  locks := hi.locks.move hi.shaped hm
  fresh := hi.fresh_move hm
  status := hi.status.move hm
  queue := hi.queue_move hm

theorem rounds_new (cfg : Cfg) : Rounds (new cfg) where
  wired := wired_new cfg
  shaped := fun i call h => by cases h
  locks := by
    refine ⟨?_, ?_, by simp [new, ReadPc.resets]⟩
    · intro i call h
      cases h
    · intro i call h
      cases h
  fresh := ⟨fun _ _ => rfl, fun i call h => by cases h⟩
  status := fun handle i h => by cases h
  queue := fun k => by cases k <;> exact Or.inl rfl

theorem Rounds.run (hi : Rounds s) (h : Reachable (step cfg) always s t) : Rounds t :=
  h.invariant hi (fun _ _ _ hi _ hs => hi.move (step_move hs))

/-- The two queues hold at most one entry, and none unless a call to `do` or `Echo` holds
`client.Mutex`. -/
theorem queues_between_round_trips (cfg : Cfg) (t : St)
    (h : Reachable (step cfg) always (new cfg) t) :
    t.handlers.created.queue.length + t.handlers.echo.queue.length ≤ 1 ∧
    ((¬ ∃ i call, t.mutex = some i ∧ t.calls i = some call ∧ call.op.slot ≠ none) →
      t.handlers.created.queue = [] ∧ t.handlers.echo.queue = []) := by
  have hi := (rounds_new cfg).run h
  have hholder : ∀ {k i call e}, Owned t k i call e →
      ∃ i call, t.mutex = some i ∧ t.calls i = some call ∧ call.op.slot ≠ none := by
    intro k i call e ho
    exact ⟨i, call, hi.locks.mutex i call ho.active ho.holds, ho.active, by simp [ho.op]⟩
  constructor
  · have hc : t.handlers.created.queue.length ≤ 1 := (hi.queue .created).only.length_le
    have he : t.handlers.echo.queue.length ≤ 1 := (hi.queue .echo).only.length_le
    rcases hi.queue .created with hq | ⟨i, call, e, ho⟩
    · have hlen : t.handlers.created.queue.length = 0 := congrArg List.length hq
      omega
    · rcases hi.queue .echo with hq | ⟨j, call', e', ho'⟩
      · have hlen : t.handlers.echo.queue.length = 0 := congrArg List.length hq
        omega
      · have hboth := (hi.locks.owner ho.active ho.holds ho').op
        simp [ho.op] at hboth
  · intro hno
    constructor
    · rcases hi.queue .created with hq | ⟨i, call, e, ho⟩
      · exact hq
      · exact absurd (hholder ho) hno
    · rcases hi.queue .echo with hq | ⟨i, call, e, ho⟩
      · exact hq
      · exact absurd (hholder ho) hno

/-- An `Echo` that has been written and waits for its reply. -/
def echoActs : List Act :=
  [.call 0 (.echo [1]), .caller 0, .caller 0, .caller 0, .caller 0, .write 0 none]

theorem queues_in_round_trip :
    ∃ t, Reachable (step demoCfg) always (new demoCfg) t ∧ t.handlers.echo.queue.length = 1 ∧
      t.handlers.created.queue.length + t.handlers.echo.queue.length ≤ 1 :=
  ⟨_, ⟨echoActs, rfl⟩, rfl, (queues_between_round_trips demoCfg _ ⟨echoActs, rfl⟩).1⟩

end Gearman.Client
