import Gearman.ClientRouting

/-!
# Submissions that fail

The closure that `do` leaves in the slot has a case for `ERROR`, but `processLoop` takes the
slot only for `JOB_CREATED` and hands every `ERROR` to the error handler: a refused call waits
until its timeout and drops the connection.

A call that gives up takes its entry out of the slot. If `processLoop` has taken the entry
before, the handler for the job is entered into its map all the same.
-/

namespace Gearman.Client
open Transition Subscription

structure Waiting (s : St) (i : ℕ) (call : Call) : Prop where
  active : s.calls i = some call
  op : call.op.slot = some .created
  pc : ∃ token deadline, call.pc = .wait token deadline
  result : call.result = none
  entry : i ∈ s.handlers.created.live

/-- `processLoop` until it is back at its channel, for at most `n` steps. -/
def finish : ℕ → St → Option St
  | 0, s => some s
  | n + 1, s => if s.proc = .recv then some s else (processStep s).bind (finish n)

structure Answered (s t : St) (i : ℕ) (call : Call) (p : Packet) : Prop where
  result : t.calls i = some { call with result := some p }
  consumed : i ∉ t.handlers.created.live
  conn : t.conn = s.conn

def Ret.plain : Ret → Bool
  | .handle _ => true
  | .err e => e = .lostConn
  | _ => false

def Pc.unrefused : Pc → Bool
  | .wait _ _ => true
  | .abandon _ => true
  | .closeConn => true
  | .resetCreated => true
  | .resetEcho => true
  | .unlock ret => ret.plain
  | .returned ret => ret.plain
  | _ => false

variable {cfg : Cfg} {s t : St} {a : Act} {i : ℕ} {call : Call} {p : Packet} {x : History}

theorem recorded_reachable {allow : St → Act → Bool}
    (h : Reachable (step cfg) allow (new cfg) s) : ∃ x, Recorded s x := by
  refine h.invariant (I := fun u => ∃ x, Recorded u x) ⟨{}, recorded_new cfg⟩ ?_
  rintro u act v ⟨x, hx⟩ _ hstep
  exact ⟨x.note u act v, hx.move (step_move hstep)⟩

theorem Recorded.created (hi : Recorded s x) (hcall : s.calls i = some call)
    (hop : call.op.slot = some .created) (hr : call.result = some p) :
    p.resp.dataType = dtJobCreated := by
  obtain ⟨q, -, -, -, -, hslot⟩ := hi.filed.result i call p hcall hr
  exact (hslot .created).mp hop

theorem finish_reachable {n : ℕ} (h : finish n s = some t) :
    Reachable (step cfg) always s t := by
  induction n generalizing s with
  | zero =>
    cases h
    exact .refl _
  | succ n ih =>
    rw [finish] at h
    split_ifs at h
    · cases h
      exact .refl _
    · obtain ⟨u, hu, h⟩ := Option.bind_eq_some_iff.mp h
      exact (Reachable.single rfl (a := .process) hu).trans (ih h)

theorem Waiting.queue (hw : Waiting s i call) (hr : Rounds s) :
    ∃ e, s.handlers.created.queue = [e] ∧ e.h.internal = some i := by
  obtain ⟨e, he, hint⟩ := HandlerSlot.mem_live.mp hw.entry
  rcases hr.queue .created with hnil | ⟨j, call', e', ho⟩
  · rw [show s.handlers.created.queue = [] from hnil] at he
    cases he
  · have hq : s.handlers.created.queue = [e'] := ho.queue
    rw [hq] at he
    cases List.mem_singleton.mp he
    exact ⟨e, hq, hint⟩

theorem finish_step {n : ℕ} {u : St} (hp : s.proc ≠ .recv) (h : processStep s = some u) :
    finish (n + 1) s = finish n u := by
  rw [finish, if_neg hp, h, Option.bind_some]

theorem finish_got {n : ℕ} (hgot : s.proc = .got p) (hset : s.optionPending = false)
    (ht : p.resp.dataType ≠ dtOptionSent) :
    finish (n + 1) s = finish n { s with proc := .dispatch p } := by
  refine finish_step (by simp [hgot]) ?_
  simp [processStep, hgot, gotStep, hset, ht]

theorem processStep_deliver {h : HandledResponse ℕ ℕ} (hpc : s.proc = .deliver h p)
    (hi : h.internal = some i) (hcall : s.calls i = some call) (hr : call.result = none) :
    processStep s = some { s with
      rhandlers := retain s h p
      calls := Function.update s.calls i (some { call with result := some p })
      proc := .recv } := by
  simp [processStep, hpc, deliverStep, hi, hcall, hr]

theorem Waiting.answered (hw : Waiting s i call) (hr : Rounds s) (hgot : s.proc = .got p)
    (hset : s.optionPending = false) (ht : p.resp.dataType = dtJobCreated) :
    ∃ t, finish 3 s = some t ∧ Answered s t i call p := by
  obtain ⟨e, hq, hint⟩ := hw.queue hr
  have htake : s.handlers.created.take s.now = ({ s.handlers.created with queue := [] }, e.h) := by
    simp [HandlerSlot.take, hq, HandlerSlot.spent, hint]
  obtain ⟨u, hu, hproc, hcalls, hqueue, hconn⟩ :
      ∃ u, processStep { s with proc := .dispatch p } = some u ∧ u.proc = .deliver e.h p ∧
        u.calls = s.calls ∧ u.handlers.created.queue = [] ∧ u.conn = s.conn := by
    refine ⟨_, rfl, ?_⟩
    simp [dispatchStep, ht, htake, dtJobCreated, dtError, dtOptionRes, dtStatusRes]
  have hdeliver := processStep_deliver hproc hint (hcalls ▸ hw.active) hw.result
  rw [finish_got hgot hset (by rw [ht]; decide), finish_step (by simp) hu,
    finish_step (by simp [hproc]) hdeliver, finish]
  refine ⟨_, rfl, Function.update_self .., ?_, hconn⟩
  simp [HandlerSlot.live, hqueue]

theorem finish_error (hgot : s.proc = .got p) (hset : s.optionPending = false)
    (ht : p.resp.dataType = dtError) :
    finish 3 s =
      some { s with errs := s.errs ++ [getError (p.resp.data.getD [])], proc := .recv } := by
  rw [finish_got hgot hset (by rw [ht]; decide),
    finish_step (by simp) (show processStep _ = some _ from rfl)]
  simp [dispatchStep, ht, finish]

theorem Local.unrefused {pc : Pc} (hl : Local s call pc) (hop : call.op.slot = some .created)
    (hr : ∀ p, call.result = some p → p.resp.dataType = dtJobCreated)
    (h : call.pc.unrefused = true) : pc.unrefused = true := by
  cases hl with
  | @replied token deadline p hpc hres =>
    have htype : p.resp.dataType ≠ dtError := by
      rw [hr p hres]
      decide
    cases ho : call.op with
    | submit bg funcname data flag cb uid => simp [Op.reply, htype, Pc.unrefused, Ret.plain]
    | _ => simp [ho, Op.slot] at hop
  | timedOut hpc hd => rfl
  | noConn hpc hmu hc =>
    cases ho : call.op with
    | submit bg funcname data flag cb uid => rfl
    | _ => simp [ho, Op.slot] at hop
  | _ => simp_all [Pc.unrefused]

theorem Shared.unrefused {pc : Pc} (hs : Shared t call pc) (hop : call.op.slot = some .created)
    (h : call.pc.unrefused = true) : pc.unrefused = true := by
  cases ho : call.op with
  | submit bg funcname data flag cb uid =>
    cases hs with
    | abandon hpc =>
      rw [ho]
      rfl
    | resetEcho hpc =>
      rw [ho]
      rfl
    | _ => simp_all [Pc.unrefused]
  | _ => simp [ho, Op.slot] at hop

theorem unrefused_reachable (hs : Reachable (step cfg) always (new cfg) s)
    (ht : Reachable (step cfg) always s t) (hcall : s.calls i = some call)
    (hop : call.op.slot = some .created) (hpc : call.pc.unrefused = true) :
    ∃ call', t.calls i = some call' ∧ call'.pc.unrefused = true := by
  have hi : ∃ x, Recorded t x ∧ ∃ call', t.calls i = some call' ∧
      call'.op.slot = some .created ∧ call'.pc.unrefused = true := by
    refine ht.invariant (I := fun u => ∃ x, Recorded u x ∧ ∃ call', u.calls i = some call' ∧
      call'.op.slot = some .created ∧ call'.pc.unrefused = true) ?_ ?_
    · obtain ⟨x, hx⟩ := recorded_reachable hs
      exact ⟨x, hx, call, hcall, hop, hpc⟩
    · rintro u act v ⟨x, hx, call', hcall', hop', hpc'⟩ _ hstep
      have hm : Move cfg u act v := step_move hstep
      obtain ⟨call'', hcall'', hadv⟩ := hm.call hcall'
      refine ⟨x.note u act v, hx.move hm, call'', hcall'', hadv.op ▸ hop', ?_⟩
      rcases hadv.pc with heq | hl | hsh
      · exact heq ▸ hpc'
      · exact hl.unrefused hop' (fun p hr => hx.created hcall' hop' hr) hpc'
      · exact hsh.unrefused hop' hpc'
  obtain ⟨x, -, call', hcall', -, hpc'⟩ := hi
  exact ⟨call', hcall', hpc'⟩

theorem getError_ne_lostConn (body : Bytes) : getError body ≠ .lostConn := by
  unfold getError
  split <;> exact nofun

theorem submit_answered_iff (cfg : Cfg) (s : St) (i : ℕ) (call : Call) (p : Packet)
    (hs : Reachable (step cfg) always (new cfg) s) (hw : Waiting s i call)
    (hgot : s.proc = .got p) (hset : s.optionPending = false) :
    ((∃ t, finish 3 s = some t ∧ Answered s t i call p) ↔ p.resp.dataType = dtJobCreated) ∧
      (p.resp.dataType = dtError → finish 3 s =
        some { s with errs := s.errs ++ [getError (p.resp.data.getD [])], proc := .recv }) ∧
      ∀ t call' body, Reachable (step cfg) always s t → t.calls i = some call' →
        call'.pc ≠ .returned (.err (getError body)) := by
  obtain ⟨x, hx⟩ := recorded_reachable hs
  refine ⟨⟨?_, hw.answered hx.rounds hgot hset⟩, finish_error hgot hset, ?_⟩
  · rintro ⟨t, hfin, hans⟩
    obtain ⟨x', hx'⟩ := recorded_reachable (hs.trans (finish_reachable hfin))
    exact hx'.created hans.result hw.op rfl
  · intro t call' body ht hcall' hret
    obtain ⟨token, deadline, hpc⟩ := hw.pc
    obtain ⟨call'', hcall'', hun⟩ :=
      unrefused_reachable hs ht hw.active hw.op (by rw [hpc]; rfl)
    cases Option.some.inj (hcall'.symm.trans hcall'')
    rw [hret] at hun
    exact getError_ne_lostConn body (of_decide_eq_true hun)

def answeredActs (dataType : UInt32) (body : Bytes) : List Act :=
  submitActs 0 (some 7) ++ [.answer 0 0 dataType body] ++ passActs 1

theorem submit_answered_created :
    ∃ s call p t,
      run (step demoCfg) always (new demoCfg) (answeredActs dtJobCreated [72]) = some s ∧
      finish 3 s = some t ∧ Answered s t 0 call p := by
  obtain ⟨s, call, p, hs, hcall, hop, hpc, hres, hlive, hgot, hset, htype⟩ :
      ∃ s call p,
        run (step demoCfg) always (new demoCfg) (answeredActs dtJobCreated [72]) = some s ∧
        s.calls 0 = some call ∧ call.op.slot = some .created ∧ call.pc = .wait 0 5 ∧
        call.result = none ∧ s.handlers.created.live = [0] ∧ s.proc = .got p ∧
        s.optionPending = false ∧ p.resp.dataType = dtJobCreated :=
    ⟨_, _, _, rfl, rfl, rfl, rfl, rfl, rfl, rfl, rfl, rfl⟩
  have hw : Waiting s 0 call := ⟨hcall, hop, ⟨0, 5, hpc⟩, hres, by simp [hlive]⟩
  obtain ⟨t, hfin, hans⟩ :=
    (submit_answered_iff demoCfg s 0 call p ⟨_, hs⟩ hw hgot hset).1.mpr htype
  exact ⟨s, call, p, t, hs, hfin, hans⟩

theorem refused_submit_times_out :
    ∃ s call p t, run (step demoCfg) always (new demoCfg) (answeredActs dtError [69, 0, 101]) =
        some s ∧
      Waiting s 0 call ∧ s.proc = .got p ∧ s.optionPending = false ∧ p.answers = some 0 ∧
      p.resp.dataType = dtError ∧ p.resp.data = some [69, 0, 101] ∧
      run (step demoCfg) always s ([.process, .process, .tick 5, .timeout 0] ++
        List.replicate 5 (.caller 0)) = some t ∧
      (t.calls 0).map Call.pc = some (.returned (.err .lostConn)) ∧
      t.errs = [getError [69, 0, 101]] ∧ t.conn = none := by
  refine ⟨_, _, _, _, rfl, ⟨rfl, rfl, ⟨_, _, rfl⟩, rfl, ?_⟩, rfl, rfl, rfl, rfl, rfl, rfl, rfl, rfl,
    rfl⟩
  exact List.mem_cons_self

def Pc.givesUp : Pc → Bool
  | .cancel _ _ => true
  | .abandon _ => true
  | _ => false

def Pc.failed : Pc → Bool
  | .closeConn => true
  | .resetCreated => true
  | .resetEcho => true
  | .unlock (.err _) => true
  | .returned (.err _) => true
  | _ => false

def unserved (s : St) (i : ℕ) : Bool :=
  !s.proc.delivers i && ((s.calls i).bind Call.result).isNone

/-- When call `i` takes its entry out of the slot, `processLoop` has not taken it. -/
def prompt (i : ℕ) (s : St) : Act → Bool
  | .caller j => j ≠ i || !(s.calls i).any (fun call => call.pc.givesUp) || unserved s i
  | _ => true

/-- Nothing is left of the handler of call `i`: neither the slot nor `processLoop` has it, no
handler in the map is from this call, and it has not been invoked. -/
structure Forgotten (s : St) (log : List Processed) (i : ℕ) : Prop where
  queue : ∀ e ∈ s.handlers.created.queue, e.h.internal ≠ some i
  proc : s.proc.delivers i = false
  map : ∀ handle cb, s.rhandlers.lookup handle = some cb → ∃ q ∈ log,
    q.registers = some (handle, cb) ∧ q.taken.internal ≠ some i
  invoked : ∃ received : List (ℕ × ℕ × Packet), s.callbacks = received.map Prod.snd ∧
    Routes log received ∧ ∀ w ∈ received, ∀ q, log[w.1]? = some q → q.taken.internal ≠ some i

structure Unserved (i : ℕ) (s : St) (log : List Processed) : Prop where
  failed : ∀ call, s.calls i = some call → call.op.slot = some .created →
    call.pc.failed = true → call.result = none ∧ s.proc.delivers i = false
  logged : ∀ q ∈ log, q.taken.internal = some i →
    ∃ call p, s.calls i = some call ∧ call.result = some p

theorem unserved_iff (hcall : s.calls i = some call) :
    unserved s i = true ↔ call.result = none ∧ s.proc.delivers i = false := by
  simp [unserved, hcall, and_comm]

theorem Move.giver {call' : Call} (hm : Move cfg s a t) (hcall : s.calls i = some call)
    (hg : call.pc.givesUp = true) (hcall' : t.calls i = some call') (hne : call'.pc ≠ call.pc) :
    a = .caller i := by
  obtain ⟨new, hnew, hturn⟩ := hm.turn hcall
  cases Option.some.inj (hnew.symm.trans hcall')
  cases hturn with
  | other => exact absurd rfl hne
  | served hd hint => exact absurd rfl hne
  | pc hl => cases hl <;> simp_all [Pc.givesUp]
  | written hpc hconn => simp [hpc, Pc.givesUp] at hg
  | own hs hw ha => exact ha

theorem Local.failed {pc : Pc} (hl : Local s call pc) (h : pc.failed = true) :
    call.pc.failed = true ∨ call.pc.early = true ∨
      ∃ p, call.result = some p ∧ pc = .unlock (call.op.reply p.resp) := by
  cases hl with
  | startLost hpc hmu hc => exact Or.inr (Or.inl (by rw [hpc]; rfl))
  | invalidId hpc hid => exact Or.inr (Or.inl (by rw [hpc]; rfl))
  | enterLost hpc hid hmu hc => exact Or.inr (Or.inl (by rw [hpc]; rfl))
  | replied hpc hr => exact Or.inr (Or.inr ⟨_, hr, rfl⟩)
  | noConn hpc hmu hc => exact Or.inl (by rw [hpc]; rfl)
  | _ => cases h

theorem Shared.failed {pc : Pc} (hs : Shared t call pc) (h : pc.failed = true) :
    call.pc.failed = true ∨ call.pc.givesUp = true ∨ call.pc = .setClosed := by
  cases hs with
  | cancel hpc => exact Or.inr (Or.inl (by rw [hpc]; rfl))
  | abandon hpc => exact Or.inr (Or.inl (by rw [hpc]; rfl))
  | setClosed hpc => exact Or.inr (Or.inr hpc)
  | drop hpc hc => exact Or.inl (by rw [hpc]; rfl)
  | resetCreated hpc => exact Or.inl (by rw [hpc]; rfl)
  | resetEcho hpc => exact Or.inl (by rw [hpc]; rfl)
  | @unlock ret hpc =>
    refine Or.inl ?_
    rw [hpc]
    cases ret <;> first | rfl | cases h
  | _ => cases h

theorem Unserved.before (hi : Unserved i s x.log) (hrec : Recorded s x)
    (hg : prompt i s a = true) (hm : Move cfg s a t) {call' : Call} (hcall : s.calls i = some call)
    (hadv : Advance s t i call call') (hop : call.op.slot = some .created)
    (hcall' : t.calls i = some call') (hf : call'.pc.failed = true) :
    call.result = none ∧ s.proc.delivers i = false := by
  have hold : call.pc.failed = true → call.result = none ∧ s.proc.delivers i = false :=
    hi.failed call hcall hop
  rcases hadv.pc with heq | hl | hsh
  · exact hold (heq ▸ hf)
  · rcases hl.failed hf with h | h | ⟨p, hres, hpc⟩
    · exact hold h
    · exact hrec.rounds.fresh.early i call hcall h
    · have htype : p.resp.dataType ≠ dtError := by
        rw [hrec.created hcall hop hres]
        decide
      cases ho : call.op with
      | submit bg funcname data flag cb uid =>
        rw [hpc, ho] at hf
        simp [Op.reply, htype, Pc.failed] at hf
      | _ => simp [ho, Op.slot] at hop
  · rcases hsh.failed hf with h | h | h
    · exact hold h
    · have hne : call'.pc ≠ call.pc := by
        intro heq
        rw [heq] at hf
        cases hpc : call.pc <;> simp [hpc, Pc.givesUp, Pc.failed] at h hf
      cases hm.giver hcall h hcall' hne
      have hun : unserved s i = true := by simpa [prompt, hcall, h] using hg
      exact (unserved_iff hcall).mp hun
    · have hclose := hrec.rounds.shaped i call hcall h
      simp [hclose, Op.slot] at hop

theorem Recorded.not_taken (hrec : Recorded s x) (hm : Move cfg s a t)
    (hcall : s.calls i = some call) (hop : call.op.slot = some .created)
    (hold : s.proc.delivers i = false) {call' : Call} (hcall' : t.calls i = some call')
    (hf : call'.pc.failed = true) : t.proc.delivers i = false := by
  by_contra hd
  have hd : t.proc.delivers i = true := by simpa using hd
  cases hpc : t.proc with
  | deliver h p =>
    have hint : h.internal = some i := by simpa [hpc, ProcPc.delivers] using hd
    rcases hm.delivering hpc with hs | ⟨-, -, ⟨hs, ht⟩, hl | ⟨k, -, hk⟩⟩
    · simp [hs, ProcPc.delivers, hint] at hold
    · obtain ⟨call₁, hcall₁, hslot, -⟩ := hrec.rounds.status _ i (hl.symm.trans hint)
      cases Option.some.inj (hcall.symm.trans hcall₁)
      simp [hop] at hslot
    · rw [hk] at hint
      obtain ⟨call₁, e, ho, he⟩ := (hrec.rounds.queue k).take hint
      rw [ht] at hcall'
      cases Option.some.inj (hcall'.symm.trans ho.active)
      have hentry := ho.entry
      rw [← he] at hint
      cases hpc₁ : call'.pc <;> simp_all [EntryAt, Pc.failed]
  | _ => simp [hpc, ProcPc.delivers] at hd

theorem Move.deliver_result (hm : Move cfg s a t) {h : HandledResponse ℕ ℕ}
    (hpc : s.proc = .deliver h p) (hint : h.internal = some i) (ht : t.proc = .recv) :
    ∃ call, t.calls i = some call ∧ call.result = some p := by
  cases hm with
  | deliver hpc' hint' hcall hr =>
    cases hpc.symm.trans hpc'
    cases hint.symm.trans hint'
    exact ⟨_, Function.update_self .., rfl⟩
  | dropReply hpc' hnone =>
    cases hpc.symm.trans hpc'
    cases hint.symm.trans hnone
  | recv hpc' hin => cases hpc.symm.trans hpc'
  | procExit hpc' hin hc => cases hpc.symm.trans hpc'
  | got hpc' heq hnext => cases hpc.symm.trans hpc'
  | dispatched hpc' htype heq => cases hpc.symm.trans hpc'
  | takeStatus hpc' htype => cases hpc.symm.trans hpc'
  | take k hpc' htype => cases hpc.symm.trans hpc'
  | _ => cases hpc.symm.trans ht

theorem Unserved.move (hi : Unserved i s x.log) (hrec : Recorded s x)
    (hg : prompt i s a = true) (hm : Move cfg s a t) : Unserved i t (x.note s a t).log where
  failed := by
    intro call' hcall' hop hf
    rcases hm.call_origin hcall' with ⟨call, hcall, hadv⟩ | ⟨-, -, hentry, -⟩
    · have hop' : call.op.slot = some .created := hadv.op ▸ hop
      obtain ⟨hres, hd⟩ := hi.before hrec hg hm hcall hadv hop' hcall' hf
      exact ⟨(hadv.unserved hd).trans hres, hrec.not_taken hm hcall hop' hd hcall' hf⟩
    · rw [hentry] at hf
      cases ho : call'.op with
      | submit bg funcname data flag cb uid => cases bg <;> simp [ho, Op.entry, Pc.failed] at hf
      | _ => simp [ho, Op.entry, Pc.failed] at hf
  logged := by
    have keep : (∃ call p, s.calls i = some call ∧ call.result = some p) →
        ∃ call p, t.calls i = some call ∧ call.result = some p := by
      rintro ⟨call, p, hcall, hres⟩
      obtain ⟨call', hcall', hadv⟩ := hm.call hcall
      rcases hadv.result with heq | ⟨h, p', -, -, hp'⟩
      · exact ⟨call', p, hcall', heq.trans hres⟩
      · exact ⟨call', p', hcall', hp'⟩
    intro q hq hint
    rcases hm.logged x with heq | ⟨q', heq, -, hcur, hrecv⟩
    · exact keep (hi.logged q (heq ▸ hq) hint)
    · rw [heq, List.mem_append, List.mem_singleton] at hq
      rcases hq with hq | rfl
      · exact keep (hi.logged q hq hint)
      · cases hpc : s.proc with
        | deliver h p =>
          rw [hpc] at hcur
          cases hcur
          obtain ⟨call, hcall, hres⟩ := hm.deliver_result hpc hint hrecv
          exact ⟨call, p, hcall, hres⟩
        | _ =>
          rw [hpc] at hcur
          cases hcur <;> cases hint

theorem unserved_new (cfg : Cfg) (i : ℕ) : Unserved i (new cfg) [] where
  failed := by
    intro call hcall
    cases hcall
  logged := by
    intro q hq
    cases hq

theorem Rounds.no_entry (hr : Rounds s) (hcall : s.calls i = some call) {ret : Ret}
    (hpc : call.pc = .returned ret) {k : Which} {e : SlotEntry ℕ ℕ}
    (he : e ∈ (s.handlers.slot k).queue) : e.h.internal ≠ some i := by
  intro hint
  rcases hr.queue k with hnil | ⟨j, call', e', ho⟩
  · rw [hnil] at he
    cases he
  · rw [ho.queue, List.mem_singleton] at he
    subst he
    cases ho.internal hint
    cases Option.some.inj (hcall.symm.trans ho.active)
    have hentry := ho.entry
    rw [hpc] at hentry
    exact hentry

theorem failed_submit_forgotten (cfg : Cfg) (i : ℕ) (y : St × History) (call : Call) (e : Err)
    (hy : Reachable (traced (step cfg) History.note) (fun x a => prompt i x.1 a) (new cfg, {}) y)
    (hcall : y.1.calls i = some call) (hop : call.op.slot = some .created)
    (hret : call.pc = .returned (.err e)) : Forgotten y.1 y.2.log i := by
  have hi : Recorded y.1 y.2 ∧ Unserved i y.1 y.2.log := by
    refine hy.invariant (I := fun y => Recorded y.1 y.2 ∧ Unserved i y.1 y.2.log)
      ⟨recorded_new cfg, unserved_new cfg i⟩ ?_
    rintro y act z ⟨hrec, hun⟩ hg hstep
    obtain ⟨hs, hz⟩ := traced_eq_some.mp hstep
    rw [hz]
    exact ⟨hrec.move (step_move hs), hun.move hrec hg (step_move hs)⟩
  obtain ⟨hrec, hun⟩ := hi
  obtain ⟨hres, hd⟩ := hun.failed call hcall hop (by rw [hret]; rfl)
  have hlog : ∀ q ∈ y.2.log, q.taken.internal ≠ some i := by
    intro q hq hint
    obtain ⟨call', p, hcall', hres'⟩ := hun.logged q hq hint
    cases Option.some.inj (hcall.symm.trans hcall')
    cases hres.symm.trans hres'
  refine ⟨?_, hd, ?_, ?_⟩
  · exact fun e he => hrec.rounds.no_entry hcall hret (k := .created) he
  · intro handle cb hcb
    rw [hrec.routed.owner handle] at hcb
    obtain ⟨⟨r, cb'⟩, howner, rfl⟩ := Option.map_eq_some_iff.mp hcb
    obtain ⟨q, hq, hreg⟩ :=
      Option.bind_eq_some_iff.mp (events_getElem?.mp (owner_iff.mp howner).1)
    have hmem := List.mem_of_getElem? hq
    exact ⟨q, hmem, hreg, hlog q hmem⟩
  · refine ⟨_, hrec.routed.callbacks, routes_routed y.2.log, ?_⟩
    intro w _ q hq
    exact hlog q (List.mem_of_getElem? hq)

def timedOutActs : List Act := [.tick 5, .timeout 0] ++ List.replicate 5 (.caller 0)

theorem failed_submit_forgotten_late :
    ∃ y, run (traced (step demoCfg) History.note) (fun x a => prompt 0 x.1 a) (new demoCfg, {})
        (submitActs 0 (some 7) ++ timedOutActs) = some y ∧ Forgotten y.1 y.2.log 0 := by
  obtain ⟨y, call, hy, hcall, hop, hpc⟩ :
      ∃ y call, run (traced (step demoCfg) History.note) (fun x a => prompt 0 x.1 a)
          (new demoCfg, {}) (submitActs 0 (some 7) ++ timedOutActs) = some y ∧
        y.1.calls 0 = some call ∧ call.op.slot = some .created ∧
        call.pc = .returned (.err .lostConn) :=
    ⟨_, _, rfl, rfl, rfl, rfl⟩
  exact ⟨y, hy, failed_submit_forgotten demoCfg 0 y call .lostConn ⟨_, hy⟩ hcall hop hpc⟩

def takenActs : List Act :=
  submitActs 0 (some 7) ++ [.answer 0 0 dtJobCreated [72], .push 0 dtWorkComplete [72, 0, 100]] ++
    passActs 0 ++ passActs 3

/-- The call returns an error; its handler is entered into the map and invoked afterwards. -/
theorem failed_submit_invoked :
    ∃ s t u, run (step demoCfg) always (new demoCfg) (takenActs ++ timedOutActs) = some s ∧
      (s.calls 0).map Call.pc = some (.returned (.err .lostConn)) ∧ s.callbacks = [] ∧
      run (step demoCfg) always s [.process] = some t ∧ t.rhandlers.lookup [72] = some 7 ∧
      run (step demoCfg) always t [.process, .process, .process] = some u ∧
      u.callbacks.map (fun w => (w.1, w.2.resp.dataType)) = [(7, dtWorkComplete)] :=
  ⟨_, _, _, rfl, rfl, rfl, rfl, rfl, rfl, rfl⟩

end Gearman.Client
