import Gearman.ClientProgress
import Gearman.GoTimer

/-!
# The response timer of a client

A client waits for all its replies with one timer: `startTimer` creates or resets it after the
request is written, and the deferred `stopTimer` runs before `Unlock`. The machine of the client
knows nothing of it and gives each wait a deadline of its own. Here the timer stands beside that
machine, and the waits look only at the timer.
-/

namespace Gearman.Client
open Transition

variable {cfg : Cfg} {s t : St} {a : Act} {i : ℕ} {call call' : Call}

theorem Op.afterClose_ne_wait (op : Op) (token : UInt64) (deadline : ℕ) :
    op.afterClose ≠ .wait token deadline := by
  cases op <;> simp [Op.afterClose]

theorem Op.afterAbandon_ne_wait (op : Op) (token : UInt64) (deadline : ℕ) :
    op.afterAbandon ≠ .wait token deadline := by
  cases op <;> simp [Op.afterAbandon]

theorem Local.not_wait {pc : Pc} (h : Local s call pc) (token : UInt64) (deadline : ℕ) :
    pc ≠ .wait token deadline := by
  cases h with
  | noConn hpc hmu hc => exact call.op.afterClose_ne_wait token deadline
  | _ => simp

theorem Move.wait_origin (hm : Move cfg s a t) (hcall' : t.calls i = some call') {token : UInt64}
    {deadline : ℕ} (hpc' : call'.pc = .wait token deadline) :
    (∃ call, s.calls i = some call ∧ call.pc = .wait token deadline) ∨
      a = .write i none ∧ deadline = s.now + cfg.responseTimeout := by
  have key : ∀ {j : ℕ} (new : Call), (new.pc = .wait token deadline →
      (∃ call, s.calls j = some call ∧ call.pc = .wait token deadline) ∨
        a = .write j none ∧ deadline = s.now + cfg.responseTimeout) →
      Function.update s.calls j (some new) i = some call' →
      (∃ call, s.calls i = some call ∧ call.pc = .wait token deadline) ∨
        a = .write i none ∧ deadline = s.now + cfg.responseTimeout := by
    intro j new hnew hup
    rcases update_eq_some hup with ⟨rfl, rfl⟩ | ⟨-, hold⟩
    · exact hnew hpc'
    · exact Or.inl ⟨call', hold, hpc'⟩
  cases hm with
  | begin j op h =>
    refine key _ (fun hw => absurd hw ?_) hcall'
    cases op with
    | submit bg funcname data flag h id => cases bg <;> simp [Op.entry]
    | _ => simp [Op.entry]
  | pc h hl => exact key _ (fun hw => absurd hw (hl.not_wait token deadline)) hcall'
  | written h hpc hopen =>
    refine key _ (fun hw => Or.inr ⟨rfl, ?_⟩) hcall'
    cases hw
    rfl
  | @abandon j call token' h hpc =>
    exact key _ (fun hw => absurd hw (call.op.afterAbandon_ne_wait token deadline)) hcall'
  | @resetEcho j call h hpc =>
    exact key _ (fun hw => absurd hw (call.op.afterClose_ne_wait token deadline)) hcall'
  | @deliver h p j call hpc hi hcall hr =>
    exact key { call with result := some p } (fun hw => Or.inl ⟨call, hcall, hw⟩) hcall'
  | lock | register | cancel | setClosed | drop | resetCreated | unlock =>
    exact key _ (by simp) hcall'
  | _ => exact Or.inl ⟨call', hcall', hpc'⟩

def Soon (cfg : Cfg) (s : St) : Prop :=
  ∀ i call, s.calls i = some call → ∀ token deadline, call.pc = .wait token deadline →
    deadline ≤ s.now + cfg.responseTimeout

theorem Soon.move (hs : Soon cfg s) (hm : Move cfg s a t) : Soon cfg t := by
  intro i call hcall token deadline hpc
  have hnow := hm.now_le
  rcases hm.wait_origin hcall hpc with ⟨old, hold, hw⟩ | ⟨-, hdeadline⟩
  · have hle := hs i old hold token deadline hw
    omega
  · omega

def Call.waited (call : Call) : Bool :=
  decide (call.op ≠ .close) && match call.pc with
    | .wait _ _ => true
    | .abandon _ => true
    | .closeConn => true
    | .resetCreated => true
    | .resetEcho => true
    | .unlock _ => true
    | _ => false

theorem Call.holds_of_waited (h : call.waited = true) : call.holds = true := by
  cases hpc : call.pc <;> simp_all [Call.waited, Call.holds]

theorem waited_of_wait {token : UInt64} {deadline : ℕ} (h : call.pc = .wait token deadline)
    (hop : call.op ≠ .close) : call.waited = true := by
  simp [Call.waited, h, hop]

theorem Turn.waited (h : Turn s a t i call call') (hw : call.waited = true)
    (hun : ∀ ret, call.pc = .unlock ret → a ≠ .caller i) : call'.waited = true := by
  cases h with
  | other => exact hw
  | served hpc hint => exact hw
  | pc hl =>
    cases hl with
    | noConn hpc hmu hc => cases hop : call.op <;> simp_all [Call.waited, Op.afterClose]
    | _ => simp_all [Call.waited]
  | written hpc hconn => simp [Call.waited, hpc] at hw
  | own hs hwr ha =>
    cases hs with
    | unlock hpc => exact absurd ha (hun _ hpc)
    | abandon hpc => cases hop : call.op <;> simp_all [Call.waited, Op.afterAbandon]
    | resetEcho hpc => cases hop : call.op <;> simp_all [Call.waited, Op.afterClose]
    | _ => simp_all [Call.waited]

theorem Turn.wait_origin (h : Turn s a t i call call') (hw : call.waited = true) {token : UInt64}
    {deadline : ℕ} (hpc : call'.pc = .wait token deadline) : call.pc = .wait token deadline := by
  cases h with
  | other => exact hpc
  | served hp hint => exact hpc
  | pc hl => exact absurd hpc (hl.not_wait token deadline)
  | written hwr hconn => simp [Call.waited, hwr] at hw
  | own hs hwr ha =>
    cases hs with
    | abandon _ => exact absurd hpc (call.op.afterAbandon_ne_wait token deadline)
    | resetEcho _ => exact absurd hpc (call.op.afterClose_ne_wait token deadline)
    | written hwrite => exact absurd hwrite (hwr _ _)
    | _ => cases hpc

namespace Timed
open GoTimer

structure St where
  client : Client.St
  timer : Option Timer := none
  /-- The calls whose `stopTimer` is deferred. -/
  armed : ℕ → Bool := fun _ => false

inductive Act
  | client (a : Client.Act)
  | startTimer (i : ℕ)
  | stopTimer (i : ℕ)
  | fire

/-- The step of the client, if there is one. -/
def Act.visible : Act → Option Client.Act
  | .client a => some a
  | _ => none

def start (cfg : Cfg) : St := { client := new cfg }

def startTimer (v : Version) (now d : ℕ) : Option Timer → Timer
  | none => newTimer now d
  | some tm => tm.reset v now d

/-- A reply is received after `startTimer`, and the lock is let go after `stopTimer`. -/
def inTurn (s : St) (i : ℕ) : Bool :=
  match (s.client.calls i).map Call.pc with
  | some (.wait _ _) => s.armed i
  | some (.unlock _) => !s.armed i
  | _ => true

def clientStep (cfg : Cfg) (s : St) (a : Client.Act) : Option St :=
  (Client.step cfg s.client a).map (fun client => { s with client })

def timeoutStep (s : St) (i : ℕ) : Option St := do
  let call ← s.client.calls i
  let tm ← s.timer
  match call.pc with
  | .wait token _ =>
    if s.armed i then tm.receive.map (fun tm =>
      { s with client := s.client.setPc i call (.abandon token), timer := some tm })
    else none
  | _ => none

def startStep (v : Version) (cfg : Cfg) (s : St) (i : ℕ) : Option St := do
  let call ← s.client.calls i
  match call.pc with
  | .wait _ _ =>
    if s.armed i then none
    else some { s with
      timer := some (startTimer v s.client.now cfg.responseTimeout s.timer)
      armed := Function.update s.armed i true }
  | _ => none

def stopStep (v : Version) (s : St) (i : ℕ) : Option St := do
  let call ← s.client.calls i
  let tm ← s.timer
  match call.pc with
  | .unlock _ =>
    if s.armed i then some { s with
      timer := some (tm.stop v)
      armed := Function.update s.armed i false }
    else none
  | _ => none

def step (v : Version) (cfg : Cfg) (s : St) : Act → Option St
  | .client (.timeout i) => timeoutStep s i
  | .client (.caller i) => if inTurn s i then clientStep cfg s (.caller i) else none
  | .client a => clientStep cfg s a
  | .startTimer i => startStep v cfg s i
  | .stopTimer i => stopStep v s i
  | .fire => do
    let tm ← s.timer
    let tm ← tm.fire s.client.now
    some { s with timer := some tm }

/-- What the machine with the timer shows of itself. -/
def Shows (v : Version) (cfg : Cfg) (acts : List Client.Act) (s : Client.St) : Prop :=
  ∃ acts' s', run (step v cfg) always (start cfg) acts' = some s' ∧
    acts'.filterMap Act.visible = acts ∧ s'.client = s

variable {v : Version} {s t : St} {j : ℕ} {a : Act} {act : Client.Act}

def Armed (s : St) (i : ℕ) : Prop :=
  ∃ call tm, s.client.calls i = some call ∧ call.waited = true ∧ s.timer = some tm ∧
    ∀ token deadline, call.pc = .wait token deadline → tm.NotBefore deadline s.client.now

structure Inv (cfg : Cfg) (s : St) : Prop where
  reach : Reachable (Client.step cfg) always (new cfg) s.client
  soon : Soon cfg s.client
  armed : ∀ i, s.armed i = true → Armed s i

theorem inv_start (cfg : Cfg) : Inv cfg (start cfg) where
  reach := .refl _
  soon := fun _ _ h => by cases h
  armed := fun _ h => by cases h

theorem Inv.only (hi : Inv cfg s) (hcall : s.client.calls i = some call)
    (hh : call.holds = true) (hj : s.armed j = true) : j = i := by
  obtain ⟨other, tm, hother, hw, -⟩ := hi.armed j hj
  have hl := ((rounds_new cfg).run hi.reach).locks
  have hmine := hl.mutex i call hcall hh
  have hyours := hl.mutex j other hother (Call.holds_of_waited hw)
  exact Option.some.inj (hyours.symm.trans hmine)

theorem Inv.waited (hi : Inv cfg s) (hcall : s.client.calls i = some call) {token : UInt64}
    {deadline : ℕ} (hpc : call.pc = .wait token deadline) : call.waited = true := by
  refine waited_of_wait hpc ?_
  intro hop
  have hat := (held_run hi.reach).2 i call hcall hop
  rw [hpc] at hat
  exact hat

theorem Inv.client {c : Client.St} (hi : Inv cfg s) (hstep : Client.step cfg s.client act = some c)
    (hun : ∀ i call ret, s.armed i = true → s.client.calls i = some call →
      call.pc = .unlock ret → act ≠ .caller i) : Inv cfg { s with client := c } where
  reach := hi.reach.trans (.single rfl hstep)
  soon := hi.soon.move (step_move hstep)
  armed := by
    intro i hi'
    obtain ⟨call, tm, hcall, hw, htm, hnb⟩ := hi.armed i hi'
    obtain ⟨call', hcall', hturn⟩ := (step_move hstep).turn hcall
    refine ⟨call', tm, hcall', hturn.waited hw (fun ret => hun i call ret hi' hcall), htm, ?_⟩
    intro token deadline hpc
    exact (hnb token deadline (hturn.wait_origin hw hpc)).later (step_move hstep).now_le

theorem timeoutStep_eq_some (h : timeoutStep s i = some t) :
    ∃ call tm tm' token deadline, s.client.calls i = some call ∧ s.timer = some tm ∧
      call.pc = .wait token deadline ∧ s.armed i = true ∧ tm.receive = some tm' ∧
      t = { s with client := s.client.setPc i call (.abandon token), timer := some tm' } := by
  obtain ⟨call, hcall, h⟩ := Option.bind_eq_some_iff.mp h
  obtain ⟨tm, htm, h⟩ := Option.bind_eq_some_iff.mp h
  split at h
  · next token deadline hpc =>
    split_ifs at h with harmed
    obtain ⟨tm', hr, rfl⟩ := Option.map_eq_some_iff.mp h
    exact ⟨call, tm, tm', token, deadline, hcall, htm, hpc, harmed, hr, rfl⟩
  · cases h

theorem Inv.timeout (hi : Inv cfg s) (h : timeoutStep s i = some t) :
    Client.step cfg s.client (.timeout i) = some t.client ∧ Inv cfg t := by
  obtain ⟨call, tm, tm', token, deadline, hcall, htm, hpc, harmed, hr, rfl⟩ :=
    timeoutStep_eq_some h
  obtain ⟨old, now, hold, hw, hnow, hnb⟩ := hi.armed i harmed
  cases hcall.symm.trans hold
  cases htm.symm.trans hnow
  have hle := (hnb token deadline hpc).receive hr
  have hstep : Client.step cfg s.client (.timeout i) =
      some (s.client.setPc i call (.abandon token)) := by
    simp [Client.step, hcall, Client.timeoutStep, hpc, hle]
  refine ⟨hstep, hi.reach.trans (.single rfl hstep), hi.soon.move (step_move hstep), ?_⟩
  intro j hj
  obtain rfl := hi.only hcall (Call.holds_of_waited hw) hj
  refine ⟨{ call with pc := .abandon token }, tm', Function.update_self .., ?_, rfl, by simp⟩
  simpa [Call.waited, hpc] using hw

theorem notBefore_startTimer {now d deadline : ℕ} (h : deadline ≤ now + d) (tm : Option Timer) :
    (startTimer .go123 now d tm).NotBefore deadline now := by
  cases tm with
  | none => exact Timer.notBefore_new h
  | some tm => exact Timer.notBefore_reset h

theorem startStep_eq_some (h : startStep v cfg s i = some t) :
    ∃ call token deadline, s.client.calls i = some call ∧ call.pc = .wait token deadline ∧
      s.armed i = false ∧ t = { s with
        timer := some (startTimer v s.client.now cfg.responseTimeout s.timer)
        armed := Function.update s.armed i true } := by
  obtain ⟨call, hcall, h⟩ := Option.bind_eq_some_iff.mp h
  split at h
  · next token deadline hpc =>
    split_ifs at h with harmed
    cases h
    exact ⟨call, token, deadline, hcall, hpc, by simpa using harmed, rfl⟩
  · cases h

theorem Inv.startTimer (hi : Inv cfg s) (h : startStep .go123 cfg s i = some t) :
    t.client = s.client ∧ Inv cfg t := by
  obtain ⟨call, token, deadline, hcall, hpc, harmed, rfl⟩ := startStep_eq_some h
  refine ⟨rfl, hi.reach, hi.soon, ?_⟩
  have hw := hi.waited hcall hpc
  intro j hj
  have hji : j = i := by
    by_contra hne
    exact hne (hi.only hcall (Call.holds_of_waited hw) (by simpa [hne] using hj))
  subst hji
  exact ⟨call, _, hcall, hw, rfl, fun token deadline hpc =>
    notBefore_startTimer (hi.soon j call hcall token deadline hpc) _⟩

theorem stopStep_eq_some (h : stopStep v s i = some t) :
    ∃ call tm ret, s.client.calls i = some call ∧ s.timer = some tm ∧ call.pc = .unlock ret ∧
      s.armed i = true ∧ t = { s with
        timer := some (tm.stop v)
        armed := Function.update s.armed i false } := by
  obtain ⟨call, hcall, h⟩ := Option.bind_eq_some_iff.mp h
  obtain ⟨tm, htm, h⟩ := Option.bind_eq_some_iff.mp h
  split at h
  · next ret hpc =>
    split_ifs at h with harmed
    cases h
    exact ⟨call, tm, ret, hcall, htm, hpc, harmed, rfl⟩
  · cases h

theorem Inv.stopTimer (hi : Inv cfg s) (h : stopStep v s i = some t) :
    t.client = s.client ∧ Inv cfg t := by
  obtain ⟨call, tm, ret, hcall, htm, hpc, harmed, rfl⟩ := stopStep_eq_some h
  refine ⟨rfl, hi.reach, hi.soon, ?_⟩
  intro j hj
  have hne : j ≠ i := by
    rintro rfl
    simp at hj
  exact absurd (hi.only hcall (by simp [Call.holds, hpc]) (by simpa [hne] using hj)) hne

theorem Inv.fire (hi : Inv cfg s) (h : step v cfg s .fire = some t) :
    t.client = s.client ∧ Inv cfg t := by
  obtain ⟨tm, htm, h⟩ := Option.bind_eq_some_iff.mp h
  obtain ⟨tm', hf, h⟩ := Option.bind_eq_some_iff.mp h
  cases h
  refine ⟨rfl, hi.reach, hi.soon, ?_⟩
  intro j hj
  obtain ⟨call, old, hcall, hw, hold, hnb⟩ := hi.armed j hj
  cases htm.symm.trans hold
  exact ⟨call, tm', hcall, hw, rfl, fun token deadline hpc =>
    (hnb token deadline hpc).fire hf⟩

theorem step_client (hne : ∀ i, act ≠ .timeout i) (h : step v cfg s (.client act) = some t) :
    clientStep cfg s act = some t ∧ ∀ i, act = .caller i → inTurn s i = true := by
  cases act with
  | timeout i => exact absurd rfl (hne i)
  | caller i =>
    simp only [step] at h
    split_ifs at h with hturn
    refine ⟨h, ?_⟩
    intro j hj
    cases hj
    exact hturn
  | _ => exact ⟨h, by simp⟩

theorem inTurn_unlock {ret : Ret} (h : inTurn s i = true) (hcall : s.client.calls i = some call)
    (hpc : call.pc = .unlock ret) : s.armed i = false := by
  simpa [inTurn, hcall, hpc] using h

theorem Inv.step (hi : Inv cfg s) (h : step .go123 cfg s a = some t) :
    run (Client.step cfg) always s.client a.visible.toList = some t.client ∧ Inv cfg t := by
  cases a with
  | startTimer i =>
    obtain ⟨heq, ht⟩ := hi.startTimer h
    exact ⟨by rw [heq]; rfl, ht⟩
  | stopTimer i =>
    obtain ⟨heq, ht⟩ := hi.stopTimer h
    exact ⟨by rw [heq]; rfl, ht⟩
  | fire =>
    obtain ⟨heq, ht⟩ := hi.fire h
    exact ⟨by rw [heq]; rfl, ht⟩
  | client act =>
    by_cases hto : ∃ i, act = .timeout i
    · obtain ⟨i, rfl⟩ := hto
      obtain ⟨hstep, ht⟩ := hi.timeout h
      exact ⟨run_single rfl hstep, ht⟩
    · rw [not_exists] at hto
      obtain ⟨hstep, hturn⟩ := step_client hto h
      obtain ⟨c, hc, rfl⟩ := Option.map_eq_some_iff.mp hstep
      refine ⟨run_single rfl hc, hi.client hc ?_⟩
      rintro i call ret harmed hcall hpc rfl
      rw [inTurn_unlock (hturn i rfl) hcall hpc] at harmed
      cases harmed

theorem Inv.run {acts : List Act} (hi : Inv cfg s)
    (h : Transition.run (Timed.step .go123 cfg) always s acts = some t) :
    Transition.run (Client.step cfg) always s.client (acts.filterMap Act.visible) =
      some t.client := by
  induction acts generalizing s with
  | nil =>
    cases h
    rfl
  | cons a acts ih =>
    obtain ⟨-, u, hu, hrest⟩ := run_cons_eq_some.mp h
    obtain ⟨hstep, hu'⟩ := hi.step hu
    have happ := run_append hstep (ih hu' hrest)
    rw [List.filterMap_cons]
    cases hv : a.visible <;> simpa [hv] using happ

/-- A timer that is set as soon as the request is written. -/
structure Ahead (cfg : Cfg) (s : St) : Prop where
  inv : Inv cfg s
  set : ∀ i call token deadline, s.client.calls i = some call → call.pc = .wait token deadline →
    s.armed i = true ∧ ∃ tm, s.timer = some tm ∧ tm.ReadyBy deadline

theorem readyBy_startTimer (now d : ℕ) (tm : Option Timer) :
    (startTimer v now d tm).ReadyBy (now + d) := by
  cases tm with
  | none => exact ⟨_, rfl, le_rfl⟩
  | some tm => exact ⟨_, rfl, le_rfl⟩

theorem Inv.no_wait (hi : Inv cfg s) (hcall : s.client.calls i = some call)
    (hh : call.holds = true) (hpc : ∀ token deadline, call.pc ≠ .wait token deadline)
    (hcall' : s.client.calls j = some call') (token : UInt64) (deadline : ℕ) :
    call'.pc ≠ .wait token deadline := by
  intro hw
  have hl := ((rounds_new cfg).run hi.reach).locks
  have hmine := hl.mutex i call hcall hh
  have hyours := hl.mutex j call' hcall' (by simp [Call.holds, hw])
  obtain rfl := Option.some.inj (hyours.symm.trans hmine)
  cases hcall.symm.trans hcall'
  exact hpc token deadline hw

theorem Ahead.client {c : Client.St} (ha : Ahead cfg s)
    (hstep : Client.step cfg s.client act = some c)
    (hturn : ∀ i, act = .caller i → inTurn s i = true)
    (hto : ∀ i, act ≠ .timeout i) (hwr : ∀ i, act ≠ .write i none) :
    Timed.step v cfg s (.client act) = some { s with client := c } ∧
      Ahead cfg { s with client := c } := by
  refine ⟨?_, ha.inv.client hstep ?_, ?_⟩
  · cases act with
    | timeout i => exact absurd rfl (hto i)
    | caller i => simp [Timed.step, hturn i rfl, clientStep, hstep]
    | _ => simp [Timed.step, clientStep, hstep]
  · rintro i call ret harmed hcall hpc rfl
    rw [inTurn_unlock (hturn i rfl) hcall hpc] at harmed
    cases harmed
  · intro i call token deadline hcall hpc
    rcases (step_move hstep).wait_origin hcall hpc with ⟨old, hold, hw⟩ | ⟨hact, -⟩
    · exact ha.set i old token deadline hold hw
    · exact absurd hact (hwr i)

def Follows (cfg : Cfg) (s : St) (act : Client.Act) (c : Client.St) : Prop :=
  ∃ acts t, run (Timed.step .go123 cfg) always s acts = some t ∧
    acts.filterMap Act.visible = [act] ∧ t.client = c ∧ Ahead cfg t

theorem Ahead.written {c : Client.St} (ha : Ahead cfg s)
    (hstep : Client.step cfg s.client (.write i none) = some c) :
    Follows cfg s (.write i none) c := by
  obtain ⟨call, hcall, hw⟩ := Option.bind_eq_some_iff.mp hstep
  unfold writeStep at hw
  split at hw
  · next hnone => cases hnone
  · next token k hpc hnone =>
    split_ifs at hw with hopen
    have hfresh : s.armed i = false := by
      by_contra harmed
      obtain ⟨old, tm, hold, hwaited, -⟩ := ha.inv.armed i (by simpa using harmed)
      cases hcall.symm.trans hold
      simp [Call.waited, hpc] at hwaited
    have hnow : c.calls i = some { call with
        pc := .wait token (s.client.now + cfg.responseTimeout) } := by
      rw [← Option.some.inj hw]
      exact Function.update_self ..
    have hinv : Inv cfg { s with client := c } := ha.inv.client hstep (by simp)
    have hset : startStep .go123 cfg { s with client := c } i = some { s with
        client := c
        timer := some (startTimer .go123 c.now cfg.responseTimeout s.timer)
        armed := Function.update s.armed i true } := by
      simp [startStep, hnow, hfresh]
    refine ⟨[.client (.write i none), .startTimer i], _,
      run_append (run_single rfl (by simp [Timed.step, clientStep, hstep]))
        (run_single rfl hset), rfl, rfl, (hinv.startTimer hset).2, ?_⟩
    intro j other token' deadline hother hwait
    have hl := ((rounds_new cfg).run hinv.reach).locks
    have hmine := hl.mutex i _ hnow (by simp [Call.holds])
    have hyours := hl.mutex j other hother (by simp [Call.holds, hwait])
    obtain rfl := Option.some.inj (hyours.symm.trans hmine)
    cases hnow.symm.trans hother
    cases hwait
    have hclock : c.now = s.client.now := by
      rw [← Option.some.inj hw]
      rfl
    refine ⟨Function.update_self .., _, rfl, ?_⟩
    rw [hclock]
    exact readyBy_startTimer _ _ _
  · cases hw

theorem Ahead.timedOut {c : Client.St} (ha : Ahead cfg s)
    (hstep : Client.step cfg s.client (.timeout i) = some c) :
    Follows cfg s (.timeout i) c := by
  obtain ⟨call, hcall, hto⟩ := Option.bind_eq_some_iff.mp hstep
  unfold Client.timeoutStep at hto
  split at hto
  · next token deadline hpc =>
    split_ifs at hto with hle
    cases hto
    obtain ⟨harmed, tm, htm, hready⟩ := ha.set i call token deadline hcall hpc
    obtain ⟨fired, hfire, hreceive⟩ := hready.fire_receive hle
    have hf : Timed.step .go123 cfg s .fire = some { s with timer := some fired } := by
      simp [Timed.step, htm, hfire]
    have ht : timeoutStep { s with timer := some fired } i = some { s with
        client := s.client.setPc i call (.abandon token)
        timer := some { expires := none } } := by
      simp [timeoutStep, hcall, hpc, harmed, hreceive]
    have hinv := ((ha.inv.fire hf).2.timeout ht).2
    refine ⟨[.fire, .client (.timeout i)], _, run_append (run_single rfl hf) (run_single rfl ht),
      rfl, rfl, hinv, ?_⟩
    intro j other token' deadline' hother hwait
    exact absurd hwait (hinv.no_wait (Function.update_self ..) rfl (by simp) hother _ _)
  · cases hto

theorem Ahead.unlocked {c : Client.St} {ret : Ret} (ha : Ahead cfg s)
    (hcall : s.client.calls i = some call) (hpc : call.pc = .unlock ret)
    (harmed : s.armed i = true) (hstep : Client.step cfg s.client (.caller i) = some c) :
    Follows cfg s (.caller i) c := by
  obtain ⟨old, tm, hold, hw, htm, -⟩ := ha.inv.armed i harmed
  have hstop : Timed.step .go123 cfg s (.stopTimer i) = some { s with
      timer := some (tm.stop .go123)
      armed := Function.update s.armed i false } := by
    simp [Timed.step, stopStep, hcall, htm, hpc, harmed]
  have hinv := (ha.inv.stopTimer hstop).2
  have hstopped : Ahead cfg { s with
      timer := some (tm.stop .go123)
      armed := Function.update s.armed i false } := by
    refine ⟨hinv, ?_⟩
    intro j other token deadline hother hwait
    exact absurd hwait (hinv.no_wait hcall (by simp [Call.holds, hpc]) (by simp [hpc]) hother _ _)
  obtain ⟨hgo, ht⟩ := hstopped.client (v := .go123) hstep
    (by
      intro j hj
      cases hj
      simp [inTurn, hcall, hpc]) (by simp) (by simp)
  exact ⟨[.stopTimer i, .client (.caller i)], _,
    run_append (run_single rfl hstop) (run_single rfl hgo), rfl, rfl, ht⟩

theorem Ahead.inTurn (ha : Ahead cfg s) (hcall : s.client.calls i = some call)
    (h : ∀ ret, call.pc = .unlock ret → s.armed i = false) : inTurn s i = true := by
  cases hpc : call.pc with
  | wait token deadline =>
    simpa [Timed.inTurn, hcall, hpc] using (ha.set i call token deadline hcall hpc).1
  | unlock ret => simpa [Timed.inTurn, hcall, hpc] using h ret hpc
  | _ => simp [Timed.inTurn, hcall, hpc]

theorem Ahead.follows {c : Client.St} (ha : Ahead cfg s)
    (hstep : Client.step cfg s.client act = some c) : Follows cfg s act c := by
  have hclient : ∀ {b : Client.Act}, Client.step cfg s.client b = some c →
      (∀ i, b = .caller i → Timed.inTurn s i = true) → (∀ i, b ≠ .timeout i) →
      (∀ i, b ≠ .write i none) → Follows cfg s b c := by
    intro b hb hturn hto hwr
    obtain ⟨hgo, ht⟩ := ha.client (v := .go123) hb hturn hto hwr
    exact ⟨[.client b], _, run_single rfl hgo, rfl, rfl, ht⟩
  cases act with
  | timeout i => exact ha.timedOut hstep
  | write i err =>
    cases err with
    | none => exact ha.written hstep
    | some err => exact hclient hstep (by simp) (by simp) (by simp)
  | caller i =>
    obtain ⟨call, hcall, -⟩ := Option.bind_eq_some_iff.mp hstep
    by_cases hun : ∃ ret, call.pc = .unlock ret ∧ s.armed i = true
    · obtain ⟨ret, hpc, harmed⟩ := hun
      exact ha.unlocked hcall hpc harmed hstep
    · refine hclient hstep ?_ (by simp) (by simp)
      intro j hj
      cases hj
      refine ha.inTurn hcall (fun ret hpc => ?_)
      by_contra harmed
      exact hun ⟨ret, hpc, by simpa using harmed⟩
  | _ => exact hclient hstep (by simp) (by simp) (by simp)

theorem Ahead.run {acts : List Client.Act} {c : Client.St} (ha : Ahead cfg s)
    (h : Transition.run (Client.step cfg) always s.client acts = some c) :
    ∃ acts' t, Transition.run (Timed.step .go123 cfg) always s acts' = some t ∧
      acts'.filterMap Act.visible = acts ∧ t.client = c := by
  induction acts generalizing s with
  | nil =>
    cases h
    exact ⟨[], s, rfl, rfl, rfl⟩
  | cons act acts ih =>
    obtain ⟨-, u, hu, hrest⟩ := run_cons_eq_some.mp h
    obtain ⟨first, t, hfirst, hone, rfl, ht⟩ := ha.follows hu
    obtain ⟨rest, w, hrun, hvis, hw⟩ := ih ht hrest
    exact ⟨first ++ rest, w, run_append hfirst hrun, by simp [hone, hvis], hw⟩

theorem ahead_start (cfg : Cfg) : Ahead cfg (start cfg) :=
  ⟨inv_start cfg, fun _ _ _ _ h => by cases h⟩

def racedActs : List Act :=
  [Client.Act.call 0 (.echo [1]), .caller 0, .caller 0, .caller 0, .caller 0,
    .write 0 none].map .client ++ [.startTimer 0] ++
  [Client.Act.answer 0 0 dtEchoRes [1], .reader, .reader, .readPacket, .reader, .process, .process,
    .process, .process, .tick 5].map .client ++ [.fire, .client (.caller 0), .stopTimer 0] ++
  [Client.Act.caller 0, .call 1 (.echo [2]), .caller 1, .caller 1, .caller 1, .caller 1,
    .write 1 none].map .client ++ [.startTimer 1, .client (.timeout 1)]

theorem raced_early :
    (run (step .go122 demoCfg) always (start demoCfg) racedActs).isSome = true ∧
    (run (Client.step demoCfg) always (new demoCfg)
      (racedActs.filterMap Act.visible)).isSome = false := by
  decide +kernel

/-- One timer for all the waits of a client is as good as a deadline for each, neither early nor
lost, if and only if `Reset` and `Stop` take back a value that nobody has received. -/
theorem shared_timer_iff (v : Version) :
    (∀ cfg acts s, Shows v cfg acts s ↔ run (Client.step cfg) always (new cfg) acts = some s) ↔
      v = .go123 := by
  constructor
  · intro h
    cases v with
    | go123 => rfl
    | go122 =>
      obtain ⟨hsome, hnone⟩ := raced_early
      obtain ⟨t, ht⟩ := Option.isSome_iff_exists.mp hsome
      have hrun := (h demoCfg _ t.client).mp ⟨racedActs, t, ht, rfl, rfl⟩
      rw [hrun] at hnone
      cases hnone
  · rintro rfl cfg acts s
    constructor
    · rintro ⟨acts', t, hrun, rfl, rfl⟩
      exact (inv_start cfg).run hrun
    · exact fun hrun => (ahead_start cfg).run hrun

def Due (cfg : Cfg) (s : St) : Prop :=
  ∀ i call token deadline, s.armed i = true → s.client.calls i = some call →
    call.pc = .wait token deadline →
    ∃ tm, s.timer = some tm ∧ tm.Pending (s.client.now + cfg.responseTimeout)

theorem pending_startTimer (now d : ℕ) (tm : Option Timer) :
    (startTimer v now d tm).Pending (now + d) := by
  obtain ⟨e, he, hle⟩ := readyBy_startTimer (v := v) now d tm
  exact Or.inr ⟨e, he, hle⟩

theorem Due.client {c : Client.St} (hd : Due cfg s) (hi : Inv cfg s)
    (hstep : Client.step cfg s.client act = some c) : Due cfg { s with client := c } := by
  intro i call' token deadline harmed hcall' hpc
  obtain ⟨call, tm, hcall, hw, -⟩ := hi.armed i harmed
  obtain ⟨new, hnew, hturn⟩ := (step_move hstep).turn hcall
  cases hcall'.symm.trans hnew
  obtain ⟨tm, htm, hp⟩ := hd i call token deadline harmed hcall (hturn.wait_origin hw hpc)
  exact ⟨tm, htm, hp.mono (Nat.add_le_add_right (step_move hstep).now_le _)⟩

theorem Due.step (hd : Due cfg s) (hi : Inv cfg s) (h : Timed.step .go123 cfg s a = some t) :
    Due cfg t := by
  cases a with
  | startTimer i =>
    obtain ⟨call, token, deadline, hcall, hpc, harmed, rfl⟩ := startStep_eq_some h
    intro j other token' deadline' _ _ _
    exact ⟨_, rfl, pending_startTimer _ _ _⟩
  | stopTimer i =>
    obtain ⟨call, tm, ret, hcall, htm, hpc, harmed, rfl⟩ := stopStep_eq_some h
    intro j other token deadline _ hother hwait
    exact absurd hwait (hi.no_wait hcall (by simp [Call.holds, hpc]) (by simp [hpc]) hother _ _)
  | fire =>
    obtain ⟨tm, htm, h⟩ := Option.bind_eq_some_iff.mp h
    obtain ⟨tm', hf, h⟩ := Option.bind_eq_some_iff.mp h
    cases h
    intro j other token deadline _ _ _
    exact ⟨tm', rfl, Timer.pending_of_fire hf _⟩
  | client act =>
    by_cases hto : ∃ i, act = .timeout i
    · obtain ⟨i, rfl⟩ := hto
      have hinv := (hi.timeout h).2
      obtain ⟨call, tm, tm', token, deadline, hcall, htm, hpc, harmed, hr, rfl⟩ :=
        timeoutStep_eq_some h
      intro j other token' deadline' _ hother hwait
      exact absurd hwait (hinv.no_wait (Function.update_self ..) rfl (by simp) hother _ _)
    · rw [not_exists] at hto
      obtain ⟨hstep, -⟩ := step_client hto h
      obtain ⟨c, hc, rfl⟩ := Option.map_eq_some_iff.mp hstep
      exact hd.client hi hc

theorem due_run (h : Reachable (Timed.step .go123 cfg) always (start cfg) s) :
    Inv cfg s ∧ Due cfg s := by
  refine h.invariant (I := fun s => Inv cfg s ∧ Due cfg s)
    ⟨inv_start cfg, fun _ _ _ _ harmed => by cases harmed⟩ ?_
  rintro s a t ⟨hi, hd⟩ - hstep
  exact ⟨(hi.step hstep).2, hd.step hi hstep⟩

/-- A call that waits ends its wait, by a run of `n` steps at most and no later than `bound`. -/
def EndsBy (cfg : Cfg) (s : St) (i : ℕ) (call : Call) (token : UInt64) (n bound : ℕ) : Prop :=
  ∃ acts t, run (Timed.step .go123 cfg) always s acts = some t ∧ acts.length ≤ n ∧
    t.client.now ≤ bound ∧ t.client.calls i = some { call with pc := .abandon token }

theorem EndsBy.mono {token : UInt64} {m n bound : ℕ} (h : EndsBy cfg s i call token m bound)
    (hle : m ≤ n) : EndsBy cfg s i call token n bound := by
  obtain ⟨acts, t, hrun, hlen, hend⟩ := h
  exact ⟨acts, t, hrun, hlen.trans hle, hend⟩

theorem EndsBy.cons {token : UInt64} {n bound : ℕ} (hstep : Timed.step .go123 cfg s a = some t)
    (h : EndsBy cfg t i call token n bound) : EndsBy cfg s i call token (n + 1) bound := by
  obtain ⟨acts, u, hrun, hlen, hend⟩ := h
  exact ⟨a :: acts, u, run_append (run_single rfl hstep) hrun, Nat.succ_le_succ hlen, hend⟩

section Waiting
variable {token : UInt64} {deadline bound : ℕ} {tm : Timer} (harmed : s.armed i = true)
  (hcall : s.client.calls i = some call) (hpc : call.pc = .wait token deadline)
  (htm : s.timer = some tm) (hnow : s.client.now ≤ bound)
include harmed hcall hpc htm hnow

theorem endsBy_ticked (htick : tm.tick = true) : EndsBy cfg s i call token 1 bound := by
  have hstep : timeoutStep s i = some { s with
      client := s.client.setPc i call (.abandon token)
      timer := some { tm with tick := false } } := by
    simp [timeoutStep, hcall, htm, hpc, harmed, Timer.receive, htick]
  exact ⟨[.client (.timeout i)], _, run_single rfl hstep, le_rfl, hnow, Function.update_self ..⟩

theorem endsBy_armed (hp : tm.Pending bound) : EndsBy cfg s i call token 3 bound := by
  rcases hp with htick | ⟨e, he, hle⟩
  · exact (endsBy_ticked harmed hcall hpc htm hnow htick).mono (by decide)
  · -- the clock runs up to the timer's time, the timer fires, and the call receives
    have htick : Timed.step .go123 cfg s (.client (.tick (e - s.client.now))) = some { s with
        client := { s.client with now := s.client.now + (e - s.client.now) } } := rfl
    have hfire : Timed.step .go123 cfg { s with
        client := { s.client with now := s.client.now + (e - s.client.now) } } .fire =
        some { s with
          client := { s.client with now := s.client.now + (e - s.client.now) }
          timer := some { expires := none, tick := true } } := by
      have hdue : e ≤ s.client.now + (e - s.client.now) := by omega
      simp [Timed.step, htm, Timer.fire, he, hdue]
    have hend : s.client.now + (e - s.client.now) ≤ bound := by omega
    exact .cons htick (.cons hfire (endsBy_ticked harmed hcall hpc rfl hend rfl))

end Waiting

theorem wait_ends (cfg : Cfg) (s : St)
    (h : Reachable (Timed.step .go123 cfg) always (start cfg) s) (i : ℕ) (call : Call)
    (token : UInt64) (deadline : ℕ) (hcall : s.client.calls i = some call)
    (hpc : call.pc = .wait token deadline) :
    EndsBy cfg s i call token 4 (s.client.now + cfg.responseTimeout) := by
  obtain ⟨hi, hd⟩ := due_run h
  cases harmed : s.armed i with
  | true =>
    obtain ⟨tm, htm, hp⟩ := hd i call token deadline harmed hcall hpc
    exact (endsBy_armed harmed hcall hpc htm (Nat.le_add_right ..) hp).mono (by decide)
  | false =>
    have hset : Timed.step .go123 cfg s (.startTimer i) = some { s with
        timer := some (startTimer .go123 s.client.now cfg.responseTimeout s.timer)
        armed := Function.update s.armed i true } := by
      simp [Timed.step, startStep, hcall, hpc, harmed]
    exact .cons hset (endsBy_armed (Function.update_self ..) hcall hpc rfl (Nat.le_add_right ..)
      (pending_startTimer ..))

theorem wait_ends_after_race :
    ∃ s call, Reachable (Timed.step .go123 demoCfg) always (start demoCfg) s ∧
      s.client.calls 1 = some call ∧
      ∃ token, EndsBy demoCfg s 1 call token 4 (s.client.now + demoCfg.responseTimeout) :=
  ⟨_, _, ⟨racedActs.dropLast, rfl⟩, rfl, _,
    wait_ends demoCfg _ ⟨racedActs.dropLast, rfl⟩ 1 _ _ _ rfl rfl⟩

end Timed
end Gearman.Client
