import Gearman.WorkerTasks

/-!
# The jobs a limited worker runs at once

`handleInPack` starts the job before it sends the token, and `exec` receives a token
when it is done, be it the one of another job. What relates the two is a balance: the
jobs that have not received their token are as many as the tokens in `limit`, and one
more while `Work` is about to send.
-/

namespace Gearman.Worker.Machine
open Transition Tally

inductive Role
  | idle
  | dispatcher
  | sending
  | job
deriving DecidableEq, Repr

def Op.isWork : Op → Bool
  | .work => true
  | _ => false

/-- The part of `Work` that no other call has. -/
def Pc.dispatches : Pc → Bool
  | .isReady => true
  | .setRunning => true
  | .select => true
  | .handle _ _ => true
  | .limit _ _ => true
  | .drain => true
  | _ => false

def Pc.role : Pc → Role
  | .limit _ _ => .sending
  | _ => .dispatcher

/-- An `exec` before its deferred receive from `limit`. -/
def ExecPc.holds : ExecPc → Bool
  | .report _ => false
  | .done => false
  | _ => true

def Task.role : Task → Role
  | .write _ _ next => next.role
  | .call op pc => if op.isWork || pc.dispatches then pc.role else .idle
  | .loop _ _ _ _ => .idle
  | .exec _ pc => if pc.holds then .job else .idle

def isJob (task : Task) : ℕ :=
  match task.role with
  | .job => 1
  | _ => 0

def isSending (task : Task) : ℕ :=
  match task.role with
  | .sending => 1
  | _ => 0

def isDispatcher (task : Task) : ℕ :=
  match task.role with
  | .dispatcher => 1
  | .sending => 1
  | _ => 0

/-- The calls of `exec` that have not received from `limit` yet. -/
def St.jobs (s : St) : ℕ := s.total isJob

/-- `Work` has started a job and its token is still to be sent. -/
def St.sending (s : St) : ℕ := s.total isSending

def oneWork (s : St) : Act → Bool
  | .call op => !op.isWork || s.total isDispatcher = 0
  | _ => true

structure Metered (cap : ℕ) (s : St) : Prop where
  named : Named s
  balance : s.jobs = s.tokens + s.sending
  tokens : s.tokens ≤ cap
  single : s.total isDispatcher ≤ 1

variable {cfg : Cfg} {s t : St} {act : Act} {i k cap : ℕ} {task task' : Task}

theorem shut_tokens (s : St) (old : Option ℕ) : (s.shut old).tokens = s.tokens := by
  cases old <;> rfl

theorem role_writes (todo : List (ℕ × OutPack)) (next : Task) :
    (writes todo next).role = next.role := by
  cases todo <;> rfl

theorem role_back (op : Op) (drains : Bool) : (back op drains).role = .dispatcher := by
  cases drains <;> simp [back, Task.role, Pc.dispatches, Pc.role]

theorem role_afterLimit (op : Op) (inpack : InPack) (drains : Bool) :
    (afterLimit op inpack drains).role = .dispatcher := by
  rw [afterLimit, role_writes, role_back]

theorem role_handle (op : Op) (inpack : InPack) (drains : Bool) :
    (Task.call op (.handle inpack drains)).role = .dispatcher := by
  simp [Task.role, Pc.dispatches, Pc.role]

theorem role_limit (op : Op) (inpack : InPack) (drains : Bool) :
    (Task.call op (.limit inpack drains)).role = .sending := by
  simp [Task.role, Pc.dispatches, Pc.role]

theorem role_lookup (s : St) (inpack : InPack) :
    (Task.exec inpack (lookup s inpack.fn)).role = .job := by
  unfold lookup
  cases s.funcs.lookup inpack.fn <;> rfl

theorem role_answer (s : St) (inpack : InPack) (r : Result) : (answer s inpack r).role = .job := by
  unfold answer
  split_ifs
  · rw [role_writes]
    rfl
  · rfl

theorem role_entry (cfg : Cfg) {op : Op} (h : op.isWork = false) :
    (entry cfg op).role = .idle := by
  cases op with
  | work => cases h
  | reset => exact role_writes _ _
  | echo data => exact role_writes _ _
  | setId id => exact role_writes _ _
  | progress inpack updates => exact role_writes _ _
  | _ => rfl

def Role.Follows (r r' : Role) : Prop := r' = r ∨ r = .dispatcher ∧ r' = .idle

theorem Local.role (hl : Local cfg s task task') (hlim : cfg.limit = some cap) :
    task.role.Follows task'.role := by
  cases hl with
  | ready => exact Or.inl (by split_ifs <;> rfl)
  | snapshot hmu => exact Or.inl (by split_ifs <;> rfl)
  | getConn => exact Or.inl (by split_ifs <;> rfl)
  | announce hk ho => exact Or.inl (role_writes _ _)
  | @isReady op hmu =>
    cases hop : op.isWork <;> split_ifs <;>
      simp [Role.Follows, Task.role, hop, Pc.dispatches, Pc.role]
  | noJob ht => exact Or.inl (by rw [role_writes, role_back, role_handle])
  | noop ht => exact Or.inl (by rw [role_writes, role_back, role_handle])
  | unlimited hl =>
    rw [hl] at hlim
    cases hlim
  | @quit op hq => exact Or.inl (by simp [Task.role, Pc.dispatches, Pc.role])
  | @drained op hin =>
    cases hop : op.isWork <;> simp [Role.Follows, Task.role, hop, Pc.dispatches, Pc.role]
  | reannounce hmu ho => exact Or.inl (role_writes _ _)
  | lookup hmu => exact Or.inl (role_lookup _ _)
  | answer hmu => exact Or.inl (role_answer _ _ _)
  | release hl =>
    rw [hl] at hlim
    cases hlim
  | _ => exact Or.inl rfl

theorem Locks.role (hl : Locks cfg task k task') : task'.role = task.role := by
  cases hl <;> rfl

theorem Unlocks.role (hl : Unlocks task k task') : task'.role = task.role := by
  cases hl with
  | written => exact role_writes _ _
  | _ => rfl

theorem Dials.role {c : ℕ} (hd : Dials c task k task') : task'.role = task.role := by
  cases hd <;> rfl

theorem Publishes.role {e c : ℕ} (hp : Publishes e task k c task') : task'.role = task.role := by
  cases hp <;> rfl

theorem Shuts.role {old : Option ℕ} (hs : Shuts task old task') : task'.role = task.role := by
  cases hs <;> rfl

theorem Reports.role {rs : List Report} (hr : Reports cfg s task rs task') :
    task'.role = task.role := by
  cases hr with
  | serverErr ht => rw [role_back, role_handle]
  | custome ht hj => rw [role_back, role_handle]
  | _ => rfl

theorem role_afterReady (op : Op) :
    (Task.call op op.afterReady).role = (Task.call op .setReady).role := by
  cases op <;> rfl

theorem Metered.update (hi : Metered cap s) (h : s.tasks i = some task)
    (ht : t.tasks = Function.update s.tasks i (some task')) (hn : t.ntask = s.ntask)
    (htok : t.tokens = s.tokens) (hr : task.role.Follows task'.role) : Metered cap t := by
  have htotal : ∀ w : Task → ℕ, t.total w + w task = s.total w + w task' :=
    fun w => total_update hi.named h ht hn
  have hjob := htotal isJob
  have hsend := htotal isSending
  have hdisp := htotal isDispatcher
  have hweights : isJob task' = isJob task ∧ isSending task' = isSending task ∧
      isDispatcher task' ≤ isDispatcher task := by
    rcases hr with hr | ⟨hr, hr'⟩
    · simp [isJob, isSending, isDispatcher, hr]
    · simp [isJob, isSending, isDispatcher, hr, hr']
  obtain ⟨hnamed, hbal, hcap, hone⟩ := hi
  simp only [St.jobs, St.sending] at hbal
  refine ⟨(Change.one h ht hn).named hnamed, ?_, htok ▸ hcap, ?_⟩
  · simp only [St.jobs, St.sending]
    omega
  · omega

theorem Metered.call (hi : Metered cap s) {op : Op} (hg : oneWork s (.call op) = true) :
    Metered cap (s.spawn (entry cfg op)) := by
  have htotal : ∀ w : Task → ℕ, (s.spawn (entry cfg op)).total w = s.total w + w (entry cfg op) :=
    fun w => total_new rfl rfl
  obtain ⟨hnamed, hbal, hcap, hone⟩ := hi
  have hweights : isJob (entry cfg op) = 0 ∧ isSending (entry cfg op) = 0 ∧
      s.total isDispatcher + isDispatcher (entry cfg op) ≤ 1 := by
    cases hop : op.isWork with
    | false => simpa [isJob, isSending, isDispatcher, role_entry cfg hop] using hone
    | true =>
      have hzero : s.total isDispatcher = 0 := by simpa [oneWork, hop] using hg
      cases op with
      | work => exact ⟨rfl, rfl, by rw [hzero]; exact le_rfl⟩
      | _ => cases hop
  obtain ⟨hjob, hsend, hdisp⟩ := hweights
  refine ⟨(Change.new rfl rfl).named hnamed, ?_, hcap, ?_⟩
  · simp only [St.jobs, St.sending] at hbal ⊢
    rw [htotal, htotal, hjob, hsend]
    exact hbal
  · rw [htotal]
    exact hdisp

theorem Metered.spawn (hi : Metered cap s) (h : s.tasks i = some task) {new : Task}
    (hs : Spawns task task' new) : Metered cap ((s.setTask i task').spawn new) := by
  have htotal : ∀ w : Task → ℕ, ((s.setTask i task').spawn new).total w + w task =
      s.total w + w task' + w new := fun w => total_spawn hi.named h rfl rfl
  have hjob := htotal isJob
  have hsend := htotal isSending
  have hdisp := htotal isDispatcher
  have hweights : isJob task' + isJob new + isSending task =
        isJob task + isSending task' + isSending new ∧
      isDispatcher task' + isDispatcher new = isDispatcher task := by
    cases hs with
    | connect => exact ⟨rfl, rfl⟩
    | reconnect => exact ⟨rfl, rfl⟩
    | @job op inpack drains hj =>
      have hnew : (Task.exec inpack .lookup).role = .job := rfl
      simp only [isJob, isSending, isDispatcher, role_handle, role_limit, hnew, and_self]
  obtain ⟨hnamed, hbal, hcap, hone⟩ := hi
  refine ⟨(Change.spawn h rfl rfl).named hnamed, ?_, hcap, ?_⟩
  · have htok : ((s.setTask i task').spawn new).tokens = s.tokens := rfl
    simp only [St.jobs, St.sending] at hbal ⊢
    omega
  · omega

theorem Metered.token (hi : Metered cap s) {op : Op} {inpack : InPack} {drains : Bool}
    (h : s.tasks i = some (.call op (.limit inpack drains))) (hcap : s.tokens < cap)
    (ht : t.tasks = Function.update s.tasks i (some (afterLimit op inpack drains)))
    (hn : t.ntask = s.ntask) (htok : t.tokens = s.tokens + 1) : Metered cap t := by
  have hjob := total_update (w := isJob) hi.named h ht hn
  have hsend := total_update (w := isSending) hi.named h ht hn
  have hdisp := total_update (w := isDispatcher) hi.named h ht hn
  simp only [isJob, isSending, isDispatcher, role_limit, role_afterLimit] at hjob hsend hdisp
  obtain ⟨hnamed, hbal, _, hone⟩ := hi
  simp only [St.jobs, St.sending] at hbal
  refine ⟨(Change.one h ht hn).named hnamed, ?_, htok ▸ hcap, ?_⟩
  · simp only [St.jobs, St.sending]
    omega
  · omega

theorem Metered.release (hi : Metered cap s) {inpack : InPack} {err err' : Option Err}
    {v : Option PanicValue} (h : s.tasks i = some (.exec inpack (.deferred err v)))
    (hpos : 0 < s.tokens)
    (ht : t.tasks = Function.update s.tasks i (some (.exec inpack (.report err'))))
    (hn : t.ntask = s.ntask) (htok : t.tokens = s.tokens - 1) : Metered cap t := by
  have hold : (Task.exec inpack (.deferred err v)).role = .job := rfl
  have hnew : (Task.exec inpack (.report err')).role = .idle := rfl
  have hjob := total_update (w := isJob) hi.named h ht hn
  have hsend := total_update (w := isSending) hi.named h ht hn
  have hdisp := total_update (w := isDispatcher) hi.named h ht hn
  simp only [isJob, isSending, isDispatcher, hold, hnew] at hjob hsend hdisp
  obtain ⟨hnamed, hbal, hcap, hone⟩ := hi
  simp only [St.jobs, St.sending] at hbal
  refine ⟨(Change.one h ht hn).named hnamed, ?_, by omega, ?_⟩
  · simp only [St.jobs, St.sending]
    omega
  · omega

theorem Metered.handoff (hi : Metered 0 s) {j : ℕ} {op : Op} {inpack job : InPack} {drains : Bool}
    {err : Option Err} {v : Option PanicValue}
    (h : s.tasks i = some (.call op (.limit inpack drains)))
    (h' : s.tasks j = some (.exec job (.deferred err v))) :
    Metered 0 ((s.setTask i (afterLimit op inpack drains)).setTask j
      (.exec job (.report (Exec.recovered err v)))) := by
  -- On an unbuffered `limit` the token passes from the sender to the receiver: as if it had been
  -- in the channel in between.
  have hne : j ≠ i := by
    rintro rfl
    simp [h] at h'
  have hwide : Metered 1 s := ⟨hi.named, hi.balance, hi.tokens.trans (Nat.zero_le 1), hi.single⟩
  have hmid : Metered 1 { s.setTask i (afterLimit op inpack drains) with tokens := s.tokens + 1 } :=
    hwide.token h (Nat.lt_succ_of_le hi.tokens) rfl rfl rfl
  have hend : Metered 1 ((s.setTask i (afterLimit op inpack drains)).setTask j
      (.exec job (.report (Exec.recovered err v)))) :=
    hmid.release ((Function.update_of_ne hne ..).trans h') (Nat.succ_pos _) rfl rfl rfl
  exact ⟨hend.named, hend.balance, hi.tokens, hend.single⟩

theorem Metered.move (hi : Metered cap s) (hm : Move cfg s act t) (hg : oneWork s act = true)
    (hlim : cfg.limit = some cap) : Metered cap t := by
  cases hm with
  | call op hc => exact hi.call hg
  | pc h hl => exact hi.update h rfl rfl rfl (hl.role hlim)
  | lock h hl hfree => exact hi.update h rfl rfl rfl (Or.inl hl.role)
  | unlock h hl => exact hi.update h rfl rfl rfl (Or.inl hl.role)
  | dial h hd => exact hi.update h rfl rfl rfl (Or.inl hd.role)
  | publish h hp => exact hi.update h rfl rfl rfl (Or.inl hp.role)
  | spawn h hs => exact hi.spawn h hs
  | @shut i old task task' h hs =>
    exact hi.update h (shut_setTask s old i task') (shut_ntask s old) (shut_tokens s old)
      (Or.inl hs.role)
  | report h hr => exact hi.update h rfl rfl rfl (Or.inl hr.role)
  | setReady h hmu => exact hi.update h rfl rfl rfl (Or.inl (role_afterReady _))
  | @setRunning i op h hmu =>
    refine hi.update h rfl rfl rfl (Or.inl ?_)
    rw [role_writes]
    simp [Task.role, Pc.dispatches, Pc.role]
  | close h hmu hc => exact hi.update h rfl rfl rfl (Or.inl rfl)
  | closeAgain h hmu hc => exact hi.update h rfl rfl rfl (Or.inl rfl)
  | closeQuit h => exact hi.update h rfl rfl rfl (Or.inl rfl)
  | @closeAgent i k op h hk =>
    refine hi.update h (closeAgent_setTask s k i _) (shut_ntask s _) ?_ (Or.inl rfl)
    exact shut_tokens s _
  | changeFuncs h hmu hr heq => exact hi.update h rfl rfl rfl (Or.inl (role_writes _ _))
  | setFuncs h hpc hmu heq =>
    refine hi.update h rfl rfl rfl (Or.inl ?_)
    rcases hpc with rfl | rfl <;> rfl
  | unlockWorker h => exact hi.update h rfl rfl rfl (Or.inl rfl)
  | sent h hopen => exact hi.update h rfl rfl rfl (Or.inl rfl)
  | read h hw => exact hi.update h rfl rfl rfl (Or.inl rfl)
  | send h hfull => exact hi.update h rfl rfl rfl (Or.inl rfl)
  | @recv act i op pc inpack rest drains h hpc hin =>
    refine hi.update h rfl rfl rfl (Or.inl ?_)
    rw [role_handle, hpc]
    exact (role_back op drains).symm
  | token h hl hcap =>
    cases Option.some.inj (hlim.symm.trans hl)
    exact hi.token h hcap rfl rfl rfl
  | release h hl hpos => exact hi.release h hpos rfl rfl rfl
  | handoff h h' hl =>
    cases Option.some.inj (hlim.symm.trans hl)
    exact hi.handoff h h'
  | serve hc => exact ⟨hi.named, hi.balance, hi.tokens, hi.single⟩
  | panic h hrw => exact ⟨hi.named, hi.balance, hi.tokens, hi.single⟩

theorem metered_start (cap : ℕ) : Metered cap {} :=
  ⟨named_start, rfl, Nat.zero_le cap, Nat.zero_le 1⟩

theorem Task.sending_le_dispatcher (task : Task) : isSending task ≤ isDispatcher task := by
  unfold isSending isDispatcher
  cases task.role <;> decide

/-- At most `limit` jobs have started and not received their token, and the tokens in the
channel are theirs unless `Work` is between the start of a job and its send. -/
theorem dispatch_limit (cfg : Cfg) (limit : ℕ) (hpos : 1 ≤ limit)
    (hcfg : cfg.limit = some (limit - 1)) (t : St) (h : Reachable (step cfg) oneWork {} t) :
    t.jobs ≤ limit ∧ (t.sending = 0 → t.tokens = t.jobs) := by
  have hi : Metered (limit - 1) t := h.invariant (metered_start _)
    (fun _ _ _ hi hg hs => hi.move (step_move hs) hg hcfg)
  obtain ⟨hnamed, hbal, hcap, hone⟩ := hi
  have hsend : t.sending ≤ 1 := le_trans (tally_mono Task.sending_le_dispatcher) hone
  constructor
  · omega
  · intro hidle
    omega

def oneByOne : Cfg := { nagents := 1, limit := some 0 }

/-- `Work` connects, announces its function, grabs, and has started the first job. -/
def dispatchActs : List Act :=
  [.call (.addFunc [102] ⟨fun _ => .returned [] none, 0⟩), .task 0, .call .work,
    .task 1, .task 1, .task 1, .task 1, .task 1, .dial 1 none, .task 1, .task 1, .task 1,
    .range 1 [[102]], .task 1, .task 1, .flush 1 true, .task 1, .task 1, .task 1,
    .task 1, .task 1, .flush 1 true, .task 1,
    .serve 0 (Wire.frame res dtJobAssign [72, 0, 102, 0]), .read 2 none, .task 2, .send 2,
    .recv 1, .task 1]

theorem dispatch_limit_one :
    ∃ t, Reachable (step oneByOne) oneWork {} t ∧ t.sending = 1 ∧ t.jobs = 1 ∧ t.jobs ≤ 1 :=
  ⟨_, ⟨dispatchActs, rfl⟩, rfl, rfl, (dispatch_limit oneByOne 1 le_rfl rfl _ ⟨dispatchActs, rfl⟩).1⟩

end Gearman.Worker.Machine
