import Gearman.WorkerTasks

/-!
# What `Worker.Close` leaves behind

`Worker.Close` closes the agents one after another, and an agent keeps no record of
it: whoever has dialled a connection publishes it, also on a worker that is closed.
An agent that `Close` has passed stays without a connection exactly as long as nobody
holds or gets a new connection for it.
-/

namespace Gearman.Worker.Machine
open Transition

/-- The agent for which the task holds a connection it has dialled and not published. -/
def Task.fresh : Task → Option ℕ
  | .write _ _ next => next.fresh
  | .call _ (.setConn k _ _) => some k
  | .call _ (.republish a _) => some a
  | .loop a _ _ (.setConn _ _) => some a
  | _ => none

def Task.dialing : Task → Option ℕ
  | .call _ (.dialConn k _) => some k
  | .call _ (.redial a) => some a
  | .loop a _ _ (.dial _) => some a
  | _ => none

/-- A call to `Close` that has left agent `k` behind. -/
def Task.past (k : ℕ) : Task → Bool
  | .write _ _ next => next.past k
  | .call _ (.closeAgent j) => k < j
  | .call _ .closed => true
  | _ => false

def Task.closing : Task → Bool
  | .write _ _ next => next.closing
  | .call _ .closeQuit => true
  | .call _ (.closeAgent _) => true
  | _ => false

/-- A call to `Close` that has set `closed`, or found it set. -/
def Task.begun : Task → Bool
  | .write _ _ next => next.begun
  | .call _ .closeQuit => true
  | .call _ (.closeAgent _) => true
  | .call _ .closed => true
  | _ => false

def anyTask (s : St) (P : Task → Bool) : Bool :=
  (List.range s.ntask).any (fun i => (s.tasks i).any P)

/-- No dial succeeds for an agent that `Close` has passed; nobody holds an unpublished
connection of an agent when `Close` closes it; and no second `Close` begins while the
first one is at work. -/
def settled (s : St) : Act → Bool
  | .dial i none =>
    match (s.tasks i).bind Task.dialing with
    | none => true
    | some k => !anyTask s (Task.past k)
  | .task i =>
    match s.tasks i with
    | some (.call _ (.closeAgent k)) => !anyTask s (fun task => task.fresh = some k)
    | some (.call _ .close) => !(s.closed && anyTask s Task.closing)
    | _ => true
  | _ => true

def CloseReturned (s : St) : Prop := ∃ i op, s.tasks i = some (.call op .closed)

def Has (s : St) (P : Task → Bool) : Prop := ∃ i task, s.tasks i = some task ∧ P task = true

/-- Agent `k` has no connection, and nobody is about to give it one. -/
structure Quiet (s : St) (k : ℕ) : Prop where
  conn : (s.agents k).conn = none
  fresh : ∀ i task, s.tasks i = some task → task.fresh ≠ some k

structure Closing (cfg : Cfg) (s : St) : Prop where
  named : ∀ i task, s.tasks i = some task → i < s.ntask
  quiet : ∀ k, k < cfg.nagents → Has s (Task.past k) → Quiet s k
  begun : s.closed = true → Has s Task.begun

/-- A task that holds no connection and is not in `Close`. -/
structure Idle (task : Task) : Prop where
  fresh : task.fresh = none
  past : ∀ k, task.past k = false

/-- A step of a task that neither dials nor publishes nor closes an agent. -/
structure Plain (cfg : Cfg) (task task' : Task) : Prop where
  fresh : task'.fresh = none ∨ task'.fresh = task.fresh
  past : ∀ k, k < cfg.nagents → task'.past k = task.past k
  begun : task.begun = true → task'.begun = true

variable {cfg : Cfg} {s t : St} {i k : ℕ} {task task' : Task} {P : Task → Bool}

theorem past_of_not_begun (h : task.begun = false) (k : ℕ) : task.past k = false := by
  induction task with
  | write todo stage next ih => exact ih h
  | call op pc => cases pc <;> first | rfl | cases h
  | loop a epoch c pc => rfl
  | exec inpack pc => rfl

theorem past_of_ended (h : task.begun = true) (hc : task.closing = false) (k : ℕ) :
    task.past k = true := by
  induction task with
  | write todo stage next ih => exact ih h hc
  | call op pc =>
    cases pc with
    | closed => rfl
    | closeQuit => cases hc
    | closeAgent j => cases hc
    | _ => cases h
  | loop a epoch c pc => cases h
  | exec inpack pc => cases h

theorem Plain.of_idle (h : task.begun = false) (hi : Idle task') : Plain cfg task task' := by
  refine ⟨Or.inl hi.fresh, ?_, by simp [h]⟩
  intro k _
  rw [hi.past k, past_of_not_begun h]

theorem Plain.write {todo todo' : List (ℕ × OutPack)} {stage stage' : Stage} {next : Task} :
    Plain cfg (.write todo stage next) (.write todo' stage' next) :=
  ⟨Or.inr rfl, fun _ _ => rfl, id⟩

theorem idle_writes {todo : List (ℕ × OutPack)} {next : Task} (h : Idle next) :
    Idle (writes todo next) := by
  cases todo with
  | nil => exact h
  | cons w rest => exact ⟨h.fresh, h.past⟩

theorem idle_back (op : Op) (drains : Bool) : Idle (back op drains) := by
  cases drains <;> exact ⟨rfl, fun _ => rfl⟩

theorem idle_entry (cfg : Cfg) (op : Op) : Idle (entry cfg op) := by
  cases op with
  | reset => exact idle_writes ⟨rfl, fun _ => rfl⟩
  | echo data => exact idle_writes ⟨rfl, fun _ => rfl⟩
  | setId id => exact idle_writes ⟨rfl, fun _ => rfl⟩
  | progress inpack updates => exact idle_writes ⟨rfl, fun _ => rfl⟩
  | _ => exact ⟨rfl, fun _ => rfl⟩

theorem idle_reaction (a epoch c : ℕ) (err : Err) : Idle (.loop a epoch c (reaction err)) := by
  unfold reaction
  cases onReadError err <;> exact ⟨rfl, fun _ => rfl⟩

theorem idle_answer (s : St) (inpack : InPack) (r : Result) : Idle (answer s inpack r) := by
  unfold answer
  split_ifs
  · exact idle_writes ⟨rfl, fun _ => rfl⟩
  · exact ⟨rfl, fun _ => rfl⟩

theorem Local.plain (hl : Local cfg s task task') : Plain cfg task task' := by
  cases hl with
  | ready => exact .of_idle rfl (by split_ifs <;> exact ⟨rfl, fun _ => rfl⟩)
  | snapshot hmu => exact .of_idle rfl (by split_ifs <;> exact ⟨rfl, fun _ => rfl⟩)
  | getConn => exact .of_idle rfl (by split_ifs <;> exact ⟨rfl, fun _ => rfl⟩)
  | isReady hmu => exact .of_idle rfl (by split_ifs <;> exact ⟨rfl, fun _ => rfl⟩)
  | announce hk ho => exact .of_idle rfl (idle_writes ⟨rfl, fun _ => rfl⟩)
  | noJob ht => exact .of_idle rfl (idle_writes (idle_back _ _))
  | noop ht => exact .of_idle rfl (idle_writes (idle_back _ _))
  | unlimited hl => exact .of_idle rfl (idle_writes (idle_back _ _))
  | reannounce hmu ho => exact .of_idle rfl (idle_writes ⟨rfl, fun _ => rfl⟩)
  | react he => exact .of_idle rfl (idle_reaction _ _ _ _)
  | disconnect => exact .of_idle rfl (by split_ifs <;> exact ⟨rfl, fun _ => rfl⟩)
  | answer hmu => exact .of_idle rfl (idle_answer _ _ _)
  | getRW hrw => exact .write
  | flushFailed => exact .write
  | closed hk =>
    refine ⟨Or.inl rfl, ?_, fun _ => rfl⟩
    intro k' hk'
    simp only [Task.past]
    exact (decide_eq_true (by omega)).symm
  | _ => exact .of_idle rfl ⟨rfl, fun _ => rfl⟩

theorem Locks.plain (hl : Locks cfg task k task') : Plain cfg task task' := by
  cases hl with
  | connect hk => exact .of_idle rfl ⟨rfl, fun _ => rfl⟩
  | write => exact .write

theorem Unlocks.plain (hl : Unlocks task k task') : Plain cfg task task' := by
  cases hl with
  | connected => exact .of_idle rfl ⟨rfl, fun _ => rfl⟩
  | failed => exact .of_idle rfl ⟨rfl, fun _ => rfl⟩
  | @written k outpack rest next =>
    cases rest with
    | nil => exact ⟨Or.inr rfl, fun _ _ => rfl, id⟩
    | cons w rest => exact .write

theorem Reports.plain {rs : List Report} (hr : Reports cfg s task rs task') :
    Plain cfg task task' := by
  cases hr with
  | serverErr ht => exact .of_idle rfl (idle_back _ _)
  | custome ht hj => exact .of_idle rfl (idle_back _ _)
  | _ => exact .of_idle rfl ⟨rfl, fun _ => rfl⟩

theorem Shuts.plain {old : Option ℕ} (hs : Shuts task old task') : Plain cfg task task' := by
  cases hs <;> exact .of_idle rfl ⟨rfl, fun _ => rfl⟩

theorem Spawns.plain {new : Task} (hs : Spawns task task' new) : Plain cfg task task' := by
  cases hs <;> exact .of_idle rfl ⟨rfl, fun _ => rfl⟩

theorem Spawns.idle {new : Task} (hs : Spawns task task' new) : Idle new := by
  cases hs <;> exact ⟨rfl, fun _ => rfl⟩

theorem Has.update (hex : Has s P) (h : s.tasks i = some task)
    (ht : t.tasks = Function.update s.tasks i (some task')) (hP : P task = true → P task' = true) :
    Has t P := by
  obtain ⟨j, old, hj, hold⟩ := hex
  by_cases hij : j = i
  · subst hij
    cases Option.some.inj (h.symm.trans hj)
    exact ⟨j, task', by rw [ht, Function.update_self], hP hold⟩
  · exact ⟨j, old, by rw [ht, Function.update_of_ne hij, hj], hold⟩

theorem Has.of_update (hex : Has t P) (h : s.tasks i = some task)
    (ht : t.tasks = Function.update s.tasks i (some task')) (hP : P task' = true → P task = true) :
    Has s P := by
  obtain ⟨j, new, hj, hnew⟩ := hex
  rw [ht] at hj
  rcases update_eq_some hj with ⟨rfl, rfl⟩ | ⟨_, hj⟩
  · exact ⟨j, task, h, hP hnew⟩
  · exact ⟨j, new, hj, hnew⟩

theorem Closing.anyTask_iff (hi : Closing cfg s) : anyTask s P = true ↔ Has s P := by
  simp only [anyTask, List.any_eq_true, List.mem_range, Option.any_eq_true]
  constructor
  · rintro ⟨j, _, new, hj, hnew⟩
    exact ⟨j, new, hj, hnew⟩
  · rintro ⟨j, new, hj, hnew⟩
    exact ⟨j, hi.named j new hj, new, hj, hnew⟩

theorem Quiet.keep (hq : Quiet s k) (hconn : (t.agents k).conn = (s.agents k).conn)
    (htasks : ∀ j new, t.tasks j = some new → s.tasks j = some new ∨ new.fresh ≠ some k) :
    Quiet t k := by
  refine ⟨hconn.trans hq.conn, ?_⟩
  intro j new hj
  rcases htasks j new hj with hold | hne
  · exact hq.fresh j new hold
  · exact hne

theorem Quiet.update (hq : Quiet s k) (hconn : (t.agents k).conn = (s.agents k).conn)
    (ht : t.tasks = Function.update s.tasks i (some task')) (hf : task'.fresh ≠ some k) :
    Quiet t k := by
  refine hq.keep hconn ?_
  intro j new hj
  rw [ht] at hj
  rcases update_eq_some hj with ⟨_, rfl⟩ | ⟨_, hj⟩
  · exact Or.inr hf
  · exact Or.inl hj

theorem named_update (hn : ∀ i task, s.tasks i = some task → i < s.ntask)
    (h : s.tasks i = some task) (ht : t.tasks = Function.update s.tasks i (some task'))
    (hnt : t.ntask = s.ntask) : ∀ j new, t.tasks j = some new → j < t.ntask :=
  (Change.one h ht hnt).named hn

theorem Closing.update (hi : Closing cfg s) (h : s.tasks i = some task)
    (hp : Plain cfg task task') (ht : t.tasks = Function.update s.tasks i (some task'))
    (hn : t.ntask = s.ntask) (hconn : ∀ k, (t.agents k).conn = (s.agents k).conn)
    (hcl : t.closed = s.closed) : Closing cfg t where
  named := named_update hi.named h ht hn
  quiet := by
    intro k hk hpast
    have hs := hpast.of_update h ht (fun hnew => (hp.past k hk).symm.trans hnew)
    have hq := hi.quiet k hk hs
    refine hq.update (hconn k) ht ?_
    rcases hp.fresh with hf | hf
    · simp [hf]
    · rw [hf]
      exact hq.fresh i task h
  begun := by
    intro hc
    exact (hi.begun (hcl ▸ hc)).update h ht hp.begun

theorem Closing.spawn (hi : Closing cfg s) {new : Task} (hnew : Idle new) :
    Closing cfg (s.spawn new) := by
  have hkeep : ∀ {j old}, (s.spawn new).tasks j = some old → old = new ∨ s.tasks j = some old := by
    intro j old hj
    rcases update_eq_some hj with ⟨_, hold⟩ | ⟨_, hj⟩
    · exact Or.inl hold
    · exact Or.inr hj
  refine ⟨?_, ?_, ?_⟩
  · exact (Change.new rfl rfl).named hi.named
  · rintro k hk ⟨j, old, hj, hpast⟩
    have hs : Has s (Task.past k) := by
      rcases hkeep hj with rfl | hj
      · simp [hnew.past k] at hpast
      · exact ⟨j, old, hj, hpast⟩
    refine (hi.quiet k hk hs).keep rfl ?_
    intro j old hj
    rcases hkeep hj with rfl | hj
    · exact Or.inr (by simp [hnew.fresh])
    · exact Or.inl hj
  · intro hc
    obtain ⟨j, old, hj, hbegun⟩ := hi.begun hc
    have hne : j ≠ s.ntask := Nat.ne_of_lt (hi.named j old hj)
    exact ⟨j, old, (Function.update_of_ne hne ..).trans hj, hbegun⟩

theorem setAgent_conn {agent : Agent} (h : agent.conn = (s.agents k).conn) (k' : ℕ) :
    ((s.setAgent k agent).agents k').conn = (s.agents k').conn := by
  by_cases hk : k' = k
  · subst hk
    simp [St.setAgent, h]
  · simp [St.setAgent, hk]

theorem shut_agents (s : St) (old : Option ℕ) : (s.shut old).agents = s.agents := by
  cases old <;> rfl

theorem shut_closed (s : St) (old : Option ℕ) : (s.shut old).closed = s.closed := by
  cases old <;> rfl

theorem Closing.dial (hi : Closing cfg s) (h : s.tasks i = some task)
    (hd : Dials s.nconn task k task') (hg : settled s (.dial i none) = true) :
    Closing cfg ((s.dialled k).setTask i task') := by
  -- A new connection is for an agent that no `Close` has passed.
  obtain ⟨hdialing, hfresh, hidle, hpast⟩ : task.dialing = some k ∧ task'.fresh = some k ∧
      task.begun = false ∧ ∀ k', task'.past k' = false := by
    cases hd <;> exact ⟨rfl, rfl, rfl, fun _ => rfl⟩
  have hnot : ¬ Has s (Task.past k) := by
    rw [← hi.anyTask_iff]
    simpa [settled, h, hdialing] using hg
  refine ⟨named_update hi.named h rfl rfl, ?_, ?_⟩
  · intro k' hk' hex
    have hs : Has s (Task.past k') := hex.of_update h rfl (by simp [hpast k'])
    refine (hi.quiet k' hk' hs).update rfl rfl ?_
    rw [hfresh]
    intro heq
    cases heq
    exact hnot hs
  · intro hc
    exact (hi.begun hc).update h rfl (by simp [hidle])

theorem Closing.publish (hi : Closing cfg s) {c e : ℕ} (h : s.tasks i = some task)
    (hp : Publishes e task k c task') : Closing cfg ((s.publish k c).setTask i task') := by
  obtain ⟨hfresh, hidle, hnew⟩ : task.fresh = some k ∧ task.begun = false ∧ Idle task' := by
    cases hp <;> exact ⟨rfl, rfl, rfl, fun _ => rfl⟩
  refine ⟨named_update hi.named h rfl rfl, ?_, ?_⟩
  · intro k' hk' hex
    have hs : Has s (Task.past k') := hex.of_update h rfl (by simp [hnew.past k'])
    have hq := hi.quiet k' hk' hs
    have hne : k' ≠ k := by
      rintro rfl
      exact hq.fresh i task h hfresh
    refine hq.update ?_ rfl (by simp [hnew.fresh])
    exact congrArg Agent.conn (Function.update_of_ne hne ..)
  · intro hc
    exact (hi.begun hc).update h rfl (by simp [hidle])

theorem Closing.closeAgent (hi : Closing cfg s) {op : Op}
    (h : s.tasks i = some (.call op (.closeAgent k))) (hg : settled s (.task i) = true) :
    Closing cfg ((s.closeAgent k).setTask i (.call op (.closeAgent (k + 1)))) := by
  have hnot : ¬ Has s (fun task => task.fresh = some k) := by
    rw [← hi.anyTask_iff]
    simpa [settled, h] using hg
  have htasks : ((s.closeAgent k).setTask i (.call op (.closeAgent (k + 1)))).tasks =
      Function.update s.tasks i (some (.call op (.closeAgent (k + 1)))) :=
    congrArg (Function.update · i _) (shut_tasks s _)
  have hconn : ∀ k', k' ≠ k → ((s.closeAgent k).agents k').conn = (s.agents k').conn := by
    intro k' hne
    exact congrArg Agent.conn
      ((Function.update_of_ne hne ..).trans (congrFun (shut_agents s _) k'))
  refine ⟨named_update hi.named h htasks (shut_ntask s _), ?_, ?_⟩
  · intro k' hk' hex
    by_cases heq : k' = k
    · subst heq
      have hq : Quiet { s with agents := (s.closeAgent k').agents } k' := by
        refine ⟨by simp [St.closeAgent, St.setAgent], ?_⟩
        intro j old hj hfresh
        exact hnot ⟨j, old, hj, by simpa using hfresh⟩
      exact hq.update rfl htasks (by simp [Task.fresh])
    · have hs : Has s (Task.past k') := by
        refine hex.of_update h htasks ?_
        simp only [Task.past, decide_eq_true_eq]
        omega
      exact (hi.quiet k' hk' hs).update (hconn k' heq) htasks (by simp [Task.fresh])
  · intro hc
    exact (hi.begun ((shut_closed s _).symm.trans hc)).update h htasks (fun _ => rfl)

theorem Closing.closeAgain (hi : Closing cfg s) {op : Op}
    (h : s.tasks i = some (.call op .close)) (hc : s.closed = true)
    (hg : settled s (.task i) = true) : Closing cfg (s.setTask i (.call op .closed)) := by
  have hnot : ¬ Has s Task.closing := by
    rw [← hi.anyTask_iff]
    simpa [settled, h, hc] using hg
  have hall : ∀ k', Has s (Task.past k') := by
    intro k'
    obtain ⟨j, old, hj, hbegun⟩ := hi.begun hc
    have hend : old.closing = false := by
      by_contra hne
      exact hnot ⟨j, old, hj, by simpa using hne⟩
    exact ⟨j, old, hj, past_of_ended hbegun hend k'⟩
  refine ⟨named_update hi.named h rfl rfl, ?_, ?_⟩
  · intro k' hk' _
    exact (hi.quiet k' hk' (hall k')).update rfl rfl (by simp [Task.fresh])
  · intro _
    exact ⟨i, _, Function.update_self .., rfl⟩

theorem Closing.close (hi : Closing cfg s) {op : Op} (h : s.tasks i = some (.call op .close))
    (ht : t.tasks = Function.update s.tasks i (some (.call op .closeQuit)))
    (hn : t.ntask = s.ntask) (ha : t.agents = s.agents) : Closing cfg t where
  named := named_update hi.named h ht hn
  quiet := by
    intro k hk hex
    have hs : Has s (Task.past k) := hex.of_update h ht (by simp [Task.past])
    exact (hi.quiet k hk hs).update (by rw [ha]) ht (by simp [Task.fresh])
  begun := fun _ => ⟨i, _, by rw [ht, Function.update_self], rfl⟩

theorem Closing.keep (hi : Closing cfg s) (ht : t.tasks = s.tasks) (hn : t.ntask = s.ntask)
    (ha : t.agents = s.agents) (hcl : t.closed = s.closed) : Closing cfg t := by
  have hhas : ∀ {P : Task → Bool}, Has t P ↔ Has s P := by
    intro P
    simp only [Has, ht]
  refine ⟨?_, ?_, ?_⟩
  · rw [ht, hn]
    exact hi.named
  · intro k hk hex
    have hq := hi.quiet k hk (hhas.mp hex)
    exact ⟨by rw [ha, hq.conn], by rw [ht]; exact hq.fresh⟩
  · intro hc
    exact hhas.mpr (hi.begun (hcl ▸ hc))

theorem Closing.move {act : Act} (hi : Closing cfg s) (hm : Move cfg s act t)
    (hg : settled s act = true) : Closing cfg t := by
  cases hm with
  | call op hc => exact hi.spawn (idle_entry cfg op)
  | pc h hl => exact hi.update h hl.plain rfl rfl (fun _ => rfl) rfl
  | lock h hl hfree => exact hi.update h hl.plain rfl rfl (setAgent_conn rfl) rfl
  | unlock h hl => exact hi.update h hl.plain rfl rfl (setAgent_conn rfl) rfl
  | dial h hd => exact hi.dial h hd hg
  | publish h hp => exact hi.publish h hp
  | @spawn i task task' new h hs =>
    have hmid : Closing cfg (s.setTask i task') :=
      hi.update h hs.plain rfl rfl (fun _ => rfl) rfl
    exact hmid.spawn hs.idle
  | @shut i old task task' h hs =>
    refine hi.update h hs.plain ?_ (shut_ntask s old) ?_ (shut_closed s old)
    · exact congrArg (Function.update · i _) (shut_tasks s old)
    · exact fun k => congrArg Agent.conn (congrFun (shut_agents s old) k)
  | report h hr => exact hi.update h hr.plain rfl rfl (fun _ => rfl) rfl
  | @setReady i op h hmu =>
    refine hi.update h (.of_idle rfl ?_) rfl rfl (fun _ => rfl) rfl
    cases op <;> exact ⟨rfl, fun _ => rfl⟩
  | setRunning h hmu =>
    exact hi.update h (.of_idle rfl (idle_writes ⟨rfl, fun _ => rfl⟩)) rfl rfl (fun _ => rfl) rfl
  | close h hmu hc => exact hi.close h rfl rfl rfl
  | closeAgain h hmu hc => exact hi.closeAgain h hc hg
  | closeQuit h =>
    have hp : ∀ {op : Op}, Plain cfg (.call op .closeQuit) (.call op (.closeAgent 0)) :=
      ⟨Or.inl rfl, fun _ _ => rfl, fun _ => rfl⟩
    exact hi.update h hp rfl rfl (fun _ => rfl) rfl
  | closeAgent h hk => exact hi.closeAgent h hg
  | changeFuncs h hmu hr heq =>
    exact hi.update h (.of_idle rfl (idle_writes ⟨rfl, fun _ => rfl⟩)) rfl rfl (fun _ => rfl) rfl
  | setFuncs h hpc hmu heq =>
    refine hi.update h (.of_idle ?_ ⟨rfl, fun _ => rfl⟩) rfl rfl (fun _ => rfl) rfl
    rcases hpc with rfl | rfl <;> rfl
  | unlockWorker h =>
    exact hi.update h (.of_idle rfl ⟨rfl, fun _ => rfl⟩) rfl rfl (fun _ => rfl) rfl
  | sent h hopen => exact hi.update h .write rfl rfl (fun _ => rfl) rfl
  | read h hw => exact hi.update h (.of_idle rfl ⟨rfl, fun _ => rfl⟩) rfl rfl (fun _ => rfl) rfl
  | send h hfull =>
    exact hi.update h (.of_idle rfl ⟨rfl, fun _ => rfl⟩) rfl rfl (fun _ => rfl) rfl
  | @recv act i op pc inpack rest drains h hpc hin =>
    refine hi.update h (.of_idle ?_ ⟨rfl, fun _ => rfl⟩) rfl rfl (fun _ => rfl) rfl
    subst hpc
    cases drains <;> rfl
  | token h hl hcap =>
    exact hi.update h (.of_idle rfl (idle_writes (idle_back _ _))) rfl rfl (fun _ => rfl) rfl
  | release h hl hpos =>
    exact hi.update h (.of_idle rfl ⟨rfl, fun _ => rfl⟩) rfl rfl (fun _ => rfl) rfl
  | @handoff i j op inpack job drains err v h h' hl =>
    have hmid : Closing cfg (s.setTask i (afterLimit op inpack drains)) :=
      hi.update h (.of_idle rfl (idle_writes (idle_back _ _))) rfl rfl (fun _ => rfl) rfl
    have hne : j ≠ i := by
      rintro rfl
      simp [h] at h'
    exact hmid.update ((Function.update_of_ne hne ..).trans h') (.of_idle rfl ⟨rfl, fun _ => rfl⟩)
      rfl rfl (fun _ => rfl) rfl
  | serve hc => exact hi.keep rfl rfl rfl rfl
  | panic h hrw => exact hi.keep rfl rfl rfl rfl

theorem Move.returned {act : Act} (hm : Move cfg s act t)
    (hn : ∀ i task, s.tasks i = some task → i < s.ntask) {op : Op}
    (h : s.tasks i = some (.call op .closed)) : t.tasks i = some (.call op .closed) := by
  have key : ∀ {j : ℕ} {task task' : Task}, s.tasks j = some task → task ≠ .call op .closed →
      Function.update s.tasks j (some task') i = some (.call op .closed) := by
    intro j task task' hj hne
    have hij : i ≠ j := by
      rintro rfl
      exact hne (Option.some.inj (hj.symm.trans h))
    rw [Function.update_of_ne hij, h]
  have hnew : i ≠ s.ntask := Nat.ne_of_lt (hn i _ h)
  cases hm with
  | call op hc => exact (Function.update_of_ne hnew ..).trans h
  | pc hj hl => exact key hj (by rintro rfl; cases hl)
  | lock hj hl hfree => exact key hj (by rintro rfl; cases hl)
  | unlock hj hl => exact key hj (by rintro rfl; cases hl)
  | dial hj hd => exact key hj (by rintro rfl; cases hd)
  | publish hj hp => exact key hj (by rintro rfl; cases hp)
  | spawn hj hs =>
    exact (Function.update_of_ne hnew ..).trans (key hj (by rintro rfl; cases hs))
  | @shut j old task task' hj hs =>
    exact (congrFun (congrArg (Function.update · j _) (shut_tasks s old)) i).trans
      (key hj (by rintro rfl; cases hs))
  | report hj hr => exact key hj (by rintro rfl; cases hr)
  | @closeAgent j k op hj hk =>
    exact (congrFun (congrArg (Function.update · j _) (shut_tasks s _)) i).trans (key hj (by simp))
  | setFuncs hj hpc hmu heq =>
    refine key hj ?_
    rcases hpc with rfl | rfl <;> simp
  | @recv act j op pc inpack rest drains hj hpc hin =>
    refine key hj ?_
    subst hpc
    cases drains <;> simp
  | @handoff j j' op inpack job drains err v hj hj' hl =>
    have hne : i ≠ j' := by
      rintro rfl
      simp [h] at hj'
    exact (Function.update_of_ne hne ..).trans (key hj (by simp))
  | serve hc => exact h
  | panic hj hrw => exact h
  | _ => exact key (by assumption) (by simp)

theorem closing_start (cfg : Cfg) : Closing cfg {} where
  named := by
    intro i task h
    cases h
  quiet := by
    rintro k - ⟨i, task, h, -⟩
    cases h
  begun := by
    intro h
    cases h

/-- In a run where no connection is dialled past `Close`, the agents of a worker whose `Close`
has returned have no connection, now or later. -/
theorem worker_close_final (cfg : Cfg) (s t : St) (hs : Reachable (step cfg) settled {} s)
    (hret : CloseReturned s) (ht : Reachable (step cfg) settled s t) (k : ℕ)
    (hk : k < cfg.nagents) : (t.agents k).conn = none := by
  have his : Closing cfg s :=
    hs.invariant (closing_start cfg) (fun _ _ _ hi hg h => hi.move (step_move h) hg)
  obtain ⟨i, op, hi⟩ := hret
  have hit : Closing cfg t ∧ t.tasks i = some (.call op .closed) :=
    ht.invariant (I := fun u => Closing cfg u ∧ u.tasks i = some (.call op .closed)) ⟨his, hi⟩
      (fun _ _ _ hu hg h =>
        ⟨hu.1.move (step_move h) hg, (step_move h).returned hu.1.named hu.2⟩)
  exact (hit.1.quiet k hk ⟨i, _, hit.2, rfl⟩).conn

def oneAgent : Cfg := { nagents := 1 }

def connectActs : List Act :=
  [.call (.addFunc [102] ⟨fun _ => .returned [] none, 0⟩), .task 0,
    .call .ready, .task 1, .task 1, .task 1, .task 1, .dial 1 none, .task 1, .task 1, .task 1]

def shutdownActs : List Act :=
  [.call .close, .task 3, .task 3, .task 3, .task 3]

theorem worker_close_of_connected :
    ∃ s t, Reachable (step oneAgent) settled {} s ∧ CloseReturned s ∧
      (run (step oneAgent) settled s [.read 2 (some (.op false)), .task 2, .task 2]) = some t ∧
      t.nconn = 1 ∧ (t.agents 0).conn = none := by
  refine ⟨_, _, ⟨connectActs ++ shutdownActs, rfl⟩, ⟨3, .close, rfl⟩, rfl, rfl, ?_⟩
  exact worker_close_final oneAgent _ _ ⟨connectActs ++ shutdownActs, rfl⟩ ⟨3, .close, rfl⟩
    ⟨[.read 2 (some (.op false)), .task 2, .task 2], rfl⟩ 0 Nat.zero_lt_one

/-- `Ready` is in the dial of the only agent when `Close` comes and goes. -/
def lateDialActs : List Act :=
  [.call (.addFunc [102] ⟨fun _ => .returned [] none, 0⟩), .task 0,
    .call .ready, .task 1, .task 1, .task 1, .task 1,
    .call .close, .task 2, .task 2, .task 2, .task 2]

theorem connected_after_close :
    ∃ s t, Reachable (step oneAgent) always {} s ∧ CloseReturned s ∧
      Reachable (step oneAgent) always s t ∧ (t.agents 0).conn = some 0 :=
  ⟨_, _, ⟨lateDialActs, rfl⟩, ⟨2, .close, rfl⟩, ⟨[.dial 1 none, .task 1], rfl⟩, rfl⟩

end Gearman.Worker.Machine
