import Gearman.Custody
import Gearman.Ranking
import Gearman.WorkerGhosts

/-!
# The locks of the worker

An agent's lock is held by a `Connect` on its way through the dial, or by a write of one
packet; `worker.Mutex` is held over writes by `AddFunc` and `RemoveFunc` alone. A task
with an agent's lock never waits for another lock, and a task with `worker.Mutex` waits
for one agent's lock at a time. So the tasks that hold a lock can always go on until
none of them does. And as every write to a connection is under the lock of the agent it
was published for, no two of them overlap.
-/

namespace Gearman.Worker.Machine
open Transition Custody

/-- The agent whose lock the task holds. -/
def Task.agentLock : Task → Option ℕ
  | .write _ .lock _ => none
  | .write todo _ _ => todo.head?.map Prod.fst
  | .call _ (.getConn k _) => some k
  | .call _ (.dialConn k _) => some k
  | .call _ (.setConn k _ _) => some k
  | .call _ (.goWork k _ _ _) => some k
  | .call _ (.unlock k _ _) => some k
  | _ => none

def Task.Plain : Task → Prop
  | .write _ _ _ => False
  | task => task.agentLock = none

def Task.Sound : Task → Prop
  | .write todo _ next => todo ≠ [] ∧ next.Plain
  | _ => True

structure Retains (task task' : Task) : Prop where
  sound : task.Sound → task'.Sound
  lock : task.Sound → task'.agentLock = task.agentLock

variable {cfg : Cfg} {s t : St} {act : Act} {i k c : ℕ} {task task' new next : Task}
variable {todo rest : List (ℕ × OutPack)}

theorem Task.Plain.agentLock (h : next.Plain) : next.agentLock = none := by
  cases next with
  | write todo stage next => cases h
  | _ => exact h

theorem Task.Plain.sound (h : next.Plain) : next.Sound := by
  cases next with
  | write todo stage next => cases h
  | _ => trivial

theorem sound_writes (h : next.Plain) : (writes todo next).Sound := by
  cases todo with
  | nil => exact h.sound
  | cons w rest => exact ⟨by simp, h⟩

theorem agentLock_writes (h : next.Plain) : (writes todo next).agentLock = none := by
  cases todo with
  | nil => exact h.agentLock
  | cons w rest => rfl

theorem plain_back (op : Op) (drains : Bool) : (back op drains).Plain := by
  cases drains <;> rfl

theorem Retains.writes (h : task.agentLock = none) (hn : next.Plain) :
    Retains task (writes todo next) where
  sound := fun _ => sound_writes hn
  lock := fun _ => (agentLock_writes hn).trans h.symm

theorem Retains.answer (h : task.agentLock = none) (inpack : InPack) (r : Result) :
    Retains task (answer s inpack r) := by
  unfold Machine.answer
  split_ifs
  · exact .writes h rfl
  · exact ⟨fun _ => trivial, fun _ => h.symm⟩

theorem Local.retains (hl : Local cfg s task task') : Retains task task' := by
  cases hl with
  | announce hk ho => exact .writes rfl rfl
  | noJob ht => exact .writes rfl (plain_back _ _)
  | noop ht => exact .writes rfl (plain_back _ _)
  | unlimited hl => exact .writes rfl (plain_back _ _)
  | reannounce hmu ho => exact .writes rfl rfl
  | answer hmu => exact .answer rfl _ _
  | getRW hrw => exact ⟨id, fun _ => rfl⟩
  | flushFailed => exact ⟨id, fun _ => rfl⟩
  | lookup hmu =>
    refine ⟨fun _ => trivial, fun _ => ?_⟩
    unfold Machine.lookup
    split <;> rfl
  | _ =>
    refine ⟨fun _ => trivial, fun _ => ?_⟩
    first
      | rfl
      | (split_ifs <;> rfl)

theorem Dials.retains (hd : Dials c task k task') : Retains task task' := by
  cases hd <;> exact ⟨fun _ => trivial, fun _ => rfl⟩

theorem Publishes.retains {e : ℕ} (hp : Publishes e task k c task') : Retains task task' := by
  cases hp <;> exact ⟨fun _ => trivial, fun _ => rfl⟩

theorem Spawns.retains (hs : Spawns task task' new) :
    Retains task task' ∧ new.Sound ∧ new.agentLock = none := by
  cases hs <;> exact ⟨⟨fun _ => trivial, fun _ => rfl⟩, trivial, rfl⟩

theorem Shuts.retains {old : Option ℕ} (hs : Shuts task old task') : Retains task task' := by
  cases hs <;> exact ⟨fun _ => trivial, fun _ => rfl⟩

theorem Reports.retains {rs : List Report} (hr : Reports cfg s task rs task') :
    Retains task task' := by
  cases hr with
  | serverErr ht => exact ⟨fun _ => (plain_back _ _).sound, fun _ => (plain_back _ _).agentLock⟩
  | custome ht hj => exact ⟨fun _ => (plain_back _ _).sound, fun _ => (plain_back _ _).agentLock⟩
  | _ => exact ⟨fun _ => trivial, fun _ => rfl⟩

theorem Locks.agentLock (hl : Locks cfg task k task') (h : task.Sound) :
    task.agentLock = none ∧ task'.agentLock = some k ∧ task'.Sound := by
  cases hl with
  | connect hk => exact ⟨rfl, rfl, trivial⟩
  | write => exact ⟨rfl, rfl, h⟩

theorem Unlocks.agentLock (hl : Unlocks task k task') (h : task.Sound) :
    task.agentLock = some k ∧ task'.agentLock = none ∧ task'.Sound := by
  cases hl with
  | written => exact ⟨rfl, agentLock_writes h.2, sound_writes h.2⟩
  | _ => exact ⟨rfl, rfl, trivial⟩

theorem Named.update (hi : Named s) (h : s.tasks i = some task)
    (ht : t.tasks = Function.update s.tasks i (some task')) (hn : t.ntask = s.ntask) : Named t :=
  (Change.one h ht hn).named hi

/-- The locks are in the hands of the tasks that their program counters say. -/
structure Owners (s : St) : Prop where
  named : Named s
  sound : ∀ i task, s.tasks i = some task → task.Sound
  agents : ∀ i k, (s.agents k).mutex = some i ↔ held Task.agentLock s.tasks i = some k
  worker : ∀ i, s.mutex = some i → ∃ task, s.tasks i = some task ∧ task.changes = true

theorem owners_start : Owners {} where
  named := named_start
  sound := fun i task h => by cases h
  agents := fun i k => ⟨(fun h => by cases h), (fun h => by cases h)⟩
  worker := fun i h => by cases h

theorem worker_update (hw : ∀ i, s.mutex = some i → ∃ task, s.tasks i = some task ∧
      task.changes = true) (h : s.tasks i = some task) (hc : task'.changes = task.changes)
    (j : ℕ) (hj : s.mutex = some j) :
    ∃ x, Function.update s.tasks i (some task') j = some x ∧ x.changes = true := by
  obtain ⟨x, hx, hch⟩ := hw j hj
  by_cases hji : j = i
  · subst hji
    cases Option.some.inj (h.symm.trans hx)
    exact ⟨task', Function.update_self .., hc.trans hch⟩
  · exact ⟨x, by rw [Function.update_of_ne hji, hx], hch⟩

theorem Owners.update (hi : Owners s) (hn : Named t) (h : s.tasks i = some task)
    (ht : t.tasks = Function.update s.tasks i (some task')) (hmu : t.mutex = s.mutex)
    (hag : ∀ k, (t.agents k).mutex = (s.agents k).mutex) (hk : Retains task task')
    (hc : task'.changes = task.changes) : Owners t where
  named := hn
  sound := by
    rw [ht]
    exact forall_update (hk.sound (hi.sound i task h)) hi.sound
  agents := by
    intro j k
    rw [hag, ht, held_update_same h (hk.lock (hi.sound i task h))]
    exact hi.agents j k
  worker := by
    intro j hj
    rw [ht]
    exact worker_update hi.worker h hc j (hmu.symm.trans hj)

theorem Owners.spawned (hi : Owners s) (hn : Named t)
    (ht : t.tasks = Function.update s.tasks s.ntask (some new)) (hmu : t.mutex = s.mutex)
    (hag : t.agents = s.agents) (hs : new.Sound) (hl : new.agentLock = none) : Owners t where
  named := hn
  sound := by
    rw [ht]
    exact forall_update hs hi.sound
  agents := by
    intro j k
    rw [hag, ht, held_update_new hi.named.new_none hl]
    exact hi.agents j k
  worker := by
    intro j hj
    obtain ⟨x, hx, hch⟩ := hi.worker j (hmu.symm.trans hj)
    have hne : j ≠ s.ntask := (hi.named j x hx).ne
    exact ⟨x, by rw [ht, Function.update_of_ne hne, hx], hch⟩

theorem Owners.lock (hi : Owners s) (hn : Named t) (h : s.tasks i = some task)
    (ht : t.tasks = Function.update s.tasks i (some task')) (hmu : t.mutex = s.mutex)
    (hl : Locks cfg task k task') (hfree : (s.agents k).mutex = none)
    (hown : (t.agents k).mutex = some i)
    (hag : ∀ k', k' ≠ k → (t.agents k').mutex = (s.agents k').mutex) : Owners t := by
  obtain ⟨hnone, hsome, hsound⟩ := hl.agentLock (hi.sound i task h)
  refine ⟨hn, ?_, ?_, ?_⟩
  · rw [ht]
    exact forall_update hsound hi.sound
  · intro j k'
    rw [ht, held_update, hsome]
    have hold : held Task.agentLock s.tasks i = none := (held_of_eq h).trans hnone
    by_cases hkk : k' = k
    · subst hkk
      by_cases hji : j = i
      · subst hji
        simp [hown]
      · have hno := hi.agents j k'
        rw [hfree] at hno
        simpa [hown, hji, Ne.symm hji] using hno.not.mp (by simp)
    · by_cases hji : j = i
      · subst hji
        have hno := hi.agents j k'
        rw [hold] at hno
        simpa [hag k' hkk, Ne.symm hkk] using hno.not.mpr (by simp)
      · rw [hag k' hkk, Function.update_of_ne hji]
        exact hi.agents j k'
  · intro j hj
    rw [ht]
    exact worker_update hi.worker h hl.changes j (hmu.symm.trans hj)

theorem Owners.unlock (hi : Owners s) (hn : Named t) (h : s.tasks i = some task)
    (ht : t.tasks = Function.update s.tasks i (some task')) (hmu : t.mutex = s.mutex)
    (hl : Unlocks task k task') (hfree : (t.agents k).mutex = none)
    (hag : ∀ k', k' ≠ k → (t.agents k').mutex = (s.agents k').mutex) : Owners t := by
  obtain ⟨hsome, hnone, hsound⟩ := hl.agentLock (hi.sound i task h)
  have hold : held Task.agentLock s.tasks i = some k := (held_of_eq h).trans hsome
  have hown : (s.agents k).mutex = some i := (hi.agents i k).mpr hold
  refine ⟨hn, ?_, ?_, ?_⟩
  · rw [ht]
    exact forall_update hsound hi.sound
  · intro j k'
    rw [ht, held_update, hnone]
    by_cases hji : j = i
    · subst hji
      have hno : (t.agents k').mutex ≠ some j := by
        by_cases hkk : k' = k
        · simp [hkk, hfree]
        · rw [hag k' hkk]
          intro hj
          exact hkk (Option.some.inj ((hi.agents j k').mp hj |>.symm.trans hold))
      simpa using hno
    · rw [Function.update_of_ne hji, ← hi.agents j k']
      by_cases hkk : k' = k
      · subst hkk
        simp [hfree, hown, Ne.symm hji]
      · rw [hag k' hkk]
  · intro j hj
    rw [ht]
    exact worker_update hi.worker h hl.changes j (hmu.symm.trans hj)

theorem publish_mutex (s : St) (k c k' : ℕ) :
    ((s.publish k c).agents k').mutex = (s.agents k').mutex := by
  by_cases hk : k' = k
  · subst hk
    rw [publish_self]
  · rw [publish_of_ne s c hk]

theorem closeAgent_mutex (s : St) (k k' : ℕ) :
    ((s.closeAgent k).agents k').mutex = (s.agents k').mutex := by
  simp only [St.closeAgent, St.setAgent, shut_agents]
  by_cases hk : k' = k
  · subst hk
    simp
  · rw [Function.update_of_ne hk]

theorem shut_mutex (s : St) (old : Option ℕ) : (s.shut old).mutex = s.mutex := by
  cases old <;> rfl

theorem entry_retains (cfg : Cfg) (op : Op) :
    (entry cfg op).Sound ∧ (entry cfg op).agentLock = none := by
  have key : ∀ {todo : List (ℕ × OutPack)} {pc : Pc}, (Task.call op pc).Plain →
      (writes todo (.call op pc)).Sound ∧ (writes todo (.call op pc)).agentLock = none :=
    fun h => ⟨sound_writes h, agentLock_writes h⟩
  cases op with
  | reset => exact key rfl
  | echo data => exact key rfl
  | setId id => exact key rfl
  | progress inpack updates => exact key rfl
  | _ => exact ⟨trivial, rfl⟩

theorem retains_call {op : Op} {pc pc' : Pc}
    (h : (Task.call op pc').agentLock = (Task.call op pc).agentLock) :
    Retains (.call op pc) (.call op pc') := ⟨fun _ => trivial, fun _ => h⟩

theorem Owners.setFuncs (hi : Owners s) {op : Op} {pc : Pc} {funcs : JobFuncs}
    (h : s.tasks i = some (.call op pc)) (hpc : pc = .lock ∨ pc = .clear) :
    Owners { s.setTask i (.call op (.returned none)) with funcs := funcs } := by
  have hn : Named { s.setTask i (.call op (.returned none)) with funcs := funcs } :=
    hi.named.update h rfl rfl
  rcases hpc with rfl | rfl <;>
    exact hi.update hn h rfl rfl (fun _ => rfl) (retains_call rfl) rfl

theorem Owners.mutex (hi : Owners s) (hn : Named t) (h : s.tasks i = some task)
    (ht : t.tasks = Function.update s.tasks i (some task'))
    (hag : ∀ k, (t.agents k).mutex = (s.agents k).mutex) (hk : Retains task task')
    (hmu : ∀ j, t.mutex = some j → j = i ∧ task'.changes = true) : Owners t where
  named := hn
  sound := by
    rw [ht]
    exact forall_update (hk.sound (hi.sound i task h)) hi.sound
  agents := by
    intro j k
    rw [hag, ht, held_update_same h (hk.lock (hi.sound i task h))]
    exact hi.agents j k
  worker := by
    intro j hj
    obtain ⟨rfl, hc⟩ := hmu j hj
    exact ⟨task', by rw [ht, Function.update_self], hc⟩

theorem Owners.handoff (hi : Owners s) {j : ℕ} {op : Op} {inpack job : InPack} {drains : Bool}
    {err : Option Err} {v : Option PanicValue}
    (h : s.tasks i = some (.call op (.limit inpack drains)))
    (h' : s.tasks j = some (.exec job (.deferred err v))) :
    Owners ((s.setTask i (afterLimit op inpack drains)).setTask j
      (.exec job (.report (Exec.recovered err v)))) := by
  have hne : j ≠ i := by
    rintro rfl
    simp [h] at h'
  have hmid : Owners (s.setTask i (afterLimit op inpack drains)) :=
    hi.update (hi.named.update h rfl rfl) h rfl rfl (fun _ => rfl)
      (.writes rfl (plain_back _ _)) (changes_afterLimit _ _ _)
  have hj : (s.setTask i (afterLimit op inpack drains)).tasks j =
      some (.exec job (.deferred err v)) := (Function.update_of_ne hne ..).trans h'
  exact hmid.update (hmid.named.update hj rfl rfl) hj rfl rfl (fun _ => rfl)
    ⟨fun _ => trivial, fun _ => rfl⟩ rfl

theorem Owners.move (hi : Owners s) (hm : Move cfg s act t) : Owners t := by
  have hn := hi.named.move hm
  cases hm with
  | call op hc =>
    exact hi.spawned hn rfl rfl rfl (entry_retains cfg op).1 (entry_retains cfg op).2
  | pc h hl => exact hi.update hn h rfl rfl (fun _ => rfl) hl.retains hl.changes
  | lock h hl hfree =>
    exact hi.lock hn h rfl rfl hl hfree (by simp [St.setTask, St.lockAgent, St.setAgent])
      (fun k' hk => by simp [St.setTask, St.lockAgent, St.setAgent, hk])
  | unlock h hl =>
    exact hi.unlock hn h rfl rfl hl (by simp [St.setTask, St.unlockAgent, St.setAgent])
      (fun k' hk => by simp [St.setTask, St.unlockAgent, St.setAgent, hk])
  | dial h hd => exact hi.update hn h rfl rfl (fun _ => rfl) hd.retains hd.changes
  | publish h hp => exact hi.update hn h rfl rfl (publish_mutex s _ _) hp.retains hp.changes
  | @spawn i task task' new h hs =>
    obtain ⟨hkeep, hsound, hlock⟩ := hs.retains
    have hmid : Owners (s.setTask i task') :=
      hi.update (hi.named.update h rfl rfl) h rfl rfl (fun _ => rfl) hkeep hs.changes.1
    exact hmid.spawned hn rfl rfl rfl hsound hlock
  | shut h hs =>
    exact hi.update hn h (shut_setTask s _ _ _) (shut_mutex s _)
      (fun k => by rw [St.setTask, shut_agents]) hs.retains hs.changes
  | report h hr => exact hi.update hn h rfl rfl (fun _ => rfl) hr.retains hr.changes
  | @setReady i op h hmu =>
    refine hi.update hn h rfl rfl (fun _ => rfl) (retains_call ?_) (changes_afterReady op)
    cases op <;> rfl
  | setRunning h hmu =>
    exact hi.update hn h rfl rfl (fun _ => rfl) (.writes rfl rfl) (changes_writes _ _)
  | close h hmu hc => exact hi.update hn h rfl rfl (fun _ => rfl) (retains_call rfl) rfl
  | closeAgain h hmu hc => exact hi.update hn h rfl rfl (fun _ => rfl) (retains_call rfl) rfl
  | closeQuit h => exact hi.update hn h rfl rfl (fun _ => rfl) (retains_call rfl) rfl
  | @closeAgent i k op h hk =>
    exact hi.update hn h (closeAgent_setTask s k i _) (shut_mutex s _) (closeAgent_mutex s k)
      (retains_call rfl) rfl
  | changeFuncs h hmu hr heq =>
    refine hi.mutex hn h rfl (fun _ => rfl) (.writes rfl rfl) ?_
    rintro j hj
    exact ⟨(Option.some.inj hj).symm, changes_writes _ _⟩
  | setFuncs h hpc hmu heq => exact hi.setFuncs h hpc
  | unlockWorker h =>
    exact hi.mutex hn h rfl (fun _ => rfl) (retains_call rfl) (fun j hj => by cases hj)
  | sent h hopen => exact hi.update hn h rfl rfl (fun _ => rfl) ⟨id, fun _ => rfl⟩ rfl
  | recv h hpc hin ha =>
    subst hpc
    refine hi.update hn h rfl rfl (fun _ => rfl) (retains_call ?_) (changes_back _ _).symm
    split_ifs <;> rfl
  | token h hl hcap =>
    exact hi.update hn h rfl rfl (fun _ => rfl) (.writes rfl (plain_back _ _))
      (changes_afterLimit _ _ _)
  | handoff h h' hl => exact hi.handoff h h'
  | serve hc => exact ⟨hn, hi.sound, hi.agents, hi.worker⟩
  | panic h hrw => exact ⟨hn, hi.sound, hi.agents, hi.worker⟩
  | read h hw =>
    exact hi.update hn h rfl rfl (fun _ => rfl) ⟨fun _ => trivial, fun _ => rfl⟩ rfl
  | send h hfull =>
    exact hi.update hn h rfl rfl (fun _ => rfl) ⟨fun _ => trivial, fun _ => rfl⟩ rfl
  | release h hl hpos =>
    exact hi.update hn h rfl rfl (fun _ => rfl) ⟨fun _ => trivial, fun _ => rfl⟩ rfl

def Stage.left : Stage → ℕ
  | .lock => 0
  | .getRW => 3
  | .flush _ => 2
  | .unlock => 1

def Task.lockRank : Task → ℕ
  | .write todo .lock next => if next.changes then 4 * todo.length + 1 else 0
  | .write todo stage next =>
    stage.left + if next.changes then 4 * (todo.length - 1) + 1 else 0
  | .call _ (.getConn _ _) => 5
  | .call _ (.dialConn _ _) => 4
  | .call _ (.setConn _ _ _) => 3
  | .call _ (.goWork _ _ _ _) => 2
  | .call _ (.unlock _ _ _) => 1
  | .call _ .unlockWorker => 1
  | _ => 0

theorem Task.Plain.lockRank (h : next.Plain) :
    next.lockRank = if next.changes then 1 else 0 := by
  cases next with
  | write todo stage next => cases h
  | call op pc => cases pc <;> first | rfl | cases h
  | loop a epoch c pc => rfl
  | exec inpack pc => rfl

theorem lockRank_writes (h : next.Plain) :
    (writes todo next).lockRank = if next.changes then 4 * todo.length + 1 else 0 := by
  cases todo with
  | nil => exact h.lockRank
  | cons w rest => rfl

def St.lockRank (s : St) : ℕ := if s.panicked then 0 else s.total Task.lockRank + 1

/-- The flush of a packet fails exactly on a closed connection. -/
def fairFlush (s : St) : Act → Bool
  | .flush i ok =>
    match s.tasks i with
    | some (.write _ (.flush c) _) => ok != (s.conns c).closed
    | _ => true
  | _ => true

def Task.holder (task : Task) : Bool := task.agentLock.isSome || task.changes

def holders (s : St) (a : Act) : Bool :=
  a.runner.any (fun i => (s.tasks i).any Task.holder) && fairFlush s a

def Released (s : St) : Prop :=
  s.panicked = true ∨ (s.mutex = none ∧ ∀ k, (s.agents k).mutex = none)

theorem lockRank_lt_of_total (hp : s.panicked = false)
    (h : t.total Task.lockRank < s.total Task.lockRank) : t.lockRank < s.lockRank := by
  simp only [St.lockRank, hp, Bool.false_eq_true, if_false]
  split_ifs <;> omega

theorem lockRank_lt (hn : Named s) (hp : s.panicked = false) (h : s.tasks i = some task)
    (ht : t.tasks = Function.update s.tasks i (some task')) (hnt : t.ntask = s.ntask)
    (hlt : task'.lockRank < task.lockRank) : t.lockRank < s.lockRank := by
  have htotal := total_update (w := Task.lockRank) hn h ht hnt
  exact lockRank_lt_of_total hp (by omega)

theorem holders_runner (h : s.tasks i = some task) (hr : act.runner = some i)
    (hh : task.holder = true) (ho : fairFlush s act = true) : holders s act = true := by
  simp [holders, hr, h, hh, ho]

theorem Owners.agent_step (hi : Owners s) (hp : s.panicked = false) (h : s.tasks i = some task)
    (hl : task.agentLock = some k) :
    ∃ a t, holders s a = true ∧ step cfg s a = some t ∧ t.lockRank < s.lockRank := by
  have hsound := hi.sound i task h
  have hh : task.holder = true := by simp [Task.holder, hl]
  have htask : ∀ {t : St}, taskStep cfg s i task = some t → step cfg s (.task i) = some t := by
    intro t ht
    simp [step, hp, h, ht]
  have hrun : holders s (.task i) = true := holders_runner h rfl hh rfl
  cases task with
  | loop a epoch c pc => cases hl
  | exec inpack pc => cases hl
  | call op pc =>
    cases pc with
    | getConn k funcs =>
      refine ⟨.task i, _, hrun, htask rfl, lockRank_lt hi.named hp h rfl rfl ?_⟩
      split_ifs <;> simp [Task.lockRank]
    | dialConn k funcs =>
      refine ⟨.dial i none, (s.dialled k).setTask i (.call op (.setConn k s.nconn funcs)),
        holders_runner h rfl hh rfl, by simp [step, hp, h, dialStep], ?_⟩
      exact lockRank_lt hi.named hp h rfl rfl (by simp [Task.lockRank])
    | setConn k c funcs =>
      exact ⟨.task i, _, hrun, htask rfl, lockRank_lt hi.named hp h rfl rfl
        (by simp [Task.lockRank])⟩
    | goWork k epoch c funcs =>
      refine ⟨.task i, (s.setTask i (.call op (.unlock k funcs none))).spawn
        (.loop k epoch c .read), hrun, htask rfl, lockRank_lt_of_total hp ?_⟩
      have htotal := total_spawn (w := Task.lockRank)
        (t := (s.setTask i (.call op (.unlock k funcs none))).spawn (.loop k epoch c .read))
        hi.named h rfl rfl
      simp only [Task.lockRank] at htotal
      omega
    | unlock k funcs err =>
      cases err <;> exact ⟨.task i, _, hrun, htask rfl, lockRank_lt hi.named hp h rfl rfl
        (by simp [Task.lockRank])⟩
    | _ => cases hl
  | write todo stage next =>
    obtain ⟨hne, hplain⟩ := hsound
    obtain ⟨⟨k', p⟩, rest, rfl⟩ := List.exists_cons_of_ne_nil hne
    cases stage with
    | lock => cases hl
    | getRW =>
      cases hrw : (s.agents k').rw with
      | none =>
        refine ⟨.task i, { s with panicked := true }, hrun,
          htask (by simp [taskStep, writeStep, hrw]), ?_⟩
        simp [St.lockRank, hp]
      | some c =>
        refine ⟨.task i, s.setTask i (.write ((k', p) :: rest) (.flush c) next), hrun,
          htask (by simp [taskStep, writeStep, hrw]), ?_⟩
        exact lockRank_lt hi.named hp h rfl rfl (by simp [Task.lockRank, Stage.left])
    | flush c =>
      have hlt : (Task.write ((k', p) :: rest) .unlock next).lockRank <
          (Task.write ((k', p) :: rest) (.flush c) next).lockRank := by
        simp [Task.lockRank, Stage.left]
      cases hc : (s.conns c).closed with
      | true =>
        refine ⟨.flush i false, s.setTask i (.write ((k', p) :: rest) .unlock next),
          holders_runner h rfl hh (by simp [fairFlush, h, hc]),
          by simp [step, hp, h, flushStep], ?_⟩
        exact lockRank_lt hi.named hp h rfl rfl hlt
      | false =>
        refine ⟨.flush i true,
          (s.setConnAt c { s.conns c with sent := (s.conns c).sent ++ [p] }).setTask i
            (.write ((k', p) :: rest) .unlock next),
          holders_runner h rfl hh (by simp [fairFlush, h, hc]),
          by simp [step, hp, h, flushStep, hc], ?_⟩
        exact lockRank_lt hi.named hp h rfl rfl hlt
    | unlock =>
      refine ⟨.task i, _, hrun, htask rfl, lockRank_lt hi.named hp h rfl rfl ?_⟩
      rw [lockRank_writes hplain]
      simp only [Task.lockRank, Stage.left, List.length_cons]
      split_ifs <;> omega

theorem Owners.worker_step (hi : Owners s) (hp : s.panicked = false)
    (hfree : ∀ k, (s.agents k).mutex = none) (h : s.tasks i = some task)
    (hc : task.changes = true) :
    ∃ a t, holders s a = true ∧ step cfg s a = some t ∧ t.lockRank < s.lockRank := by
  have hsound := hi.sound i task h
  have hrun : holders s (.task i) = true :=
    holders_runner h rfl (by simp [Task.holder, hc]) rfl
  have hnone : task.agentLock = none := by
    cases hl : task.agentLock with
    | none => rfl
    | some k =>
      have hmu := (hi.agents i k).mpr ((held_of_eq h).trans hl)
      simp [hfree k] at hmu
  cases task with
  | loop a epoch c pc => cases hc
  | exec inpack pc => cases hc
  | call op pc =>
    cases pc with
    | unlockWorker =>
      refine ⟨.task i, { s.setTask i (.call op (.returned none)) with mutex := none }, hrun,
        by simp [step, hp, h, taskStep, callStep], ?_⟩
      exact lockRank_lt hi.named hp h rfl rfl (by simp [Task.lockRank])
    | _ => cases hc
  | write todo stage next =>
    obtain ⟨hne, -⟩ := hsound
    obtain ⟨⟨k, p⟩, rest, rfl⟩ := List.exists_cons_of_ne_nil hne
    cases stage with
    | lock =>
      refine ⟨.task i, (s.lockAgent k i).setTask i (.write ((k, p) :: rest) .getRW next), hrun,
        by simp [step, hp, h, taskStep, writeStep, hfree k], ?_⟩
      refine lockRank_lt hi.named hp h rfl rfl ?_
      have hnext : next.changes = true := hc
      simp only [Task.lockRank, Stage.left, hnext, List.length_cons, if_true]
      omega
    | _ => cases hnone

theorem Owners.exists_step (hi : Owners s) (hr : ¬ Released s) :
    ∃ a t, holders s a = true ∧ step cfg s a = some t ∧ Owners t ∧
      t.lockRank < s.lockRank := by
  have hp : s.panicked = false := by
    by_contra hne
    exact hr (Or.inl (by simpa using hne))
  have finish : (∃ a t, holders s a = true ∧ step cfg s a = some t ∧ t.lockRank < s.lockRank) →
      ∃ a t, holders s a = true ∧ step cfg s a = some t ∧ Owners t ∧
        t.lockRank < s.lockRank := by
    rintro ⟨a, t, ha, hstep, hlt⟩
    exact ⟨a, t, ha, hstep, hi.move (step_move hstep), hlt⟩
  by_cases hag : ∀ k, (s.agents k).mutex = none
  · obtain ⟨i, hmu⟩ : ∃ i, s.mutex = some i := by
      apply Option.ne_none_iff_exists'.mp
      intro hmu
      exact hr (Or.inr ⟨hmu, hag⟩)
    obtain ⟨task, h, hc⟩ := hi.worker i hmu
    exact finish (hi.worker_step hp hag h hc)
  · obtain ⟨k, hk⟩ := not_forall.mp hag
    obtain ⟨i, hmu⟩ := Option.ne_none_iff_exists'.mp hk
    obtain ⟨task, h, hl⟩ := held_eq_some ((hi.agents i k).mp hmu)
    exact finish (hi.agent_step hp h hl)

/-- The locks of a worker cannot deadlock: from every reachable state the tasks that hold a
lock can go on by themselves, without a packet from any server, until no lock is held, unless a
write finds no connection. -/
theorem locks_released (cfg : Cfg) (s : St) (hs : Reachable (step cfg) always {} s) :
    ∃ acts t, run (step cfg) holders s acts = some t ∧ Released t := by
  have hi : Owners s := hs.invariant owners_start (fun _ _ _ hi _ h => hi.move (step_move h))
  obtain ⟨acts, t, hrun, hrel, -⟩ :=
    Ranking.exists_run St.lockRank (fun s hi hr => Owners.exists_step hi hr) hi
  exact ⟨acts, t, hrun, hrel⟩

/-- `AddFunc` has `worker.Mutex` and waits for the agent's lock, which an `Echo` has. -/
def lockedActs : List Act :=
  brokenActs (.read .eof) ++ [.call (.echo [1]), .task 3,
    .call (.addFunc [103] ⟨fun _ => .returned [] none, 0⟩), .task 4]

theorem locks_released_in_addFunc :
    ∃ s, Reachable (step oneAgent) always {} s ∧ s.mutex = some 4 ∧
      (s.agents 0).mutex = some 3 ∧
      ∃ acts t, run (step oneAgent) holders s acts = some t ∧ Released t :=
  ⟨_, ⟨lockedActs, rfl⟩, rfl, rfl, locks_released oneAgent _ ⟨lockedActs, rfl⟩⟩

def Task.writing : Task → Option ℕ
  | .write _ (.flush c) _ => some c
  | _ => none

theorem Task.Sound.writing (hs : task.Sound) (h : task.writing = some c) :
    ∃ k p, task.agentLock = some k ∧ task.Pending k (some c) p := by
  cases task with
  | write todo stage next =>
    cases stage with
    | flush c' =>
      cases h
      obtain ⟨⟨k, p⟩, rest, rfl⟩ := List.exists_cons_of_ne_nil hs.1
      refine ⟨k, p, rfl, ?_⟩
      simp [Task.Pending, Task.flushing, Stage.flushing]
    | _ => cases h
  | _ => cases h

theorem one_writer (cfg : Cfg) (s : St) (hs : Reachable (step cfg) always {} s) (i j c : ℕ)
    (task task' : Task) (h : s.tasks i = some task) (h' : s.tasks j = some task')
    (hw : task.writing = some c) (hw' : task'.writing = some c) :
    i = j ∧ (s.conns c).published = true := by
  obtain ⟨hi, -, hsp⟩ : Owners s ∧ Conns s ∧ Spoken s :=
    hs.invariant (I := fun u => Owners u ∧ Conns u ∧ Spoken u)
      ⟨owners_start, conns_start, spoken_start⟩
      (fun _ _ _ hi _ hstep => ⟨hi.1.move (step_move hstep), hi.2.1.move (step_move hstep),
        hi.2.2.move hi.2.1 (step_move hstep)⟩)
  obtain ⟨k, p, hl, hpend⟩ := (hi.sound i task h).writing hw
  obtain ⟨k', p', hl', hpend'⟩ := (hi.sound j task' h').writing hw'
  obtain ⟨hpub, hk⟩ := hsp.bound i task k c p h hpend
  obtain ⟨-, hk'⟩ := hsp.bound j task' k' c p' h' hpend'
  have hmine : (s.agents k).mutex = some i := (hi.agents i k).mpr ((held_of_eq h).trans hl)
  have hother : (s.agents k').mutex = some j := (hi.agents j k').mpr ((held_of_eq h').trans hl')
  rw [← hk', hk] at hother
  exact ⟨Option.some.inj (hmine.symm.trans hother), hpub⟩

/-- A function has run into its timeout and still sends its updates, while the failure of its job
waits for the agent's lock. -/
def outlivedActs : List Act :=
  .call (.addFunc [102] ⟨fun _ => .returned [] none, 5⟩) ::
    (brokenActs (.read .eof)).tail.dropLast ++
    [.serve 0 (Wire.frame res dtJobAssign [72, 0, 102, 0]), .read 2 none, .task 2, .send 2,
      .recv 1, .task 1, .task 3,
      .call (.progress { dataType := dtJobAssign, handle := [72], fn := [102], a := some 0 }
        [.data [1], .status 1 2]),
      .job 3 true, .task 3, .task 4, .task 4]

theorem one_writer_outlived :
    ∃ s p next, Reachable (step oneAgent) always {} s ∧ (s.agents 0).mutex = some 4 ∧
      s.tasks 3 = some (.write [(0, p)] .lock next) ∧ p.dataType = dtWorkFail ∧
      (s.tasks 4).bind Task.writing = some 0 ∧ (s.conns 0).published = true := by
  refine ⟨_, _, _, ⟨outlivedActs, rfl⟩, rfl, rfl, rfl, rfl, ?_⟩
  exact (one_writer oneAgent _ ⟨outlivedActs, rfl⟩ 4 4 0 _ _ rfl rfl rfl rfl).2

end Gearman.Worker.Machine
