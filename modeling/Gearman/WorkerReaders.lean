import Gearman.Custody
import Gearman.WorkerReaction

/-!
# One reader per connection

Whoever publishes a connection becomes its reader or starts one: `Connect` and
`reconnect` start a loop for what they have published, and a loop goes on with what it has
published itself. So a connection passes from one goroutine to another at most once, when
its loop starts, and every publish has an epoch of its own.
-/

namespace Gearman.Worker.Machine
open Transition Custody

/-- A published connection in the hands of a loop that reads it, or of the call that is
going to start that loop. -/
structure Holding where
  agent : ℕ
  epoch : ℕ
  conn : ℕ
  reads : Bool

def Task.holding : Task → Option Holding
  | .write _ _ next => next.holding
  | .call _ (.goWork k epoch c _) => some ⟨k, epoch, c, false⟩
  | .call _ (.funcOutpacks a epoch c) => some ⟨a, epoch, c, false⟩
  | .call _ (.resume a epoch c) => some ⟨a, epoch, c, false⟩
  | .loop a epoch c _ => some ⟨a, epoch, c, true⟩
  | _ => none

def St.holding (s : St) : ℕ → Option Holding := held Task.holding s.tasks

/-- The loop and the connection it gets with the step: the one it is started with, or one
that it publishes itself. -/
def gains (s : St) : Act → Option (ℕ × ℕ)
  | .task i =>
    match s.tasks i with
    | some (.call _ (.goWork _ _ c _)) => some (s.ntask, c)
    | some (.call _ (.resume _ _ c)) => some (s.ntask, c)
    | some (.loop _ _ _ (.setConn _ c)) => some (i, c)
    | _ => none
  | _ => none

def reading (s : St) : Act → Option (ℕ × ℕ)
  | .read i _ =>
    match s.tasks i with
    | some (.loop _ _ c .read) => some (i, c)
    | _ => none
  | _ => none

structure Ledger where
  gained : List (ℕ × ℕ) := []
  reads : List (ℕ × ℕ) := []

def Ledger.note (h : Ledger) (s : St) (act : Act) (_ : St) : Ledger where
  gained := h.gained ++ (gains s act).toList
  reads := h.reads ++ (reading s act).toList

def Task.gains : Task → Bool
  | .call _ (.goWork _ _ _ _) => true
  | .call _ (.resume _ _ _) => true
  | .loop _ _ _ (.setConn _ _) => true
  | _ => false

variable {cfg : Cfg} {s t : St} {act : Act} {i k : ℕ} {task task' new : Task}

theorem attends_eq (task : Task) :
    task.attends = task.holding.map (fun p => (p.agent, p.epoch, p.conn)) := by
  induction task with
  | write todo stage next ih => exact ih
  | call op pc => cases pc <;> rfl
  | loop a epoch c pc => rfl
  | exec inpack pc => rfl

theorem gains_eq_none (h : s.tasks i = some task) (ha : act.runner = some i)
    (hg : task.gains = false) : Machine.gains s act = none := by
  cases act with
  | task j =>
    cases ha
    simp only [Machine.gains, h]
    split <;> first | rfl | (simp_all [Task.gains])
  | _ => rfl

theorem holding_writes (todo : List (ℕ × OutPack)) (next : Task) :
    (writes todo next).holding = next.holding := by
  cases todo <;> rfl

theorem holding_back (op : Op) (drains : Bool) : (back op drains).holding = none := by
  cases drains <;> rfl

theorem holding_answer (s : St) (inpack : InPack) (r : Result) :
    (answer s inpack r).holding = none := by
  unfold answer
  split_ifs
  · exact holding_writes _ _
  · rfl

theorem holding_entry (cfg : Cfg) (op : Op) : (entry cfg op).holding = none := by
  cases op <;> first | rfl | exact holding_writes _ _

structure Plainly (task task' : Task) : Prop where
  holding : task'.holding = task.holding
  gains : task.gains = false

theorem Local.plainly (hl : Local cfg s task task') : Plainly task task' := by
  cases hl with
  | ready => split_ifs <;> exact ⟨rfl, rfl⟩
  | snapshot hmu => split_ifs <;> exact ⟨rfl, rfl⟩
  | getConn => split_ifs <;> exact ⟨rfl, rfl⟩
  | isReady hmu => split_ifs <;> exact ⟨rfl, rfl⟩
  | announce hk ho => exact ⟨holding_writes _ _, rfl⟩
  | noJob ht => exact ⟨(holding_writes _ _).trans (holding_back _ _), rfl⟩
  | noop ht => exact ⟨(holding_writes _ _).trans (holding_back _ _), rfl⟩
  | unlimited hl => exact ⟨(holding_writes _ _).trans (holding_back _ _), rfl⟩
  | reannounce hmu ho => exact ⟨holding_writes _ _, rfl⟩
  | answer hmu => exact ⟨holding_answer _ _ _, rfl⟩
  | _ => exact ⟨rfl, rfl⟩

theorem Locks.plainly (hl : Locks cfg task k task') : Plainly task task' := by
  cases hl <;> exact ⟨rfl, rfl⟩

theorem Unlocks.plainly (hl : Unlocks task k task') : Plainly task task' := by
  cases hl with
  | written => exact ⟨holding_writes _ _, rfl⟩
  | _ => exact ⟨rfl, rfl⟩

theorem Dials.plainly {c : ℕ} (hd : Dials c task k task') : Plainly task task' := by
  cases hd <;> exact ⟨rfl, rfl⟩

theorem Shuts.plainly {old : Option ℕ} (hs : Shuts task old task') : Plainly task task' := by
  cases hs <;> exact ⟨rfl, rfl⟩

theorem Reports.plainly {rs : List Report} (hr : Reports cfg s task rs task') :
    Plainly task task' := by
  cases hr with
  | serverErr ht => exact ⟨holding_back _ _, rfl⟩
  | custome ht hj => exact ⟨holding_back _ _, rfl⟩
  | _ => exact ⟨rfl, rfl⟩

/-- No agent's connection and no socket has been closed between `s` and `t`. -/
structure Unshut (s t : St) : Prop where
  conn : ∀ k, (t.agents k).conn = (s.agents k).conn
  closed : ∀ c, (t.conns c).closed = (s.conns c).closed

inductive Handles (s : St) (act : Act) (t : St) : Prop
  | still (hh : t.holding = s.holding) (hk : Keeps s t) (hu : Unshut s t)
      (hg : gains s act = none)
  | shut {i : ℕ} {old : Option ℕ} {task task' : Task} (h : s.tasks i = some task)
      (hs : Shuts task old task') (ht : t = (s.shut old).setTask i task') (ha : act = .task i)
      (hh : t.holding = s.holding) (hk : Keeps s t) (hg : gains s act = none)
  | closeAgent {i k : ℕ} {op : Op} (h : s.tasks i = some (.call op (.closeAgent k)))
      (ht : t = (s.closeAgent k).setTask i (.call op (.closeAgent (k + 1)))) (ha : act = .task i)
      (hh : t.holding = s.holding) (hk : Keeps s t) (hg : gains s act = none)
  | dial {i k : ℕ} {task task' : Task} (h : s.tasks i = some task)
      (hd : Dials s.nconn task k task') (ht : t = (s.dialled k).setTask i task')
      (hh : t.holding = s.holding) (hg : gains s act = none)
  | publish {i k c : ℕ} {task task' : Task} (h : s.tasks i = some task)
      (hp : Publishes (s.nextEpoch k) task k c task') (ht : t = (s.publish k c).setTask i task')
      (ha : act = .task i)
  | start {i k epoch c : ℕ} {task task' : Task} (h : s.tasks i = some task)
      (hs : Spawns task task' (.loop k epoch c .read))
      (ht : t = (s.setTask i task').spawn (.loop k epoch c .read)) (ha : act = .task i)

theorem Unshut.of_eq (ha : t.agents = s.agents) (hc : t.conns = s.conns) : Unshut s t :=
  ⟨fun k => by rw [ha], fun c => by rw [hc]⟩

theorem Unshut.setAgent {agent : Agent} (ha : t.agents = Function.update s.agents k agent)
    (hc : t.conns = s.conns) (hco : agent.conn = (s.agents k).conn) : Unshut s t := by
  refine ⟨?_, fun c => by rw [hc]⟩
  intro k'
  by_cases hk : k' = k
  · subst hk
    rw [ha, Function.update_self, hco]
  · rw [ha, Function.update_of_ne hk]

theorem Unshut.setConn {c : ℕ} {conn : Conn} (hc : t.conns = Function.update s.conns c conn)
    (ha : t.agents = s.agents) (hcl : conn.closed = (s.conns c).closed) : Unshut s t := by
  refine ⟨fun k => by rw [ha], ?_⟩
  intro c'
  by_cases hc' : c' = c
  · subst hc'
    rw [hc, Function.update_self, hcl]
  · rw [hc, Function.update_of_ne hc']

theorem Move.handles (hn : Named s) (hm : Move cfg s act t) : Handles s act t := by
  have plain : ∀ {i : ℕ} {task task' : Task}, s.tasks i = some task → act.runner = some i →
      t.tasks = Function.update s.tasks i (some task') → Plainly task task' →
      t.agents = s.agents → t.conns = s.conns → t.nconn = s.nconn →
      (s.closed = true → t.closed = true) → Handles s act t := by
    intro i task task' h hr ht hp ha hc hn hcl
    refine .still ?_ (.of_eq ha hc hn hcl) (.of_eq ha hc) (gains_eq_none h hr hp.gains)
    rw [St.holding, ht]
    exact held_update_same h hp.holding
  cases hm with
  | call op hc =>
    exact .still (held_update_new hn.new_none (holding_entry cfg op)) (.of_eq rfl rfl rfl id)
      (.of_eq rfl rfl) rfl
  | pc h hl ha => exact plain h ha rfl hl.plainly rfl rfl rfl id
  | lock h hl hfree =>
    exact .still (held_update_same h hl.plainly.holding)
      (.setAgent rfl rfl rfl rfl rfl rfl (Or.inl rfl)) (.setAgent rfl rfl rfl)
      (gains_eq_none h rfl hl.plainly.gains)
  | unlock h hl =>
    exact .still (held_update_same h hl.plainly.holding)
      (.setAgent rfl rfl rfl rfl rfl rfl (Or.inl rfl)) (.setAgent rfl rfl rfl)
      (gains_eq_none h rfl hl.plainly.gains)
  | dial h hd =>
    exact .dial h hd rfl (held_update_same h hd.plainly.holding)
      (gains_eq_none h rfl hd.plainly.gains)
  | publish h hp => exact .publish h hp rfl rfl
  | @spawn i task task' new h hs =>
    cases hs with
    | @job op inpack drains hj =>
      have hmid : (s.setTask i (.call op (.limit inpack drains))).holding = s.holding :=
        held_update_same h rfl
      have hnew : (s.setTask i (.call op (.limit inpack drains))).tasks s.ntask = none :=
        (Function.update_of_ne (Nat.ne_of_gt (hn _ _ h)) ..).trans hn.new_none
      exact .still ((held_update_new hnew rfl).trans hmid) (.of_eq rfl rfl rfl id)
        (.of_eq rfl rfl) (gains_eq_none h rfl rfl)
    | connect => exact .start h .connect rfl rfl
    | reconnect => exact .start h .reconnect rfl rfl
  | @shut i old task task' h hs =>
    have htasks := shut_setTask s old i task'
    refine .shut h hs rfl rfl ?_ ((keeps_shut s old).then_eq rfl rfl rfl rfl)
      (gains_eq_none h rfl hs.plainly.gains)
    rw [St.holding, htasks]
    exact held_update_same h hs.plainly.holding
  | report h hr ha => exact plain h ha rfl hr.plainly rfl rfl rfl id
  | @setReady i op h hmu =>
    exact plain h rfl rfl ⟨by cases op <;> rfl, rfl⟩ rfl rfl rfl id
  | setRunning h hmu => exact plain h rfl rfl ⟨holding_writes _ _, rfl⟩ rfl rfl rfl id
  | close h hmu hc => exact plain h rfl rfl ⟨rfl, rfl⟩ rfl rfl rfl (fun _ => rfl)
  | @closeAgent i k op h hk =>
    refine .closeAgent h rfl rfl ?_ ((keeps_closeAgent h rfl k).then_eq rfl rfl rfl rfl)
      (gains_eq_none h rfl rfl)
    rw [St.holding, closeAgent_setTask]
    exact held_update_same h rfl
  | changeFuncs h hmu hr heq => exact plain h rfl rfl ⟨holding_writes _ _, rfl⟩ rfl rfl rfl id
  | @setFuncs i op pc funcs h hpc hmu heq =>
    rcases hpc with rfl | rfl <;> exact plain h rfl rfl ⟨rfl, rfl⟩ rfl rfl rfl id
  | sent h hopen =>
    exact .still (held_update_same h rfl) (.setConn rfl rfl rfl rfl rfl rfl)
      (.setConn rfl rfl rfl) (gains_eq_none h rfl rfl)
  | read h hw =>
    exact .still (held_update_same h rfl) (.setConn rfl rfl rfl rfl rfl rfl)
      (.setConn rfl rfl rfl) (gains_eq_none h rfl rfl)
  | @recv act i op pc inpack rest drains h hpc hin ha =>
    subst hpc
    cases drains <;> exact plain h ha rfl ⟨rfl, rfl⟩ rfl rfl rfl id
  | token h hl hcap =>
    exact plain h rfl rfl ⟨(holding_writes _ _).trans (holding_back _ _), rfl⟩ rfl rfl rfl id
  | @handoff i j op inpack job drains err v h h' hl =>
    have hne : j ≠ i := by
      rintro rfl
      simp [h] at h'
    have hmid : (s.setTask i (afterLimit op inpack drains)).holding = s.holding :=
      held_update_same h ((holding_writes _ _).trans (holding_back _ _))
    have hjob : (s.setTask i (afterLimit op inpack drains)).tasks j = some _ :=
      (Function.update_of_ne hne ..).trans h'
    refine .still ?_ (.of_eq rfl rfl rfl id) (.of_eq rfl rfl) rfl
    rw [← hmid]
    exact held_update_same hjob rfl
  | serve hc =>
    exact .still rfl (.setConn rfl rfl rfl rfl rfl rfl) (.setConn rfl rfl rfl) rfl
  | panic h hrw =>
    exact .still rfl (.of_eq rfl rfl rfl id) (.of_eq rfl rfl) (gains_eq_none h rfl rfl)
  | closeAgain h hmu hc => exact plain h rfl rfl ⟨rfl, rfl⟩ rfl rfl rfl id
  | closeQuit h => exact plain h rfl rfl ⟨rfl, rfl⟩ rfl rfl rfl id
  | unlockWorker h => exact plain h rfl rfl ⟨rfl, rfl⟩ rfl rfl rfl id
  | send h hfull => exact plain h rfl rfl ⟨rfl, rfl⟩ rfl rfl rfl id
  | release h hl hpos => exact plain h rfl rfl ⟨rfl, rfl⟩ rfl rfl rfl id

structure Held (s : St) : Prop where
  conn : Exclusive Holding.conn s.holding
  epoch : Exclusive (fun p => (p.agent, p.epoch)) s.holding
  published : ∀ i p, s.holding i = some p →
    (s.conns p.conn).published = true ∧ (s.conns p.conn).agent = p.agent

/-- What the loops have got. A connection that waits for its loop to start has not been
given to any. -/
structure Owned (s : St) (gained : List (ℕ × ℕ)) : Prop where
  reader : ∀ i p, s.holding i = some p → p.reads = true → (i, p.conn) ∈ gained
  starter : ∀ i p, s.holding i = some p → p.reads = false → ∀ j, (j, p.conn) ∉ gained
  owner : ∀ i j c, (i, c) ∈ gained → (j, c) ∈ gained → i = j
  shown : ∀ i c, (i, c) ∈ gained → (s.conns c).published = true

variable {gained : List (ℕ × ℕ)}

theorem Conns.holding (hi : Conns s) {p : Holding} (h : s.holding i = some p) :
    p.epoch ≤ (s.agents p.agent).epoch ∧
      (p.epoch = (s.agents p.agent).epoch → (s.agents p.agent).rw = some p.conn) := by
  obtain ⟨task, htask, hp⟩ := held_eq_some h
  exact hi.current i task p.agent p.epoch p.conn htask (by rw [attends_eq, hp]; rfl)

theorem Held.same (hi : Held s) (hh : t.holding = s.holding) (hs : Shown s t) : Held t where
  conn := hh ▸ hi.conn
  epoch := hh ▸ hi.epoch
  published := by
    intro i p h
    obtain ⟨hpub, hagent⟩ := hi.published i p (hh ▸ h)
    exact ⟨(hs p.conn hpub).1, (hs p.conn hpub).2.trans hagent⟩

theorem Owned.same (hi : Owned s gained) (hh : t.holding = s.holding) (hs : Shown s t) :
    Owned t gained where
  reader := hh ▸ hi.reader
  starter := hh ▸ hi.starter
  owner := hi.owner
  shown := fun i c h => (hs c (hi.shown i c h)).1

theorem Publishes.holding {e c : ℕ} (h : s.tasks i = some task)
    (hp : Publishes e task k c task') : ∃ reads, task'.holding = some ⟨k, e, c, reads⟩ ∧
      gains s (.task i) = if reads then some (i, c) else none := by
  cases hp <;> exact ⟨_, rfl, by simp [gains, h]⟩

theorem holding_publish {p : Holding} (h : task'.holding = some p) (s : St) (k c i : ℕ) :
    ((s.publish k c).setTask i task').holding = Function.update s.holding i (some p) := by
  rw [← h]
  exact held_update Task.holding s.tasks i task'

theorem Held.publish (hi : Held s) (hc : Conns s) {c : ℕ} (h : s.tasks i = some task)
    (hp : Publishes (s.nextEpoch k) task k c task') :
    Held ((s.publish k c).setTask i task') := by
  -- The new connection has not been published, and the new epoch is above all others.
  obtain ⟨reads, hheld, -⟩ := hp.holding h
  obtain ⟨-, hagent, hunpub⟩ := hc.fresh i task k c h hp.dialled.1
  have hh := holding_publish hheld s k c i
  refine ⟨?_, ?_, ?_⟩
  · rw [hh]
    refine hi.conn.take ?_
    intro j q hq hkey
    have hpub := (hi.published j q hq).1
    rw [hkey] at hpub
    exact Bool.false_ne_true (hunpub.symm.trans hpub)
  · rw [hh]
    refine hi.epoch.take ?_
    intro j q hq hkey
    obtain ⟨hk, he⟩ := Prod.mk.inj hkey
    have hle := (hc.holding hq).1
    rw [hk] at hle
    exact absurd (he ▸ hle) (Nat.not_succ_le_self _)
  · intro j q hq
    rw [hh] at hq
    rcases update_eq_some hq with ⟨-, rfl⟩ | ⟨-, hq⟩
    · simp only [St.setTask, publish_agent, publish_published, if_true, hagent, and_self]
    · obtain ⟨hpub, ha⟩ := hi.published j q hq
      obtain ⟨hpub', ha'⟩ := shown_publish s k c i task' q.conn hpub
      exact ⟨hpub', ha'.trans ha⟩

theorem Owned.publish (hi : Owned s gained) (hh : Held s) (hc : Conns s) {c : ℕ}
    (h : s.tasks i = some task) (hp : Publishes (s.nextEpoch k) task k c task') :
    Owned ((s.publish k c).setTask i task') (gained ++ (gains s (.task i)).toList) := by
  obtain ⟨reads, hheld, hgain⟩ := hp.holding h
  obtain ⟨-, -, hunpub⟩ := hc.fresh i task k c h hp.dialled.1
  have hhold := holding_publish hheld s k c i
  have hnew : ∀ {c'}, (s.conns c').published = true → c' ≠ c := by
    rintro c' hc' rfl
    exact Bool.false_ne_true (hunpub.symm.trans hc')
  have hgained : ∀ {p}, p ∈ gained ++ (gains s (.task i)).toList →
      p ∈ gained ∨ p = (i, c) ∧ reads = true := by
    intro p hmem
    rw [hgain] at hmem
    cases reads <;> simpa using hmem
  refine ⟨?_, ?_, ?_, ?_⟩
  · intro j q hq hreads
    rw [hhold] at hq
    rcases update_eq_some hq with ⟨rfl, rfl⟩ | ⟨-, hq⟩
    · rw [hgain]
      simp only at hreads
      simp [hreads]
    · exact List.mem_append_left _ (hi.reader j q hq hreads)
  · intro j q hq hreads j' hmem
    rw [hhold] at hq
    rcases update_eq_some hq with ⟨-, rfl⟩ | ⟨-, hq⟩
    · rcases hgained hmem with hold | ⟨-, htrue⟩
      · exact hnew (hi.shown _ _ hold) rfl
      · exact Bool.false_ne_true (hreads.symm.trans htrue)
    · rcases hgained hmem with hold | ⟨heq, -⟩
      · exact hi.starter j q hq hreads j' hold
      · exact hnew (hh.published j q hq).1 (congrArg Prod.snd heq)
  · intro j j' c' hj hj'
    rcases hgained hj with hold | ⟨heq, -⟩ <;> rcases hgained hj' with hold' | ⟨heq', -⟩
    · exact hi.owner j j' c' hold hold'
    · exact absurd (congrArg Prod.snd heq') (hnew (hi.shown _ _ hold))
    · exact absurd (congrArg Prod.snd heq) (hnew (hi.shown _ _ hold'))
    · exact (congrArg Prod.fst heq).trans (congrArg Prod.fst heq').symm
  · intro j c' hj
    rcases hgained hj with hold | ⟨heq, -⟩
    · exact (shown_publish s k c i task' c' (hi.shown j c' hold)).1
    · cases heq
      simp only [St.setTask, publish_published, if_true]

theorem Spawns.holding {epoch c : ℕ} (h : s.tasks i = some task)
    (hs : Spawns task task' (.loop k epoch c .read)) :
    s.holding i = some ⟨k, epoch, c, false⟩ ∧ task'.holding = none ∧
      gains s (.task i) = some (s.ntask, c) := by
  cases hs with
  | connect => exact ⟨held_of_eq h, rfl, by simp [gains, h]⟩
  | reconnect => exact ⟨held_of_eq h, rfl, by simp [gains, h]⟩

theorem holding_start (h : s.tasks i = some task) {epoch c : ℕ}
    (hs : Spawns task task' (.loop k epoch c .read)) :
    ((s.setTask i task').spawn (.loop k epoch c .read)).holding =
      Function.update (Function.update s.holding i none) s.ntask (some ⟨k, epoch, c, true⟩) := by
  have hmid : (s.setTask i task').holding = Function.update s.holding i none := by
    rw [← (hs.holding h).2.1]
    exact held_update Task.holding s.tasks i task'
  rw [← hmid]
  exact held_update Task.holding (s.setTask i task').tasks s.ntask (.loop k epoch c .read)

theorem holding_of_start (h : s.tasks i = some task) {epoch c j : ℕ} {q : Holding}
    (hs : Spawns task task' (.loop k epoch c .read))
    (hq : ((s.setTask i task').spawn (.loop k epoch c .read)).holding j = some q) :
    j = s.ntask ∧ q = ⟨k, epoch, c, true⟩ ∨ j ≠ i ∧ s.holding j = some q := by
  rw [holding_start h hs] at hq
  exact (update_eq_some hq).imp id (fun hq => update_none_eq_some hq.2)

theorem Held.start (hi : Held s) (h : s.tasks i = some task) {epoch c : ℕ}
    (hs : Spawns task task' (.loop k epoch c .read)) :
    Held ((s.setTask i task').spawn (.loop k epoch c .read)) := by
  have hheld := (hs.holding h).1
  refine ⟨?_, ?_, ?_⟩
  · rw [holding_start h hs]
    exact hi.conn.hand (q := ⟨k, epoch, c, true⟩) hheld rfl s.ntask
  · rw [holding_start h hs]
    exact hi.epoch.hand (q := ⟨k, epoch, c, true⟩) hheld rfl s.ntask
  · intro j q hq
    rcases holding_of_start h hs hq with ⟨-, rfl⟩ | ⟨-, hq⟩
    · exact hi.published i ⟨k, epoch, c, false⟩ hheld
    · exact hi.published j q hq

theorem Owned.start (hi : Owned s gained) (hh : Held s) (h : s.tasks i = some task)
    {epoch c : ℕ} (hs : Spawns task task' (.loop k epoch c .read)) :
    Owned ((s.setTask i task').spawn (.loop k epoch c .read))
      (gained ++ (gains s (.task i)).toList) := by
  obtain ⟨hheld, -, hgain⟩ := hs.holding h
  have hnew : ∀ j, (j, c) ∉ gained := hi.starter i _ hheld rfl
  have hgained : ∀ {p}, p ∈ gained ++ (gains s (.task i)).toList →
      p ∈ gained ∨ p = (s.ntask, c) := by
    intro p hmem
    rw [hgain] at hmem
    simpa using hmem
  refine ⟨?_, ?_, ?_, ?_⟩
  · intro j q hq hreads
    rcases holding_of_start h hs hq with ⟨rfl, rfl⟩ | ⟨-, hq⟩
    · rw [hgain]
      simp
    · exact List.mem_append_left _ (hi.reader j q hq hreads)
  · intro j q hq hreads j' hmem
    rcases holding_of_start h hs hq with ⟨-, rfl⟩ | ⟨hne, hq⟩
    · cases hreads
    · rcases hgained hmem with hmem | heq
      · exact hi.starter j q hq hreads j' hmem
      · exact hne (hh.conn j i q _ hq hheld (congrArg Prod.snd heq))
  · intro j j' c' hj hj'
    rcases hgained hj with hj | heq <;> rcases hgained hj' with hj' | heq'
    · exact hi.owner j j' c' hj hj'
    · cases heq'
      exact absurd hj (hnew j)
    · cases heq
      exact absurd hj' (hnew j')
    · exact (congrArg Prod.fst heq).trans (congrArg Prod.fst heq').symm
  · intro j c' hj
    rcases hgained hj with hj | heq
    · exact hi.shown j c' hj
    · cases heq
      exact (hh.published i _ hheld).1

theorem Held.move (hi : Held s) (hn : Named s) (hc : Conns s) (hm : Move cfg s act t) :
    Held t := by
  cases hm.handles hn with
  | still hh hk hu hg => exact hi.same hh hk.shown
  | shut h hs ht ha hh hk hg => exact hi.same hh hk.shown
  | closeAgent h ht ha hh hk hg => exact hi.same hh hk.shown
  | dial h hd ht hh hg => exact hi.same hh (ht ▸ shown_dialled hc _ _ _)
  | publish h hp ht ha =>
    subst ht
    exact hi.publish hc h hp
  | start h hs ht ha =>
    subst ht
    exact hi.start h hs

theorem Owned.move (hi : Owned s gained) (hh : Held s) (hn : Named s) (hc : Conns s)
    (hm : Move cfg s act t) : Owned t (gained ++ (gains s act).toList) := by
  have same : gains s act = none → t.holding = s.holding → Shown s t →
      Owned t (gained ++ (gains s act).toList) := by
    intro hg hhold hs
    rw [hg, Option.toList_none, List.append_nil]
    exact hi.same hhold hs
  cases hm.handles hn with
  | still hhold hk hu hg => exact same hg hhold hk.shown
  | shut h hs ht ha hhold hk hg => exact same hg hhold hk.shown
  | closeAgent h ht ha hhold hk hg => exact same hg hhold hk.shown
  | dial h hd ht hhold hg => exact same hg hhold (ht ▸ shown_dialled hc _ _ _)
  | publish h hp ht ha =>
    subst ht ha
    exact hi.publish hh hc h hp
  | start h hs ht ha =>
    subst ht ha
    exact hi.start hh h hs

theorem held_start : Held {} where
  conn := by
    intro i j p q h
    cases h
  epoch := by
    intro i j p q h
    cases h
  published := by
    intro i p h
    cases h

theorem owned_start : Owned {} [] where
  reader := by
    intro i p h
    cases h
  starter := by
    intro i p h
    cases h
  owner := by
    intro i j c h
    cases h
  shown := by
    intro i c h
    cases h

theorem Owned.reading (hi : Owned s gained) {p : ℕ × ℕ} (h : reading s act = some p) :
    p ∈ gained := by
  cases act with
  | read i err =>
    simp only [Machine.reading] at h
    split at h
    · next a epoch c htask =>
      cases h
      exact hi.reader i ⟨a, epoch, c, true⟩ (held_of_eq htask) rfl
    · cases h
  | _ => cases h

structure Attended (x : St × Ledger) : Prop where
  named : Named x.1
  conns : Conns x.1
  held : Held x.1
  owned : Owned x.1 x.2.gained
  reads : ∀ p ∈ x.2.reads, p ∈ x.2.gained

theorem Attended.step {x y : St × Ledger} (hi : Attended x)
    (h : traced (step cfg) Ledger.note x act = some y) : Attended y := by
  obtain ⟨hs, hy⟩ := traced_eq_some.mp h
  have hm : Move cfg x.1 act y.1 := step_move hs
  refine ⟨hi.named.move hm, hi.conns.move hm, hi.held.move hi.named hi.conns hm, ?_, ?_⟩
  · rw [hy]
    exact hi.owned.move hi.held hi.named hi.conns hm
  · rw [hy]
    intro p hp
    rcases List.mem_append.mp hp with hp | hp
    · exact List.mem_append_left _ (hi.reads p hp)
    · exact List.mem_append_left _ (hi.owned.reading (Option.mem_toList.mp hp))

theorem attended_start : Attended ({}, {}) :=
  ⟨named_start, conns_start, held_start, owned_start, by simp⟩

theorem attended_reachable {allow : St × Ledger → Act → Bool} {x : St × Ledger}
    (h : Reachable (traced (step cfg) Ledger.note) allow ({}, {}) x) : Attended x :=
  h.invariant attended_start (fun _ _ _ hi _ hs => hi.step hs)

/-- A connection is read by one loop in its whole life, a loop of the current epoch is the
only one, and a loop reads what it was started with or has published itself. -/
theorem one_reader {x : St × Ledger}
    (h : Reachable (traced (step cfg) Ledger.note) always ({}, {}) x) :
    (∀ i j c, (i, c) ∈ x.2.reads → (j, c) ∈ x.2.reads → i = j) ∧
    (∀ i j a c c' pc pc', x.1.tasks i = some (.loop a (x.1.agents a).epoch c pc) →
      x.1.tasks j = some (.loop a (x.1.agents a).epoch c' pc') → i = j) ∧
    (∀ i c, (i, c) ∈ x.2.reads → (i, c) ∈ x.2.gained) := by
  have hi := attended_reachable h
  refine ⟨?_, ?_, fun i c hr => hi.reads (i, c) hr⟩
  · intro i j c hr hr'
    exact hi.owned.owner i j c (hi.reads _ hr) (hi.reads _ hr')
  · intro i j a c c' pc pc' hloop hloop'
    exact hi.held.epoch i j _ _ (held_of_eq hloop) (held_of_eq hloop') rfl

theorem one_reader_of_redial :
    ∃ x, run (traced (step oneAgent) Ledger.note) always ({}, {})
        (brokenActs (badMagic foreignBytes) ++ .task 2 :: redialActs ++
          [.read 2 (some (.read .eof))]) = some x ∧
      x.2.reads = [(2, 0), (2, 1)] ∧ x.2.gained = [(2, 0), (2, 1)] ∧
      ∀ j, (j, 1) ∈ x.2.reads → 2 = j := by
  obtain ⟨x, hx, hreads, hgained⟩ : ∃ x, run (traced (step oneAgent) Ledger.note) always ({}, {})
      (brokenActs (badMagic foreignBytes) ++ .task 2 :: redialActs ++
        [.read 2 (some (.read .eof))]) = some x ∧
      x.2.reads = [(2, 0), (2, 1)] ∧ x.2.gained = [(2, 0), (2, 1)] := ⟨_, rfl, rfl, rfl⟩
  refine ⟨x, hx, hreads, hgained, ?_⟩
  intro j hj
  exact (one_reader ⟨_, hx⟩).1 2 j 1 (by simp [hreads]) hj

end Gearman.Worker.Machine
