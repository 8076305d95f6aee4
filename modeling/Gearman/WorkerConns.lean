import Gearman.WorkerShutdown

/-!
# Who holds which connection

A connection is dialled by one goroutine, is published by it for one agent, and is read
by the loop that was started for it. A loop whose epoch is the agent's current one reads
the connection that the agent writes to.

The machine counts epochs in natural numbers, the source in a `uint64`. `wordStep` compares
them as the source does, and runs of fewer than `2 ^ 64` steps are the same for both.
-/

namespace Gearman.Worker.Machine
open Transition

/-- The agent and the connection the task has dialled for it and not published. -/
def Task.dialled : Task → Option (ℕ × ℕ)
  | .write _ _ next => next.dialled
  | .call _ (.setConn k c _) => some (k, c)
  | .call _ (.republish a c) => some (a, c)
  | .loop a _ _ (.setConn _ c) => some (a, c)
  | _ => none

/-- The agent, the epoch and the connection of the loop that the task is, or will start. -/
def Task.attends : Task → Option (ℕ × ℕ × ℕ)
  | .write _ _ next => next.attends
  | .call _ (.goWork k epoch c _) => some (k, epoch, c)
  | .call _ (.funcOutpacks a epoch c) => some (a, epoch, c)
  | .call _ (.resume a epoch c) => some (a, epoch, c)
  | .loop a epoch c _ => some (a, epoch, c)
  | _ => none

/-- A step that neither dials nor publishes nor begins `Close`. -/
structure Steady (task task' : Task) : Prop where
  dialled : task'.dialled = none ∨ task'.dialled = task.dialled
  attends : task'.attends = none ∨ task'.attends = task.attends
  closing : task'.closing = true → task.closing = true

variable {cfg : Cfg} {s t : St} {act : Act} {i k : ℕ} {task task' new : Task}

theorem Steady.of_writes {todo : List (ℕ × OutPack)} {next : Task} (h : Steady task next) :
    Steady task (writes todo next) := by
  cases todo with
  | nil => exact h
  | cons w rest => exact ⟨h.dialled, h.attends, h.closing⟩

theorem Steady.write {todo todo' : List (ℕ × OutPack)} {stage stage' : Stage} {next : Task} :
    Steady (.write todo stage next) (.write todo' stage' next) := ⟨Or.inr rfl, Or.inr rfl, id⟩

theorem Steady.of_none (hd : task'.dialled = none) (ha : task'.attends = none)
    (hc : task'.closing = false) : Steady task task' := ⟨Or.inl hd, Or.inl ha, by simp [hc]⟩

theorem Steady.loop {a epoch c : ℕ} {pc pc' : LoopPc}
    (h : (Task.loop a epoch c pc').dialled = none) :
    Steady (.loop a epoch c pc) (.loop a epoch c pc') := ⟨Or.inl h, Or.inr rfl, id⟩

theorem steady_back (op : Op) (drains : Bool) : Steady task (back op drains) := by
  cases drains <;> exact .of_none rfl rfl rfl

theorem steady_answer (s : St) (inpack : InPack) (r : Result) :
    Steady task (answer s inpack r) := by
  unfold answer
  split_ifs
  · exact .of_writes (.of_none rfl rfl rfl)
  · exact .of_none rfl rfl rfl

theorem Local.steady (hl : Local cfg s task task') : Steady task task' := by
  cases hl with
  | ready => split_ifs <;> exact .of_none rfl rfl rfl
  | snapshot hmu => split_ifs <;> exact .of_none rfl rfl rfl
  | getConn => split_ifs <;> exact .of_none rfl rfl rfl
  | isReady hmu => split_ifs <;> exact .of_none rfl rfl rfl
  | announce hk ho => exact .of_writes (.of_none rfl rfl rfl)
  | noJob ht => exact .of_writes (steady_back _ _)
  | noop ht => exact .of_writes (steady_back _ _)
  | unlimited hl => exact .of_writes (steady_back _ _)
  | reannounce hmu ho => exact .of_writes ⟨Or.inl rfl, Or.inr rfl, id⟩
  | answer hmu => exact steady_answer _ _ _
  | getRW hrw => exact .write
  | flushFailed => exact .write
  | readErr err => exact .loop rfl
  | stale he => exact .loop rfl
  | @react a epoch c err he =>
    refine .loop ?_
    unfold reaction
    cases onReadError err <;> rfl
  | decoded he hd => exact .loop rfl
  | disconnect =>
    refine .loop ?_
    split_ifs <;> rfl
  | oldConn => exact .loop rfl
  | loopQuit hq => exact .loop rfl
  | _ => exact .of_none rfl rfl rfl

theorem Locks.steady (hl : Locks cfg task k task') : Steady task task' := by
  cases hl with
  | connect hk => exact .of_none rfl rfl rfl
  | write => exact .write

theorem Unlocks.steady (hl : Unlocks task k task') : Steady task task' := by
  cases hl with
  | written => exact .of_writes ⟨Or.inr rfl, Or.inr rfl, id⟩
  | _ => exact .of_none rfl rfl rfl

theorem Shuts.steady {old : Option ℕ} (hs : Shuts task old task') : Steady task task' := by
  cases hs <;> exact .loop rfl

theorem Reports.steady {rs : List Report} (hr : Reports cfg s task rs task') :
    Steady task task' := by
  cases hr with
  | serverErr ht => exact steady_back _ _
  | custome ht hj => exact steady_back _ _
  | exec => exact .of_none rfl rfl rfl
  | _ => exact .loop rfl

theorem Spawns.steady (hs : Spawns task task' new) : Steady task task' := by
  cases hs <;> exact .of_none rfl rfl rfl

theorem Spawns.steady_new (hs : Spawns task task' new) : Steady task new := by
  cases hs with
  | job hj => exact .of_none rfl rfl rfl
  | _ => exact ⟨Or.inl rfl, Or.inr rfl, id⟩

theorem steady_entry (cfg : Cfg) (op : Op) : Steady task (entry cfg op) := by
  cases op with
  | reset => exact .of_writes (.of_none rfl rfl rfl)
  | echo data => exact .of_writes (.of_none rfl rfl rfl)
  | setId id => exact .of_writes (.of_none rfl rfl rfl)
  | progress inpack updates => exact .of_writes (.of_none rfl rfl rfl)
  | _ => exact .of_none rfl rfl rfl

theorem steady_afterReady (op : Op) : Steady task (.call op op.afterReady) := by
  cases op <;> exact .of_none rfl rfl rfl

/-- No connection has come into other hands between `s` and `t`, and no `Close` has begun
that `closed` does not tell of. -/
structure Follows (s t : St) : Prop where
  dialled : ∀ j x p, t.tasks j = some x → x.dialled = some p →
    ∃ y, s.tasks j = some y ∧ y.dialled = some p
  attends : ∀ j x p, t.tasks j = some x → x.attends = some p →
    ∃ j' y, s.tasks j' = some y ∧ y.attends = some p
  closing : ∀ j x, t.tasks j = some x → x.closing = true →
    t.closed = true ∨ ∃ y, s.tasks j = some y ∧ y.closing = true

/-- The connections and what the agents have published of them are the same; only `Close`
takes a connection away. -/
structure Keeps (s t : St) : Prop where
  rw : ∀ k, (t.agents k).rw = (s.agents k).rw
  epoch : ∀ k, (t.agents k).epoch = (s.agents k).epoch
  conn : ∀ k, (t.agents k).conn = (s.agents k).conn ∨
    ∃ i task, s.tasks i = some task ∧ task.closing = true
  agent : ∀ c, (t.conns c).agent = (s.conns c).agent
  published : ∀ c, (t.conns c).published = (s.conns c).published
  nconn : t.nconn = s.nconn
  closed : s.closed = true → t.closed = true

inductive Effect (s t : St) : Prop
  | steady (hf : Follows s t) (hk : Keeps s t)
  | dial {i k : ℕ} {task task' : Task} (h : s.tasks i = some task)
      (hd : Dials s.nconn task k task') (ht : t = (s.dialled k).setTask i task')
  | publish {i k c : ℕ} {task task' : Task} (h : s.tasks i = some task)
      (hp : Publishes (s.nextEpoch k) task k c task') (ht : t = (s.publish k c).setTask i task')

theorem Follows.of_tasks (ht : t.tasks = s.tasks) : Follows s t where
  dialled := by
    intro j x p hj hx
    exact ⟨x, ht ▸ hj, hx⟩
  attends := by
    intro j x p hj hx
    exact ⟨j, x, ht ▸ hj, hx⟩
  closing := by
    intro j x hj hx
    exact Or.inr ⟨x, ht ▸ hj, hx⟩

/-- Whatever the task that has moved holds, a task that has not moved holds the same. -/
theorem Follows.update (h : s.tasks i = some task)
    (ht : t.tasks = Function.update s.tasks i (some task'))
    (hd : task'.dialled = none ∨ task'.dialled = task.dialled)
    (ha : task'.attends = none ∨ task'.attends = task.attends)
    (hc : task'.closing = true → t.closed = true ∨ task.closing = true) : Follows s t := by
  have hcases : ∀ {j x}, t.tasks j = some x → j = i ∧ x = task' ∨ s.tasks j = some x := by
    intro j x hj
    rw [ht] at hj
    exact (update_eq_some hj).imp id And.right
  refine ⟨?_, ?_, ?_⟩
  · intro j x p hj hx
    rcases hcases hj with ⟨rfl, rfl⟩ | hj
    · rcases hd with hn | heq
      · simp [hn] at hx
      · exact ⟨task, h, heq ▸ hx⟩
    · exact ⟨x, hj, hx⟩
  · intro j x p hj hx
    rcases hcases hj with ⟨rfl, rfl⟩ | hj
    · rcases ha with hn | heq
      · simp [hn] at hx
      · exact ⟨j, task, h, heq ▸ hx⟩
    · exact ⟨j, x, hj, hx⟩
  · intro j x hj hx
    rcases hcases hj with ⟨rfl, rfl⟩ | hj
    · exact (hc hx).imp id (fun hold => ⟨task, h, hold⟩)
    · exact Or.inr ⟨x, hj, hx⟩

theorem Follows.steady (h : s.tasks i = some task)
    (ht : t.tasks = Function.update s.tasks i (some task')) (hs : Steady task task') :
    Follows s t := .update h ht hs.dialled hs.attends (fun hc => Or.inr (hs.closing hc))

theorem Follows.spawn (ht : t.tasks = Function.update s.tasks s.ntask (some new))
    (hd : new.dialled = none)
    (ha : ∀ p, new.attends = some p → ∃ j y, s.tasks j = some y ∧ y.attends = some p)
    (hc : new.closing = false) : Follows s t := by
  have hcases : ∀ {j x}, t.tasks j = some x → x = new ∨ s.tasks j = some x := by
    intro j x hj
    rw [ht] at hj
    exact (update_eq_some hj).imp And.right And.right
  refine ⟨?_, ?_, ?_⟩
  · intro j x p hj hx
    rcases hcases hj with rfl | hj
    · simp [hd] at hx
    · exact ⟨x, hj, hx⟩
  · intro j x p hj hx
    rcases hcases hj with rfl | hj
    · exact ha p hx
    · exact ⟨j, x, hj, hx⟩
  · intro j x hj hx
    rcases hcases hj with rfl | hj
    · simp [hc] at hx
    · exact Or.inr ⟨x, hj, hx⟩

theorem Follows.trans {u : St} (h : Follows s t) (h' : Follows t u)
    (hcl : t.closed = true → u.closed = true) : Follows s u where
  dialled := by
    intro j x p hj hx
    obtain ⟨y, hy, hyp⟩ := h'.dialled j x p hj hx
    exact h.dialled j y p hy hyp
  attends := by
    intro j x p hj hx
    obtain ⟨j', y, hy, hyp⟩ := h'.attends j x p hj hx
    exact h.attends j' y p hy hyp
  closing := by
    intro j x hj hx
    rcases h'.closing j x hj hx with hc | ⟨y, hy, hyc⟩
    · exact Or.inl hc
    · exact (h.closing j y hy hyc).imp hcl id

theorem Keeps.of_eq (ha : t.agents = s.agents) (hc : t.conns = s.conns) (hn : t.nconn = s.nconn)
    (hcl : s.closed = true → t.closed = true) : Keeps s t where
  rw k := by rw [ha]
  epoch k := by rw [ha]
  conn k := Or.inl (by rw [ha])
  agent c := by rw [hc]
  published c := by rw [hc]
  nconn := hn
  closed := hcl

theorem Keeps.then_eq {u : St} (h : Keeps s t) (ha : u.agents = t.agents) (hc : u.conns = t.conns)
    (hn : u.nconn = t.nconn) (hcl : u.closed = t.closed) : Keeps s u where
  rw k := ha ▸ h.rw k
  epoch k := ha ▸ h.epoch k
  conn k := ha ▸ h.conn k
  agent c := hc ▸ h.agent c
  published c := hc ▸ h.published c
  nconn := hn.trans h.nconn
  closed := hcl ▸ h.closed

theorem Keeps.setAgent {agent : Agent} (ha : t.agents = Function.update s.agents k agent)
    (hc : t.conns = s.conns) (hn : t.nconn = s.nconn) (hcl : t.closed = s.closed)
    (hrw : agent.rw = (s.agents k).rw) (he : agent.epoch = (s.agents k).epoch)
    (hco : agent.conn = (s.agents k).conn ∨ ∃ i task, s.tasks i = some task ∧
      task.closing = true) : Keeps s t := by
  have hagent : ∀ k', (t.agents k').rw = (s.agents k').rw ∧
      (t.agents k').epoch = (s.agents k').epoch ∧ ((t.agents k').conn = (s.agents k').conn ∨
        ∃ i task, s.tasks i = some task ∧ task.closing = true) := by
    intro k'
    by_cases hk : k' = k
    · subst hk
      simp only [ha, Function.update_self]
      exact ⟨hrw, he, hco⟩
    · simp only [ha, Function.update_of_ne hk, true_or, and_self]
  exact ⟨fun k' => (hagent k').1, fun k' => (hagent k').2.1, fun k' => (hagent k').2.2,
    fun c => by rw [hc], fun c => by rw [hc], hn, hcl ▸ id⟩

theorem Keeps.setConn {c : ℕ} {conn : Conn} (hc : t.conns = Function.update s.conns c conn)
    (ha : t.agents = s.agents) (hn : t.nconn = s.nconn) (hcl : t.closed = s.closed)
    (hag : conn.agent = (s.conns c).agent) (hpub : conn.published = (s.conns c).published) :
    Keeps s t := by
  have hconn : ∀ c', (t.conns c').agent = (s.conns c').agent ∧
      (t.conns c').published = (s.conns c').published := by
    intro c'
    by_cases hc' : c' = c
    · subst hc'
      simp only [hc, Function.update_self]
      exact ⟨hag, hpub⟩
    · simp only [hc, Function.update_of_ne hc', and_self]
  exact ⟨fun k => by rw [ha], fun k => by rw [ha], fun k => Or.inl (by rw [ha]),
    fun c' => (hconn c').1, fun c' => (hconn c').2, hn, hcl ▸ id⟩

theorem keeps_shut (s : St) (old : Option ℕ) : Keeps s (s.shut old) := by
  cases old with
  | none => exact .of_eq rfl rfl rfl id
  | some c => exact .setConn rfl rfl rfl rfl rfl rfl

theorem keeps_closeAgent (h : s.tasks i = some task) (hc : task.closing = true) (k : ℕ) :
    Keeps s (s.closeAgent k) := by
  have hshut := keeps_shut s (s.agents k).conn
  have hset : Keeps (s.shut (s.agents k).conn) (s.closeAgent k) :=
    .setAgent rfl rfl rfl rfl (by rw [shut_agents]) (by rw [shut_agents])
      (Or.inr ⟨i, task, by rw [shut_tasks, h], hc⟩)
  exact ⟨fun k' => (hset.rw k').trans (hshut.rw k'),
    fun k' => (hset.epoch k').trans (hshut.epoch k'), fun _ => Or.inr ⟨i, task, h, hc⟩,
    hshut.agent, hshut.published, hshut.nconn, hshut.closed⟩

theorem Move.effect (hm : Move cfg s act t) : Effect s t := by
  have plain : ∀ {i : ℕ} {task task' : Task}, s.tasks i = some task →
      t.tasks = Function.update s.tasks i (some task') → Steady task task' → t.agents = s.agents →
      t.conns = s.conns → t.nconn = s.nconn → t.closed = s.closed → Effect s t :=
    fun h ht hs ha hc hn hcl => .steady (.steady h ht hs) (.of_eq ha hc hn (hcl ▸ id))
  cases hm with
  | call op hc =>
    have hs : Steady (.call op .closed) (entry cfg op) := steady_entry cfg op
    refine .steady (.spawn rfl ?_ ?_ ?_) (.of_eq rfl rfl rfl id)
    · rcases hs.dialled with hn | hn <;> exact hn
    · intro p hp
      rcases hs.attends with hn | hn <;> simp [hn, Task.attends] at hp
    · exact Bool.eq_false_iff.mpr (fun hcl => Bool.false_ne_true (hs.closing hcl))
  | pc h hl => exact plain h rfl hl.steady rfl rfl rfl rfl
  | lock h hl hfree =>
    exact .steady (.steady h rfl hl.steady) (.setAgent rfl rfl rfl rfl rfl rfl (Or.inl rfl))
  | unlock h hl =>
    exact .steady (.steady h rfl hl.steady) (.setAgent rfl rfl rfl rfl rfl rfl (Or.inl rfl))
  | dial h hd => exact .dial h hd rfl
  | publish h hp => exact .publish h hp rfl
  | @spawn i task task' new h hs =>
    have hmid : Follows s (s.setTask i task') := .steady h rfl hs.steady
    have hnew : ∀ {j x}, ((s.setTask i task').spawn new).tasks j = some x →
        x = new ∨ (s.setTask i task').tasks j = some x :=
      fun hj => (update_eq_some hj).imp And.right And.right
    refine .steady ⟨?_, ?_, ?_⟩ (.of_eq rfl rfl rfl id)
    · intro j x p hj hx
      rcases hnew hj with rfl | hj
      · cases hs <;> cases hx
      · exact hmid.dialled j x p hj hx
    · intro j x p hj hx
      rcases hnew hj with rfl | hj
      · rcases hs.steady_new.attends with hn | heq
        · simp [hn] at hx
        · exact ⟨i, task, h, heq ▸ hx⟩
      · exact hmid.attends j x p hj hx
    · intro j x hj hx
      rcases hnew hj with rfl | hj
      · cases hs <;> cases hx
      · exact hmid.closing j x hj hx
  | @shut i old task task' h hs =>
    exact .steady (.steady h (shut_setTask s old i task') hs.steady)
      ((keeps_shut s old).then_eq rfl rfl rfl rfl)
  | report h hr => exact plain h rfl hr.steady rfl rfl rfl rfl
  | setReady h hmu => exact plain h rfl (steady_afterReady _) rfl rfl rfl rfl
  | setRunning h hmu => exact plain h rfl (.of_writes (.of_none rfl rfl rfl)) rfl rfl rfl rfl
  | close h hmu hc =>
    exact .steady (.update h rfl (Or.inl rfl) (Or.inl rfl) (fun _ => Or.inl rfl))
      (.of_eq rfl rfl rfl (fun _ => rfl))
  | closeQuit h => exact plain h rfl ⟨Or.inl rfl, Or.inl rfl, id⟩ rfl rfl rfl rfl
  | @closeAgent i k op h hk =>
    exact .steady (.steady h (closeAgent_setTask s k i _) ⟨Or.inl rfl, Or.inl rfl, id⟩)
      ((keeps_closeAgent h rfl k).then_eq rfl rfl rfl rfl)
  | changeFuncs h hmu hr heq =>
    exact plain h rfl (.of_writes (.of_none rfl rfl rfl)) rfl rfl rfl rfl
  | sent h hopen => exact .steady (.steady h rfl .write) (.setConn rfl rfl rfl rfl rfl rfl)
  | read h hw => exact .steady (.steady h rfl (.loop rfl)) (.setConn rfl rfl rfl rfl rfl rfl)
  | send h hfull => exact plain h rfl (.loop rfl) rfl rfl rfl rfl
  | token h hl hcap => exact plain h rfl (.of_writes (steady_back _ _)) rfl rfl rfl rfl
  | @handoff i j op inpack job drains err v h h' hl =>
    have hne : j ≠ i := by
      rintro rfl
      simp [h] at h'
    have hmid : Follows s (s.setTask i (afterLimit op inpack drains)) :=
      .steady h rfl (.of_writes (steady_back _ _))
    exact .steady (hmid.trans (.steady ((Function.update_of_ne hne ..).trans h') rfl
      (.of_none rfl rfl rfl)) id) (.of_eq rfl rfl rfl id)
  | serve hc => exact .steady (.of_tasks rfl) (.setConn rfl rfl rfl rfl rfl rfl)
  | panic h hrw => exact .steady (.of_tasks rfl) (.of_eq rfl rfl rfl id)
  | _ => exact plain (by assumption) rfl (.of_none rfl rfl rfl) rfl rfl rfl rfl

structure Conns (s : St) : Prop where
  fresh : ∀ i task k c, s.tasks i = some task → task.dialled = some (k, c) →
    c < s.nconn ∧ (s.conns c).agent = k ∧ (s.conns c).published = false
  unique : ∀ i j task task' k k' c, s.tasks i = some task → s.tasks j = some task' →
    task.dialled = some (k, c) → task'.dialled = some (k', c) → i = j
  rw : ∀ k c, (s.agents k).rw = some c →
    c < s.nconn ∧ (s.conns c).agent = k ∧ (s.conns c).published = true
  current : ∀ i task k epoch c, s.tasks i = some task → task.attends = some (k, epoch, c) →
    epoch ≤ (s.agents k).epoch ∧ (epoch = (s.agents k).epoch → (s.agents k).rw = some c)
  unused : ∀ c, s.nconn ≤ c → (s.conns c).published = false

theorem Conns.steady (hi : Conns s) (hf : Follows s t) (hk : Keeps s t) : Conns t where
  fresh := by
    intro i task k c h hd
    obtain ⟨y, hy, hyd⟩ := hf.dialled i task (k, c) h hd
    rw [hk.nconn, hk.agent, hk.published]
    exact hi.fresh i y k c hy hyd
  unique := by
    intro i j task task' k k' c h h' hd hd'
    obtain ⟨y, hy, hyd⟩ := hf.dialled i task (k, c) h hd
    obtain ⟨y', hy', hyd'⟩ := hf.dialled j task' (k', c) h' hd'
    exact hi.unique i j y y' k k' c hy hy' hyd hyd'
  rw := by
    intro k c h
    rw [hk.nconn, hk.agent, hk.published]
    exact hi.rw k c (hk.rw k ▸ h)
  current := by
    intro i task k epoch c h ha
    obtain ⟨j, y, hy, hya⟩ := hf.attends i task (k, epoch, c) h ha
    rw [hk.epoch, hk.rw]
    exact hi.current j y k epoch c hy hya
  unused := by
    intro c hc
    rw [hk.published]
    exact hi.unused c (hk.nconn ▸ hc)

theorem Dials.dialled {c : ℕ} (hd : Dials c task k task') : task'.dialled = some (k, c) := by
  cases hd <;> rfl

theorem Dials.attends {c : ℕ} (hd : Dials c task k task') :
    task'.attends = none ∨ task'.attends = task.attends := by
  cases hd with
  | loop => exact Or.inr rfl
  | _ => exact Or.inl rfl

theorem Conns.dial (hi : Conns s) (h : s.tasks i = some task) (hd : Dials s.nconn task k task') :
    Conns ((s.dialled k).setTask i task') := by
  have hold : ∀ {c}, c < s.nconn → ((s.dialled k).setTask i task').conns c = s.conns c :=
    fun hc => Function.update_of_ne (Nat.ne_of_lt hc) ..
  have hlt : ∀ {j x k' c}, s.tasks j = some x → x.dialled = some (k', c) → c < s.nconn :=
    fun hj hx => (hi.fresh _ _ _ _ hj hx).1
  refine ⟨?_, ?_, ?_, ?_, ?_⟩
  · intro j x k' c hj hx
    rcases update_eq_some hj with ⟨rfl, rfl⟩ | ⟨-, hj⟩
    · cases Option.some.inj (hd.dialled.symm.trans hx)
      refine ⟨Nat.lt_succ_self _, ?_, ?_⟩ <;> simp [St.setTask, St.dialled, St.setConnAt]
    · obtain ⟨hc, hrest⟩ := hi.fresh j x k' c hj hx
      rw [hold hc]
      exact ⟨Nat.lt_succ_of_lt hc, hrest⟩
  · intro j j' x x' k₁ k₂ c hj hj' hx hx'
    rcases update_eq_some hj with ⟨hji, rfl⟩ | ⟨-, hjs⟩ <;>
      rcases update_eq_some hj' with ⟨hji', rfl⟩ | ⟨-, hjs'⟩
    · exact hji.trans hji'.symm
    · cases Option.some.inj (hd.dialled.symm.trans hx)
      exact absurd (hlt hjs' hx') (Nat.lt_irrefl _)
    · cases Option.some.inj (hd.dialled.symm.trans hx')
      exact absurd (hlt hjs hx) (Nat.lt_irrefl _)
    · exact hi.unique j j' x x' k₁ k₂ c hjs hjs' hx hx'
  · intro k' c hc
    obtain ⟨hlt, hrest⟩ := hi.rw k' c hc
    rw [hold hlt]
    exact ⟨Nat.lt_succ_of_lt hlt, hrest⟩
  · intro j x k' epoch c hj hx
    rcases update_eq_some hj with ⟨rfl, rfl⟩ | ⟨-, hj⟩
    · rcases hd.attends with hn | heq
      · simp [hn] at hx
      · exact hi.current j task k' epoch c h (heq ▸ hx)
    · exact hi.current j x k' epoch c hj hx
  · intro c hc
    have hne : c ≠ s.nconn := Nat.ne_of_gt hc
    exact (congrArg Conn.published (Function.update_of_ne hne ..)).trans
      (hi.unused c (Nat.le_of_lt hc))

theorem Publishes.dialled {e c : ℕ} (hp : Publishes e task k c task') :
    task.dialled = some (k, c) ∧ task'.dialled = none ∧ task'.attends = some (k, e, c) := by
  cases hp <;> exact ⟨rfl, rfl, rfl⟩

theorem publish_agent (s : St) (k c c' : ℕ) :
    ((s.publish k c).conns c').agent = (s.conns c').agent := by
  by_cases hc : c' = c
  · subst hc
    simp [St.publish, St.setAgent, St.setConnAt]
  · exact congrArg Conn.agent (Function.update_of_ne hc ..)

theorem publish_published (s : St) (k c c' : ℕ) : ((s.publish k c).conns c').published =
    if c' = c then true else (s.conns c').published := by
  by_cases hc : c' = c
  · subst hc
    simp [St.publish, St.setAgent, St.setConnAt]
  · rw [if_neg hc]
    exact congrArg Conn.published (Function.update_of_ne hc ..)

theorem Conns.publish (hi : Conns s) {c : ℕ} (h : s.tasks i = some task)
    (hp : Publishes (s.nextEpoch k) task k c task') :
    Conns ((s.publish k c).setTask i task') := by
  -- The loops of the epochs before are not current any more, and the one to come is.
  obtain ⟨hdialled, hnone, hattends⟩ := hp.dialled
  obtain ⟨hlt, hagent, hunpub⟩ := hi.fresh i task k c h hdialled
  refine ⟨?_, ?_, ?_, ?_, ?_⟩
  · intro j x k' c' hj hx
    rcases update_eq_some hj with ⟨rfl, rfl⟩ | ⟨hne, hj⟩
    · simp [hnone] at hx
    · obtain ⟨hlt', hagent', hunpub'⟩ := hi.fresh j x k' c' hj hx
      have hcc : c' ≠ c := by
        rintro rfl
        exact hne (hi.unique j i x task k' k c' hj h hx hdialled)
      refine ⟨hlt', ?_, ?_⟩
      · simp only [St.setTask, publish_agent]
        exact hagent'
      · simp only [St.setTask, publish_published, if_neg hcc]
        exact hunpub'
  · intro j j' x x' k₁ k₂ c' hj hj' hx hx'
    rcases update_eq_some hj with ⟨rfl, rfl⟩ | ⟨-, hj⟩
    · simp [hnone] at hx
    · rcases update_eq_some hj' with ⟨rfl, rfl⟩ | ⟨-, hj'⟩
      · simp [hnone] at hx'
      · exact hi.unique j j' x x' k₁ k₂ c' hj hj' hx hx'
  · intro k' c' hc'
    simp only [St.setTask, publish_agent, publish_published] at hc' ⊢
    by_cases hk : k' = k
    · subst hk
      simp only [publish_self, Option.some.injEq] at hc'
      subst hc'
      exact ⟨hlt, hagent, by simp⟩
    · rw [publish_of_ne s c hk] at hc'
      obtain ⟨hlt', hagent', hpub'⟩ := hi.rw k' c' hc'
      refine ⟨hlt', hagent', ?_⟩
      split_ifs
      · trivial
      · exact hpub'
  · intro j x k' epoch c' hj hx
    simp only [St.setTask]
    rcases update_eq_some hj with ⟨rfl, rfl⟩ | ⟨-, hj⟩
    · cases Option.some.inj (hattends.symm.trans hx)
      rw [publish_self]
      exact ⟨le_rfl, fun _ => rfl⟩
    · obtain ⟨hle, hcur⟩ := hi.current j x k' epoch c' hj hx
      by_cases hk : k' = k
      · subst hk
        simp only [publish_self, St.nextEpoch]
        exact ⟨by omega, fun heq => by omega⟩
      · rw [publish_of_ne s c hk]
        exact ⟨hle, hcur⟩
  · intro c' hc'
    have hne : c' ≠ c := by
      rintro rfl
      exact absurd hlt (Nat.not_lt.mpr hc')
    simp only [St.setTask, publish_published, if_neg hne]
    exact hi.unused c' hc'

/-- What has been published stays so, for the same agent. -/
def Shown (s t : St) : Prop := ∀ c, (s.conns c).published = true →
  (t.conns c).published = true ∧ (t.conns c).agent = (s.conns c).agent

theorem Keeps.shown (hk : Keeps s t) : Shown s t :=
  fun c hc => ⟨(hk.published c).trans hc, hk.agent c⟩

theorem shown_dialled (hc : Conns s) (i k : ℕ) (task : Task) :
    Shown s ((s.dialled k).setTask i task) := by
  intro c hpub
  have hne : c ≠ s.nconn := by
    rintro rfl
    simp [hc.unused s.nconn le_rfl] at hpub
  have heq : ((s.dialled k).setTask i task).conns c = s.conns c := Function.update_of_ne hne ..
  rw [heq]
  exact ⟨hpub, rfl⟩

theorem shown_publish (s : St) (k c i : ℕ) (task : Task) :
    Shown s ((s.publish k c).setTask i task) := by
  intro c' hpub
  simp only [St.setTask, publish_agent, publish_published, hpub, ite_self, and_self]

theorem Move.shown (hc : Conns s) (hm : Move cfg s act t) : Shown s t := by
  cases hm.effect with
  | steady hf hk => exact hk.shown
  | dial h hd ht => exact ht ▸ shown_dialled hc _ _ _
  | publish h hp ht => exact ht ▸ shown_publish s _ _ _ _

theorem Conns.move (hi : Conns s) (hm : Move cfg s act t) : Conns t := by
  cases hm.effect with
  | steady hf hk => exact hi.steady hf hk
  | dial h hd ht =>
    subst ht
    exact hi.dial h hd
  | publish h hp ht =>
    subst ht
    exact hi.publish h hp

theorem conns_start : Conns {} where
  fresh := by
    intro i task k c h
    cases h
  unique := by
    intro i j task task' k k' c h
    cases h
  rw := by
    intro k c h
    cases h
  current := by
    intro i task k epoch c h
    cases h
  unused := by
    intro c _
    rfl

def wordStep (cfg : Cfg) (s : St) : Act → Option St
  | .task i =>
    match s.tasks i with
    | some (.loop a epoch c (.check r)) =>
      if s.panicked then none
      else if UInt64.ofNat (s.agents a).epoch ≠ UInt64.ofNat epoch then
        some (s.setTask i (.loop a epoch c .done))
      else reactStep s i a epoch c r
    | _ => step cfg s (.task i)
  | act => step cfg s act

theorem word_eq_iff {m n : ℕ} (h : m ≤ n) (hn : n < 2 ^ 64) :
    UInt64.ofNat n = UInt64.ofNat m ↔ n = m := by
  refine ⟨fun heq => ?_, congrArg _⟩
  have hnat := congrArg UInt64.toNat heq
  rwa [UInt64.toNat_ofNat_of_lt' hn, UInt64.toNat_ofNat_of_lt' (h.trans_lt hn)] at hnat

theorem wordStep_eq (cfg : Cfg) (hi : Conns s) (hlt : ∀ a, (s.agents a).epoch < 2 ^ 64)
    (act : Act) : wordStep cfg s act = step cfg s act := by
  cases act with
  | task i =>
    simp only [wordStep]
    split
    next a epoch c r h =>
      have hle := (hi.current i _ a epoch c h rfl).1
      simp only [step, h, Option.bind_some, taskStep, loopStep, ne_eq, word_eq_iff hle (hlt a)]
    next => rfl
  | _ => rfl

theorem step_epoch (h : step cfg s act = some t) (a : ℕ) :
    (t.agents a).epoch ≤ (s.agents a).epoch + 1 := by
  cases (step_move h).effect with
  | steady hf hk => exact (hk.epoch a).trans_le (Nat.le_succ _)
  | dial htask hd ht =>
    subst ht
    exact Nat.le_succ _
  | @publish i k c task task' htask hp ht =>
    subst ht
    by_cases ha : a = k
    · subst ha
      simp [St.setTask, St.publish, St.setAgent, St.nextEpoch]
    · simp [St.setTask, St.publish, St.setAgent, St.setConnAt, ha]

theorem run_wordStep {allow : St → Act → Bool} {acts : List Act} (hi : Conns s)
    (hlt : ∀ a, (s.agents a).epoch + acts.length < 2 ^ 64) :
    run (wordStep cfg) allow s acts = run (step cfg) allow s acts := by
  induction acts generalizing s with
  | nil => rfl
  | cons act acts ih =>
    have hword := wordStep_eq cfg hi (fun a => (Nat.le_add_right _ _).trans_lt (hlt a)) act
    simp only [run, hword]
    cases hs : step cfg s act with
    | none => rfl
    | some t =>
      have hnext : run (wordStep cfg) allow t acts = run (step cfg) allow t acts := by
        refine ih (hi.move (step_move hs)) (fun a => ?_)
        have hle := step_epoch hs a
        have hold := hlt a
        simp only [List.length_cons] at hold
        omega
      simp only [Option.bind_some, hnext]

theorem words_suffice (cfg : Cfg) (allow : St → Act → Bool) (acts : List Act)
    (h : acts.length < 2 ^ 64) :
    run (wordStep cfg) allow {} acts = run (step cfg) allow {} acts :=
  run_wordStep conns_start (fun a => by simpa using h)

end Gearman.Worker.Machine
