import Gearman.WorkerReaders
import Gearman.WorkerReannounce

/-!
# Who closes a connection and who replaces it

`setConn` puts a connection in the place of another one and does not close that one.
`work` closes what it has replaced afterwards, `reconnect` does not close anything. And
`work` compares its epoch once after each read, but reads the agent's connection again
when it reports a disconnect and when it redials: if another goroutine publishes in
between, what `work` finds, replaces and closes is not its own.
-/

namespace Gearman.Worker.Machine
open Transition Custody

def NoLeak (s : St) : Prop := ∀ c, (s.conns c).published = true →
  (s.agents (s.conns c).agent).conn = some c ∨ (s.conns c).closed = true

def Task.publishes : Task → Option ℕ
  | .call _ (.setConn k _ _) => some k
  | .call _ (.republish a _) => some a
  | .loop a _ _ (.setConn _ _) => some a
  | _ => none

/-- What a publish replaces, if anything, is closed already. -/
def replacesClosed (s : St) : Act → Bool
  | .task i =>
    match (s.tasks i).bind Task.publishes with
    | none => true
    | some k => (s.agents k).conn.all (fun c => (s.conns c).closed)
  | _ => true

def Linked (s : St) : Prop := ∀ k c, (s.agents k).conn = some c → (s.agents k).rw = some c

variable {cfg : Cfg} {s t : St} {act : Act} {i k : ℕ} {task task' new : Task}

theorem closeAgent_self (s : St) (k : ℕ) : ((s.closeAgent k).agents k).conn = none := by
  simp [St.closeAgent, St.setAgent]

theorem closeAgent_of_ne (s : St) {k k' : ℕ} (h : k' ≠ k) :
    (s.closeAgent k).agents k' = s.agents k' := by
  simp only [St.closeAgent, St.setAgent, shut_agents, Function.update_of_ne h]

theorem closeAgent_conns (s : St) (k : ℕ) :
    (s.closeAgent k).conns = (s.shut (s.agents k).conn).conns := rfl

theorem Linked.move (hi : Linked s) (hn : Named s) (hm : Move cfg s act t) : Linked t := by
  intro k' c h
  cases hm.handles hn with
  | still hh hk hu hg =>
    rw [hk.rw]
    exact hi k' c (hu.conn k' ▸ h)
  | shut hi' hs ht ha hh hk hg =>
    subst ht
    simp only [St.setTask, shut_agents] at h ⊢
    exact hi k' c h
  | @closeAgent i k op hi' ht ha hh hk hg =>
    rw [hk.rw]
    subst ht
    by_cases hk' : k' = k
    · subst hk'
      exact absurd ((closeAgent_self s k').symm.trans h) (by simp)
    · exact hi k' c ((congrArg Agent.conn (closeAgent_of_ne s hk')).symm.trans h)
  | dial hi' hd ht hh hg =>
    subst ht
    exact hi k' c h
  | @publish i k c' task task' hi' hp ht ha =>
    subst ht
    simp only [St.setTask] at h ⊢
    by_cases hk' : k' = k
    · subst hk'
      rw [publish_self] at h ⊢
      exact h
    · rw [publish_of_ne s c' hk'] at h ⊢
      exact hi k' c h
  | start hi' hs ht ha =>
    subst ht
    exact hi k' c h

theorem linked_start : Linked {} := by
  intro k c h
  cases h

theorem Conns.conn (hc : Conns s) (hl : Linked s) {c : ℕ} (h : (s.agents k).conn = some c) :
    (s.conns c).agent = k ∧ (s.conns c).published = true := (hc.rw k c (hl k c h)).2

theorem shut_closed_iff (s : St) (old : Option ℕ) (c : ℕ) :
    ((s.shut old).conns c).closed = true ↔ (s.conns c).closed = true ∨ old = some c := by
  cases old with
  | none => simp [St.shut]
  | some c' =>
    by_cases h : c = c'
    · subst h
      simp [St.shut, St.setConnAt]
    · simp [St.shut, St.setConnAt, Function.update_of_ne h, Ne.symm h]

theorem publish_closed (s : St) (k c c' : ℕ) :
    ((s.publish k c).conns c').closed = (s.conns c').closed := by
  by_cases hc : c' = c
  · subst hc
    simp [St.publish, St.setAgent, St.setConnAt]
  · exact congrArg Conn.closed (Function.update_of_ne hc ..)

theorem Publishes.publishes {e c : ℕ} (hp : Publishes e task k c task') :
    task.publishes = some k := by
  cases hp <;> rfl

theorem replacesClosed_publish {e c : ℕ} (h : s.tasks i = some task)
    (hp : Publishes e task k c task') :
    replacesClosed s (.task i) = (s.agents k).conn.all (fun c => (s.conns c).closed) := by
  simp only [replacesClosed, h, Option.bind_some, hp.publishes]

theorem NoLeak.publish (hi : NoLeak s) (hc : Conns s) {c : ℕ} (h : s.tasks i = some task)
    (hp : Publishes (s.nextEpoch k) task k c task') (hg : replacesClosed s (.task i) = true) :
    NoLeak ((s.publish k c).setTask i task') := by
  obtain ⟨-, hagent, -⟩ := hc.fresh i task k c h hp.dialled.1
  rw [replacesClosed_publish h hp] at hg
  intro c' hpub
  simp only [St.setTask, publish_published, publish_agent, publish_closed] at hpub ⊢
  by_cases hcc : c' = c
  · subst hcc
    rw [hagent, publish_self]
    exact Or.inl rfl
  · rw [if_neg hcc] at hpub
    by_cases hk : (s.conns c').agent = k
    · rcases hi c' hpub with hconn | hclosed
      · rw [hk] at hconn
        rw [hconn] at hg
        exact Or.inr hg
      · exact Or.inr hclosed
    · rw [publish_of_ne s c hk]
      exact hi c' hpub

theorem leak_of_publish (hc : Conns s) (hl : Linked s) {c : ℕ} (h : s.tasks i = some task)
    (hp : Publishes (s.nextEpoch k) task k c task') (hg : replacesClosed s (.task i) = false) :
    ¬ NoLeak ((s.publish k c).setTask i task') := by
  -- What has been replaced while it was open stays open.
  obtain ⟨-, -, hunpub⟩ := hc.fresh i task k c h hp.dialled.1
  rw [replacesClosed_publish h hp] at hg
  intro hleak
  cases hconn : (s.agents k).conn with
  | none => simp [hconn] at hg
  | some c' =>
    have hopen : (s.conns c').closed = false := by simpa [hconn] using hg
    obtain ⟨hagent, hpub⟩ := hc.conn hl hconn
    have hne : c ≠ c' := by
      rintro rfl
      exact Bool.false_ne_true (hunpub.symm.trans hpub)
    rcases hleak c' (shown_publish s k c i task' c' hpub).1 with hcur | hclosed
    · simp only [St.setTask, publish_agent, hagent, publish_self, Option.some.injEq] at hcur
      exact hne hcur
    · simp only [St.setTask, publish_closed, hopen] at hclosed
      exact Bool.false_ne_true hclosed

theorem NoLeak.move (hi : NoLeak s) (hn : Named s) (hc : Conns s) (hm : Move cfg s act t)
    (hg : replacesClosed s act = true) : NoLeak t := by
  cases hm.handles hn with
  | still hh hk hu hgain =>
    intro c hpub
    rw [hk.published] at hpub
    rw [hk.agent, hu.conn, hu.closed]
    exact hi c hpub
  | @shut i old task task' h hs ht ha hh hk hgain =>
    intro c hpub
    rw [hk.published] at hpub
    rw [hk.agent]
    subst ht
    simp only [St.setTask, shut_agents, shut_closed_iff]
    exact (hi c hpub).imp id Or.inl
  | @closeAgent i k op h ht ha hh hk hgain =>
    intro c hpub
    rw [hk.published] at hpub
    rw [hk.agent]
    subst ht
    simp only [St.setTask, closeAgent_conns, shut_closed_iff]
    by_cases hck : (s.conns c).agent = k
    · rw [hck]
      rcases hi c hpub with hconn | hclosed
      · exact Or.inr (Or.inr (hck ▸ hconn))
      · exact Or.inr (Or.inl hclosed)
    · rw [closeAgent_of_ne s hck]
      exact (hi c hpub).imp id Or.inl
  | @dial i k task task' h hd ht hh hgain =>
    subst ht
    intro c hpub
    by_cases hne : c = s.nconn
    · subst hne
      simp [St.setTask, St.dialled, St.setConnAt] at hpub
    · have heq : ((s.dialled k).setTask i task').conns c = s.conns c :=
        Function.update_of_ne hne ..
      rw [heq] at hpub ⊢
      exact hi c hpub
  | publish h hp ht ha =>
    subst ht ha
    exact hi.publish hc h hp hg
  | start h hs ht ha =>
    subst ht
    exact hi

theorem step_publishes (h : s.tasks i = some task) (hp : task.publishes = some k)
    (hs : step cfg s (.task i) = some t) : ∃ c task', Publishes (s.nextEpoch k) task k c task' ∧
      t = (s.publish k c).setTask i task' := by
  cases step_runs h rfl hs with
  | task hrun =>
    cases task with
    | write todo stage next => cases hp
    | exec inpack pc => cases hp
    | call op pc =>
      cases pc <;> cases hp
      · cases hrun
        exact ⟨_, _, .connect, rfl⟩
      · cases hrun
        exact ⟨_, _, .reconnect, rfl⟩
    | loop a epoch c pc =>
      cases pc <;> cases hp
      cases hrun
      exact ⟨_, _, .loop, rfl⟩

/-- Nothing is leaked as long as every publish replaces what is closed, and the first one
that does not leaks what it replaces. -/
theorem no_leak_iff (h : Reachable (step cfg) replacesClosed {} s)
    (hs : step cfg s act = some t) : NoLeak t ↔ replacesClosed s act = true := by
  have hinv : (Named s ∧ Conns s ∧ Linked s) ∧ NoLeak s := by
    refine h.invariant (I := fun s => (Named s ∧ Conns s ∧ Linked s) ∧ NoLeak s)
      ⟨⟨named_start, conns_start, linked_start⟩, fun c hc => by cases hc⟩ ?_
    intro s act t hi hg hs
    obtain ⟨⟨hn, hc, hl⟩, hno⟩ := hi
    have hm : Move cfg s act t := step_move hs
    exact ⟨⟨hn.move hm, hc.move hm, hl.move hn hm⟩, hno.move hn hc hm hg⟩
  obtain ⟨⟨hn, hc, hl⟩, hno⟩ := hinv
  constructor
  · intro hleak
    by_contra hg
    rw [Bool.not_eq_true] at hg
    cases act with
    | task i =>
      cases hp : (s.tasks i).bind Task.publishes with
      | none => simp [replacesClosed, hp] at hg
      | some k =>
        obtain ⟨task, htask, hk⟩ := Option.bind_eq_some_iff.mp hp
        obtain ⟨c, task', hpub, rfl⟩ := step_publishes htask hk hs
        exact leak_of_publish hc hl htask hpub hg hleak
    | _ => cases hg
  · exact hno.move hn hc (step_move hs)

def readyActs (i : ℕ) : List Act := [.task i, .task i, .task i, .task i, .dial i none]

theorem no_leak_after_close :
    ∃ s t, run (step oneAgent) replacesClosed {}
        ([.call (.addFunc [102] Calls.demoFunc), .task 0, .call .ready] ++ readyActs 1 ++
          [.task 1, .task 1, .task 1, .call .close, .task 3, .task 3, .task 3, .call .ready] ++
          readyActs 4) = some s ∧
      step oneAgent s (.task 4) = some t ∧ (t.agents 0).conn = some 1 ∧
      (t.conns 0).published = true ∧ NoLeak t := by
  obtain ⟨s, t, hs, ht, hg, hconn, hpub⟩ : ∃ s t, run (step oneAgent) replacesClosed {}
      ([.call (.addFunc [102] Calls.demoFunc), .task 0, .call .ready] ++ readyActs 1 ++
        [.task 1, .task 1, .task 1, .call .close, .task 3, .task 3, .task 3, .call .ready] ++
        readyActs 4) = some s ∧ step oneAgent s (.task 4) = some t ∧
      replacesClosed s (.task 4) = true ∧ (t.agents 0).conn = some 1 ∧
      (t.conns 0).published = true := ⟨_, _, rfl, rfl, rfl, rfl, rfl⟩
  exact ⟨s, t, hs, ht, hconn, hpub, (no_leak_iff ⟨_, hs⟩ ht).mpr hg⟩

def resumedActs : List Act :=
  droppedActs ++ [.dial 3 none, .task 3, .range 3 [[102]]] ++ writeActs 3 ++ writeActs 3 ++
    [.task 3]

/-- The connection has ended, and `Reconnect` has put another one in its place and has
returned: nobody closes the first one. -/
theorem leak_after_reconnect :
    ∃ t, run (step oneAgent) always {} resumedActs = some t ∧
      t.tasks 2 = some (.loop 0 1 0 .done) ∧
      t.tasks 3 = some (.call (.reconnect 0) (.returned none)) ∧
      t.tasks 4 = some (.loop 0 2 1 .read) ∧ (t.agents 0).conn = some 1 ∧
      (t.conns 0).published = true ∧ (t.conns 0).closed = false ∧ ¬ NoLeak t := by
  obtain ⟨t, ht, h2, h3, h4, hconn, hagent, hpub, hopen⟩ :
      ∃ t, run (step oneAgent) always {} resumedActs = some t ∧
      t.tasks 2 = some (.loop 0 1 0 .done) ∧
      t.tasks 3 = some (.call (.reconnect 0) (.returned none)) ∧
      t.tasks 4 = some (.loop 0 2 1 .read) ∧ (t.agents 0).conn = some 1 ∧
      (t.conns 0).agent = 0 ∧ (t.conns 0).published = true ∧ (t.conns 0).closed = false :=
    ⟨_, rfl, rfl, rfl, rfl, rfl, rfl, rfl, rfl⟩
  refine ⟨t, ht, h2, h3, h4, hconn, hpub, hopen, ?_⟩
  intro hleak
  rcases hleak 0 hpub with hcur | hclosed
  · rw [hagent, hconn] at hcur
    cases hcur
  · exact Bool.false_ne_true (hopen.symm.trans hclosed)

/-- The connection that a loop has found at its agent and is going to close: instead of the
one it reads, or after having replaced it. -/
structure Aim where
  own : ℕ
  old : ℕ
  replaced : Bool

def Task.aim : Task → Option Aim
  | .write _ _ next => next.aim
  | .loop _ _ c (.dial (some old)) => some ⟨c, old, false⟩
  | .loop _ _ c (.setConn (some old) _) => some ⟨c, old, false⟩
  | .loop _ _ c (.giveUp (some old)) => some ⟨c, old, false⟩
  | .loop _ _ c (.closeOld (some old)) => some ⟨c, old, true⟩
  | _ => none

def St.aim (s : St) : ℕ → Option Aim := held Task.aim s.tasks

def Aimless (task task' : Task) : Prop := task'.aim = none ∨ task'.aim = task.aim

theorem aim_writes (todo : List (ℕ × OutPack)) (next : Task) :
    (writes todo next).aim = next.aim := by
  cases todo <;> rfl

theorem aim_back (op : Op) (drains : Bool) : (back op drains).aim = none := by
  cases drains <;> rfl

theorem aim_answer (s : St) (inpack : InPack) (r : Result) : (answer s inpack r).aim = none := by
  unfold answer
  split_ifs
  · exact aim_writes _ _
  · rfl

theorem aim_entry (cfg : Cfg) (op : Op) : (entry cfg op).aim = none := by
  cases op <;> first | rfl | exact aim_writes _ _

theorem aim_reaction (a epoch c : ℕ) (err : Err) :
    (Task.loop a epoch c (reaction err)).aim = none := by
  unfold reaction
  cases onReadError err <;> rfl

theorem Local.aim (hl : Local cfg s task task') : Aimless task task' ∨
    ∃ a epoch c, task = .loop a epoch c .getConn ∧
      task' = .loop a epoch c (.dial (s.agents a).conn) := by
  cases hl with
  | @oldConn a epoch c => exact Or.inr ⟨a, epoch, c, rfl, rfl⟩
  | ready => split_ifs <;> exact Or.inl (Or.inl rfl)
  | snapshot hmu => split_ifs <;> exact Or.inl (Or.inl rfl)
  | getConn => split_ifs <;> exact Or.inl (Or.inl rfl)
  | isReady hmu => split_ifs <;> exact Or.inl (Or.inl rfl)
  | disconnect => split_ifs <;> exact Or.inl (Or.inl rfl)
  | announce hk ho => exact Or.inl (Or.inl (aim_writes _ _))
  | noJob ht => exact Or.inl (Or.inl ((aim_writes _ _).trans (aim_back _ _)))
  | noop ht => exact Or.inl (Or.inl ((aim_writes _ _).trans (aim_back _ _)))
  | unlimited hl => exact Or.inl (Or.inl ((aim_writes _ _).trans (aim_back _ _)))
  | reannounce hmu ho => exact Or.inl (Or.inl (aim_writes _ _))
  | answer hmu => exact Or.inl (Or.inl (aim_answer _ _ _))
  | react he => exact Or.inl (Or.inl (aim_reaction _ _ _ _))
  | getRW hrw => exact Or.inl (Or.inr rfl)
  | flushFailed => exact Or.inl (Or.inr rfl)
  | _ => exact Or.inl (Or.inl rfl)

theorem Locks.aim (hl : Locks cfg task k task') : Aimless task task' := by
  cases hl <;> exact Or.inr rfl

theorem Unlocks.aim (hl : Unlocks task k task') : Aimless task task' := by
  cases hl with
  | written => exact Or.inr (aim_writes _ _)
  | _ => exact Or.inl rfl

theorem Dials.aim {c : ℕ} (hd : Dials c task k task') : Aimless task task' := by
  cases hd with
  | @loop a epoch c' old => cases old <;> exact Or.inr rfl
  | _ => exact Or.inl rfl

theorem Shuts.aim {old : Option ℕ} (hs : Shuts task old task') : Aimless task task' := by
  cases hs <;> exact Or.inl rfl

theorem Reports.aim {rs : List Report} (hr : Reports cfg s task rs task') :
    Aimless task task' := by
  cases hr with
  | serverErr ht => exact Or.inl (aim_back _ _)
  | custome ht hj => exact Or.inl (aim_back _ _)
  | @dialErr a epoch c old err => cases old <;> exact Or.inr rfl
  | _ => exact Or.inl rfl

inductive Aims (s : St) (act : Act) (t : St) (j : ℕ) : Aim → Prop
  | keeps {p : Aim} (h : s.aim j = some p) : Aims s act t j p
  | finds {a epoch c old : ℕ} (h : s.tasks j = some (.loop a epoch c .getConn))
      (ha : act.runner = some j) (hc : (s.agents a).conn = some old) :
      Aims s act t j ⟨c, old, false⟩
  | replaces {a epoch c c' old : ℕ}
      (h : s.tasks j = some (.loop a epoch c (.setConn (some old) c')))
      (ht : t = (s.publish a c').setTask j (.loop a (s.nextEpoch a) c' (.closeOld (some old)))) :
      Aims s act t j ⟨c', old, true⟩

theorem Move.aims (hm : Move cfg s act t) {j : ℕ} {p : Aim} (h : t.aim j = some p) :
    Aims s act t j p := by
  have plain : ∀ {i : ℕ} {task task' : Task}, s.tasks i = some task →
      t.tasks = Function.update s.tasks i (some task') → Aimless task task' →
      Aims s act t j p := by
    intro i task task' hi ht hl
    rw [St.aim, ht] at h
    exact .keeps (held_of_update hi hl h)
  cases hm with
  | call op hc => exact .keeps (held_of_new (aim_entry cfg op) h)
  | @pc act i task task' hi hl ha =>
    rcases hl.aim with hl | ⟨a, epoch, c, rfl, rfl⟩
    · exact plain hi rfl hl
    · rw [St.aim, St.setTask, held_update] at h
      by_cases hj : j = i
      · subst hj
        rw [Function.update_self] at h
        cases hconn : (s.agents a).conn with
        | none => simp [hconn, Task.aim] at h
        | some old =>
          rw [hconn] at h
          cases h
          exact .finds hi ha hconn
      · rw [Function.update_of_ne hj] at h
        exact .keeps h
  | lock hi hl hfree => exact plain hi rfl hl.aim
  | unlock hi hl => exact plain hi rfl hl.aim
  | dial hi hd => exact plain hi rfl hd.aim
  | @publish i k c task task' hi hp =>
    cases hp with
    | @loop a epoch c' c old =>
      cases old with
      | none => exact plain hi rfl (Or.inl rfl)
      | some old =>
        by_cases hj : j = i
        · subst hj
          rw [St.aim, St.setTask, held_update, Function.update_self] at h
          cases h
          exact .replaces hi rfl
        · rw [St.aim, St.setTask, held_update, Function.update_of_ne hj] at h
          exact .keeps h
    | _ => exact plain hi rfl (Or.inl rfl)
  | @spawn i task task' new hi hs =>
    have hnew : new.aim = none := by cases hs <;> rfl
    have hold : Aimless task task' := by cases hs <;> exact Or.inl rfl
    exact .keeps (held_of_update hi hold (held_of_new hnew h))
  | @shut i old task task' hi hs => exact plain hi (shut_setTask s old i task') hs.aim
  | report hi hr ha => exact plain hi rfl hr.aim
  | @setReady i op hi hmu => exact plain hi rfl (Or.inl (by cases op <;> rfl))
  | setRunning hi hmu => exact plain hi rfl (Or.inl (aim_writes _ _))
  | closeAgent hi hk => exact plain hi (closeAgent_setTask s _ _ _) (Or.inl rfl)
  | changeFuncs hi hmu hr heq => exact plain hi rfl (Or.inl (aim_writes _ _))
  | sent hi hopen => exact plain hi rfl (Or.inr rfl)
  | token hi hl hcap => exact plain hi rfl (Or.inl ((aim_writes _ _).trans (aim_back _ _)))
  | @handoff i j' op inpack job drains err v hi hj hl =>
    have hne : j' ≠ i := by
      rintro rfl
      simp [hi] at hj
    have hmid := held_of_update ((Function.update_of_ne hne ..).trans hj) (Or.inl rfl) h
    exact .keeps (held_of_update hi (Or.inl ((aim_writes _ _).trans (aim_back _ _))) hmid)
  | serve hc => exact .keeps h
  | panic hi hrw => exact .keeps h
  | _ => exact plain (by assumption) rfl (Or.inl rfl)

/-- The loop is about to use the agent's connection on the strength of an earlier check. -/
def LoopPc.relies : LoopPc → Bool
  | .disconnect _ => true
  | .reportDisconnect _ => true
  | .getConn => true
  | .setConn _ _ => true
  | _ => false

/-- No other goroutine has published since the check of a loop that relies on it. -/
def undisplaced (s : St) (act : Act) : Bool :=
  match act.runner.bind s.tasks with
  | some (.loop a epoch _ pc) => !pc.relies || (s.agents a).epoch = epoch
  | _ => true

theorem undisplaced_loop {a epoch c : ℕ} {pc : LoopPc} (hg : undisplaced s act = true)
    (ha : act.runner = some i) (h : s.tasks i = some (.loop a epoch c pc))
    (hp : pc.relies = true) : (s.agents a).epoch = epoch := by
  simpa [undisplaced, ha, h, hp] using hg

theorem conn_of_current (hc : Conns s) (hl : Linked s) {a epoch c c' : ℕ} {pc : LoopPc}
    (h : s.tasks i = some (.loop a epoch c pc)) (he : (s.agents a).epoch = epoch)
    (hconn : (s.agents a).conn = some c') : c' = c := by
  have hrw := (hc.current i _ a epoch c h rfl).2 he.symm
  exact Option.some.inj ((hl a c' hconn).symm.trans hrw)

structure Aimed (s : St) : Prop where
  own : ∀ j p, s.aim j = some p → p.replaced = false → p.old = p.own
  gone : ∀ j p, s.aim j = some p → p.replaced = true → (s.conns p.old).published = true ∧
    (s.agents (s.conns p.old).agent).conn ≠ some p.old

inductive Taker (s : St) (act : Act) (t : St) (k : ℕ) : Prop
  | close {i : ℕ} {op : Op} (h : s.tasks i = some (.call op (.closeAgent k)))
      (ht : t = (s.closeAgent k).setTask i (.call op (.closeAgent (k + 1)))) (ha : act = .task i)
  | publish {i c : ℕ} {task task' : Task} (h : s.tasks i = some task)
      (hp : Publishes (s.nextEpoch k) task k c task') (ht : t = (s.publish k c).setTask i task')
      (ha : act = .task i)

theorem Move.taker (hn : Named s) (hm : Move cfg s act t)
    (hne : (t.agents k).conn ≠ (s.agents k).conn) : Taker s act t k := by
  cases hm.handles hn with
  | still hh hk hu hg => exact absurd (hu.conn k) hne
  | shut hi hs ht ha hh hk hg =>
    subst ht
    simp only [St.setTask, shut_agents] at hne
    exact absurd rfl hne
  | @closeAgent i k' op hi ht ha hh hk hg =>
    by_cases hkk : k = k'
    · subst hkk
      exact .close hi ht ha
    · subst ht
      exact absurd (congrArg Agent.conn (closeAgent_of_ne s hkk)) hne
  | dial hi hd ht hh hg =>
    subst ht
    exact absurd rfl hne
  | @publish i k' c task task' hi hp ht ha =>
    by_cases hkk : k = k'
    · subst hkk
      exact .publish hi hp ht ha
    · subst ht
      simp only [St.setTask, publish_of_ne s c hkk] at hne
      exact absurd rfl hne
  | start hi hs ht ha =>
    subst ht
    exact absurd rfl hne

theorem Move.conn_old (hn : Named s) (hc : Conns s) (hm : Move cfg s act t) {c : ℕ}
    (h : (t.agents k).conn = some c) :
    (s.agents k).conn = some c ∨ (s.conns c).published = false := by
  by_cases heq : (t.agents k).conn = (s.agents k).conn
  · exact Or.inl (heq ▸ h)
  · cases hm.taker hn heq with
    | close hi ht ha =>
      subst ht
      exact absurd ((closeAgent_self s k).symm.trans h) (by simp)
    | @publish i c' task task' hi hp ht ha =>
      subst ht
      simp only [St.setTask, publish_self, Option.some.injEq] at h
      subst h
      exact Or.inr (hc.fresh i task k c' hi hp.dialled.1).2.2

theorem Aimed.move (hi : Aimed s) (hn : Named s) (hc : Conns s) (hl : Linked s) (hh : Held s)
    (hg : undisplaced s act = true) (hm : Move cfg s act t) : Aimed t where
  own := by
    intro j p hp hr
    cases hm.aims hp with
    | keeps h => exact hi.own j p h hr
    | finds h ha hconn => exact conn_of_current hc hl h (undisplaced_loop hg ha h rfl) hconn
    | replaces h ht => cases hr
  gone := by
    have stays : ∀ {c}, (s.conns c).published = true →
        (s.agents (s.conns c).agent).conn ≠ some c → (t.conns c).published = true ∧
          (t.agents (t.conns c).agent).conn ≠ some c := by
      intro c hpub hne
      obtain ⟨hpub', hagent⟩ := hm.shown hc c hpub
      refine ⟨hpub', ?_⟩
      rw [hagent]
      intro hconn
      rcases hm.conn_old hn hc hconn with hold | hunpub
      · exact hne hold
      · exact Bool.false_ne_true (hunpub.symm.trans hpub)
    intro j p hp hr
    cases hm.aims hp with
    | keeps h =>
      obtain ⟨hpub, hne⟩ := hi.gone j p h hr
      exact stays hpub hne
    | finds h ha hconn => cases hr
    | @replaces a epoch c c' old h ht =>
      have hold : old = c := hi.own j ⟨c, old, false⟩ (held_of_eq h) rfl
      subst hold
      obtain ⟨hpub, hagent⟩ := hh.published j ⟨a, epoch, old, true⟩ (held_of_eq h)
      obtain ⟨-, -, hunpub⟩ := hc.fresh j _ a c' h rfl
      obtain ⟨hpub', hagent'⟩ := hm.shown hc old hpub
      refine ⟨hpub', ?_⟩
      rw [hagent', hagent, ht]
      simp only [St.setTask, publish_self, ne_eq, Option.some.injEq]
      rintro rfl
      exact Bool.false_ne_true (hunpub.symm.trans hpub)

theorem aimed_start : Aimed {} where
  own := by
    intro j p h
    cases h
  gone := by
    intro j p h
    cases h

inductive Closer (s : St) (act : Act) (t : St) (c : ℕ) : Prop
  | loop {i : ℕ} {task task' : Task} (h : s.tasks i = some task) (hs : Shuts task (some c) task')
      (ht : t = (s.shut (some c)).setTask i task') (ha : act = .task i)
  | close {i k : ℕ} {op : Op} (h : s.tasks i = some (.call op (.closeAgent k)))
      (hc : (s.agents k).conn = some c)
      (ht : t = (s.closeAgent k).setTask i (.call op (.closeAgent (k + 1)))) (ha : act = .task i)

theorem Move.closer (hn : Named s) (hm : Move cfg s act t) {c : ℕ}
    (hopen : (s.conns c).closed = false) (h : (t.conns c).closed = true) : Closer s act t c := by
  cases hm.handles hn with
  | still hh hk hu hg =>
    rw [hu.closed, hopen] at h
    cases h
  | shut hi hs ht ha hh hk hg =>
    rw [ht] at h
    rcases (shut_closed_iff s _ c).mp h with hcl | rfl
    · exact absurd (hopen.symm.trans hcl) Bool.false_ne_true
    · exact .loop hi hs ht ha
  | @closeAgent i k op hi ht ha hh hk hg =>
    rw [ht] at h
    rcases (shut_closed_iff s (s.agents k).conn c).mp h with hcl | hconn
    · exact absurd (hopen.symm.trans hcl) Bool.false_ne_true
    · exact .close hi hconn ht ha
  | @dial i k task task' hi hd ht hh hg =>
    subst ht
    by_cases hne : c = s.nconn
    · subst hne
      simp [St.setTask, St.dialled, St.setConnAt] at h
    · have heq : ((s.dialled k).setTask i task').conns c = s.conns c :=
        Function.update_of_ne hne ..
      rw [heq, hopen] at h
      cases h
  | publish hi hp ht ha =>
    subst ht
    simp only [St.setTask, publish_closed, hopen] at h
    cases h
  | start hi hs ht ha =>
    subst ht
    exact absurd (hopen.symm.trans h) Bool.false_ne_true

/-- What loop `i` of agent `a` does to a connection with a step, it does to one that it has
got: closing it, replacing it, or reporting a disconnect of its agent. -/
structure Spares (x : St × Ledger) (t : St) (i a : ℕ) : Prop where
  closes : ∀ c, (x.1.conns c).closed = false → (t.conns c).closed = true →
    (i, c) ∈ x.2.gained
  replaces : ∀ k c, (x.1.agents k).conn = some c → (t.agents k).conn ≠ some c →
    (i, c) ∈ x.2.gained
  reports : ∀ err c, (∃ epoch c', t.tasks i = some (.loop a epoch c' (.reportDisconnect err))) ∨
    t.reports = x.1.reports ++ [.disconnect a err] → (x.1.agents a).conn = some c →
    (i, c) ∈ x.2.gained

inductive Turned (s t : St) (i a : ℕ) (pc : LoopPc) : Prop
  | relied {epoch c : ℕ} {pc' : LoopPc} (h : t.tasks i = some (.loop a epoch c pc'))
      (hp : pc.relies = true)
  | quiet {epoch c : ℕ} {pc' : LoopPc} (h : t.tasks i = some (.loop a epoch c pc'))
      (hpc : ∀ err, pc' ≠ .reportDisconnect err) (hr : t.reports = s.reports)
  | loud {epoch c : ℕ} {pc' : LoopPc} {err : Err} (h : t.tasks i = some (.loop a epoch c pc'))
      (hpc : ∀ err, pc' ≠ .reportDisconnect err) (hr : t.reports = s.reports ++ [.err err])

theorem loop_turned {a epoch c : ℕ} {pc : LoopPc} (h : s.tasks i = some (.loop a epoch c pc))
    (ha : act.runner = some i) (hs : step cfg s act = some t) : Turned s t i a pc := by
  cases step_runs h ha hs with
  | task hrun =>
    cases pc with
    | check r =>
      simp only [taskStep, loopStep] at hrun
      split_ifs at hrun with he
      · cases hrun
        exact .quiet (Function.update_self ..) (by simp) rfl
      · cases r with
        | error e =>
          cases hrun
          refine .quiet (Function.update_self ..) ?_ rfl
          intro err
          unfold reaction
          cases onReadError e <;> simp
        | ok data =>
          simp only [reactStep] at hrun
          split at hrun
          · cases hrun
          · cases hrun
            exact .loud (Function.update_self ..) (by simp) rfl
          · cases hrun
            exact .quiet (Function.update_self ..) (by simp) rfl
    | report e =>
      cases hrun
      exact .loud (Function.update_self ..) (by simp) rfl
    | closeOld old =>
      cases hrun
      cases old <;> exact .quiet (Function.update_self ..) (by simp) rfl
    | giveUp old =>
      cases hrun
      cases old <;> exact .quiet (Function.update_self ..) (by simp) rfl
    | disconnect e =>
      cases hrun
      exact .relied (Function.update_self ..) rfl
    | reportDisconnect e =>
      cases hrun
      exact .relied (Function.update_self ..) rfl
    | getConn =>
      cases hrun
      exact .relied (Function.update_self ..) rfl
    | setConn old c' =>
      cases hrun
      exact .relied (Function.update_self ..) rfl
    | _ => cases hrun
  | @dial e hrun =>
    cases pc with
    | dial old =>
      cases e with
      | none =>
        cases hrun
        exact .quiet (Function.update_self ..) (by simp) rfl
      | some e =>
        cases hrun
        exact .loud (Function.update_self ..) (by simp) rfl
    | _ => cases e <;> cases hrun
  | @read e hrun =>
    cases pc with
    | read =>
      cases e with
      | none =>
        simp only [readStep] at hrun
        split at hrun
        · cases hrun
        · cases hrun
          exact .quiet (Function.update_self ..) (by simp) rfl
      | some e =>
        cases hrun
        exact .quiet (Function.update_self ..) (by simp) rfl
    | _ => cases e <;> cases hrun
  | send hrun =>
    cases pc with
    | forward inpack =>
      simp only [sendStep] at hrun
      split_ifs at hrun
      cases hrun
      exact .quiet (Function.update_self ..) (by simp) rfl
    | _ => cases hrun
  | quit hrun =>
    cases pc with
    | forward inpack =>
      simp only [quitStep] at hrun
      split_ifs at hrun
      cases hrun
      exact .quiet (Function.update_self ..) (by simp) rfl
    | _ => cases hrun
  | _ => contradiction

theorem disconnect_step {a epoch c : ℕ} {pc : LoopPc} {err : Err}
    (h : s.tasks i = some (.loop a epoch c pc)) (ha : act.runner = some i)
    (hs : step cfg s act = some t)
    (hr : (∃ epoch c', t.tasks i = some (.loop a epoch c' (.reportDisconnect err))) ∨
      t.reports = s.reports ++ [.disconnect a err]) : pc.relies = true := by
  cases loop_turned h ha hs with
  | relied htask hp => exact hp
  | quiet htask hpc hrep =>
    rcases hr with ⟨_, _, htask'⟩ | hrep'
    · cases htask.symm.trans htask'
      exact absurd rfl (hpc err)
    · simp [hrep] at hrep'
  | loud htask hpc hrep =>
    rcases hr with ⟨_, _, htask'⟩ | hrep'
    · cases htask.symm.trans htask'
      exact absurd rfl (hpc err)
    · simp [hrep] at hrep'

structure Fenced (x : St × Ledger) : Prop extends Attended x where
  linked : Linked x.1
  aimed : Aimed x.1
  replaced : ∀ j p, x.1.aim j = some p → p.replaced = true → (j, p.old) ∈ x.2.gained

theorem Fenced.step {x y : St × Ledger} (hi : Fenced x) (hg : undisplaced x.1 act = true)
    (h : traced (step cfg) Ledger.note x act = some y) : Fenced y := by
  obtain ⟨hs, hy⟩ := traced_eq_some.mp h
  have hm : Move cfg x.1 act y.1 := step_move hs
  refine ⟨hi.toAttended.step h, hi.linked.move hi.named hm,
    hi.aimed.move hi.named hi.conns hi.linked hi.held hg hm, ?_⟩
  intro j p hp hr
  rw [hy]
  refine List.mem_append_left _ ?_
  cases hm.aims hp with
  | keeps hold => exact hi.replaced j p hold hr
  | finds hloop ha hconn => cases hr
  | @replaces a epoch c c' old hloop ht =>
    have hold : old = c := hi.aimed.own j ⟨c, old, false⟩ (held_of_eq hloop) rfl
    subst hold
    exact hi.owned.reader j ⟨a, epoch, old, true⟩ (held_of_eq hloop) rfl

theorem fenced_reachable {x : St × Ledger}
    (h : Reachable (traced (step cfg) Ledger.note) (fun x => undisplaced x.1) ({}, {}) x) :
    Fenced x :=
  h.invariant ⟨attended_start, linked_start, aimed_start, fun j p hp => by cases hp⟩
    (fun _ _ _ hi hg hs => hi.step hg hs)

theorem superseded_loop_spares {x : St × Ledger} {a epoch c : ℕ} {pc : LoopPc}
    (h : Reachable (traced (step cfg) Ledger.note) (fun x => undisplaced x.1) ({}, {}) x)
    (hg : undisplaced x.1 act = true) (hs : step cfg x.1 act = some t)
    (ha : act.runner = some i) (hloop : x.1.tasks i = some (.loop a epoch c pc)) :
    Spares x t i a := by
  have hi := fenced_reachable h
  have hm : Move cfg x.1 act t := step_move hs
  have hmine : (i, c) ∈ x.2.gained :=
    hi.owned.reader i ⟨a, epoch, c, true⟩ (held_of_eq hloop) rfl
  have hrelies : ∀ {c'}, pc.relies = true → (x.1.agents a).conn = some c' →
      (i, c') ∈ x.2.gained := by
    intro c' hp hconn
    have he := undisplaced_loop hg ha hloop hp
    exact conn_of_current hi.conns hi.linked hloop he hconn ▸ hmine
  have hsame : ∀ {j task}, x.1.tasks j = some task → act = .task j →
      j = i ∧ task = .loop a epoch c pc := by
    intro j task hj hact
    subst hact
    cases ha
    exact ⟨rfl, Option.some.inj (hj.symm.trans hloop)⟩
  refine ⟨?_, ?_, ?_⟩
  · intro c' hopen hclosed
    cases hm.closer hi.named hopen hclosed with
    | close hj hc ht hact => cases (hsame hj hact).2
    | @loop j task task' hj hshut ht hact =>
      obtain ⟨rfl, rfl⟩ := hsame hj hact
      cases hshut with
      | replaced => exact hi.replaced j ⟨c, c', true⟩ (held_of_eq hj) rfl
      | gaveUp =>
        have hown : c' = c := hi.aimed.own j ⟨c, c', false⟩ (held_of_eq hj) rfl
        exact hown ▸ hmine
  · intro k c' hconn hne
    rw [← hconn] at hne
    cases hm.taker hi.named hne with
    | close hj ht hact => cases (hsame hj hact).2
    | publish hj hp ht hact =>
      obtain ⟨rfl, rfl⟩ := hsame hj hact
      cases hp with
      | loop => exact hrelies rfl hconn
  · intro err c' hr hconn
    exact hrelies (disconnect_step hloop ha hs hr) hconn

theorem redial_spares :
    ∃ x t, run (traced (step oneAgent) Ledger.note) (fun x => undisplaced x.1) ({}, {})
        (brokenActs (badMagic foreignBytes) ++ [.task 2, .task 2, .task 2, .dial 2 none, .task 2]) =
          some x ∧
      step oneAgent x.1 (.task 2) = some t ∧ (t.conns 0).closed = true ∧ Spares x t 2 0 := by
  obtain ⟨x, t, hx, ht, hg, hloop, hclosed⟩ :
      ∃ x t, run (traced (step oneAgent) Ledger.note) (fun x => undisplaced x.1) ({}, {})
          (brokenActs (badMagic foreignBytes) ++
            [.task 2, .task 2, .task 2, .dial 2 none, .task 2]) = some x ∧
        step oneAgent x.1 (.task 2) = some t ∧ undisplaced x.1 (.task 2) = true ∧
        x.1.tasks 2 = some (.loop 0 2 1 (.closeOld (some 0))) ∧ (t.conns 0).closed = true :=
    ⟨_, _, rfl, rfl, rfl, rfl, rfl⟩
  exact ⟨x, t, hx, ht, hclosed, superseded_loop_spares ⟨_, hx⟩ hg ht rfl hloop⟩

def displacedActs (e : Err) : List Act :=
  resumedActs ++ [.read 4 (some e), .task 4, .call (.reconnect 0), .dial 5 none, .task 5]

/-- The loop goes on to replace and to close connection 2, which is not its own, or to
report it as lost. -/
theorem superseded_loop_strikes :
    (∃ x t u, run (traced (step oneAgent) Ledger.note) always ({}, {})
        (displacedActs (badMagic foreignBytes) ++ [.task 4, .task 4, .dial 4 none]) = some x ∧
      x.2.gained = [(2, 0), (4, 1)] ∧ (x.1.agents 0).conn = some 2 ∧
      step oneAgent x.1 (.task 4) = some t ∧ (t.agents 0).conn = some 3 ∧
      (t.conns 2).closed = false ∧ step oneAgent t (.task 4) = some u ∧
      (u.conns 2).closed = true) ∧
    (∃ x t, run (traced (step oneAgent) Ledger.note) always ({}, {})
        (displacedActs (.read .eof) ++ [.task 4]) = some x ∧
      x.2.gained = [(2, 0), (4, 1)] ∧ (x.1.agents 0).conn = some 2 ∧
      step oneAgent x.1 (.task 4) = some t ∧
      t.reports = x.1.reports ++ [.disconnect 0 (.read .eof)]) :=
  ⟨⟨_, _, _, rfl, rfl, rfl, rfl, rfl, rfl, rfl, rfl⟩, ⟨_, _, rfl, rfl, rfl, rfl, rfl⟩⟩

end Gearman.Worker.Machine
