import Gearman.WorkerFencing

/-!
# What a `Connect` that succeeds promises

`Connect` takes an agent with a connection for connected. The connection stays when its
loop ends, whether after a report or because a redial has failed, and it is there before
`reconnect` starts the loop. So a `Connect` that finds a connection has succeeded with a
loop that has ended, or that is yet to start.
-/

namespace Gearman.Worker.Machine
open Transition Custody

/-- The agent's connection is open, and a loop of the current epoch runs for it. -/
def Live (s : St) (k : ℕ) : Prop :=
  ∃ c i pc, (s.agents k).conn = some c ∧ (s.conns c).closed = false ∧
    s.tasks i = some (.loop k (s.agents k).epoch c pc) ∧ pc ≠ .done

def LoopEnded (s : St) (k : ℕ) : Prop :=
  ∃ i c, s.tasks i = some (.loop k (s.agents k).epoch c .done)

def LoopDue (s : St) (k : ℕ) : Prop :=
  ∃ i p, s.holding i = some p ∧ p.agent = k ∧ p.epoch = (s.agents k).epoch ∧ p.reads = false

def Task.connected : Task → Option ℕ
  | .write _ _ next => next.connected
  | .call _ (.goWork k _ _ _) => some k
  | .call _ (.unlock k _ none) => some k
  | _ => none

variable {cfg : Cfg} {s t : St} {act : Act} {i k : ℕ} {task task' new : Task}

def Unconnected (task task' : Task) : Prop :=
  task'.connected = none ∨ task'.connected = task.connected

theorem connected_writes (todo : List (ℕ × OutPack)) (next : Task) :
    (writes todo next).connected = next.connected := by
  cases todo <;> rfl

theorem connected_back (op : Op) (drains : Bool) : (back op drains).connected = none := by
  cases drains <;> rfl

theorem connected_answer (s : St) (inpack : InPack) (r : Result) :
    (answer s inpack r).connected = none := by
  unfold answer
  split_ifs
  · exact connected_writes _ _
  · rfl

theorem connected_entry (cfg : Cfg) (op : Op) : (entry cfg op).connected = none := by
  cases op <;> first | rfl | exact connected_writes _ _

theorem Local.unconnected (hl : Local cfg s task task') : Unconnected task task' ∨
    ∃ k, task'.connected = some k ∧ (s.agents k).conn ≠ none := by
  cases hl with
  | @getConn op k funcs =>
    split_ifs with hconn
    · exact Or.inr ⟨k, rfl, Option.isSome_iff_ne_none.mp hconn⟩
    · exact Or.inl (Or.inl rfl)
  | ready => split_ifs <;> exact Or.inl (Or.inl rfl)
  | snapshot hmu => split_ifs <;> exact Or.inl (Or.inl rfl)
  | isReady hmu => split_ifs <;> exact Or.inl (Or.inl rfl)
  | announce hk ho => exact Or.inl (Or.inl (connected_writes _ _))
  | noJob ht => exact Or.inl (Or.inl ((connected_writes _ _).trans (connected_back _ _)))
  | noop ht => exact Or.inl (Or.inl ((connected_writes _ _).trans (connected_back _ _)))
  | unlimited hl => exact Or.inl (Or.inl ((connected_writes _ _).trans (connected_back _ _)))
  | reannounce hmu ho => exact Or.inl (Or.inl (connected_writes _ _))
  | answer hmu => exact Or.inl (Or.inl (connected_answer _ _ _))
  | getRW hrw => exact Or.inl (Or.inr rfl)
  | flushFailed => exact Or.inl (Or.inr rfl)
  | _ => exact Or.inl (Or.inl rfl)

theorem Locks.unconnected (hl : Locks cfg task k task') : Unconnected task task' := by
  cases hl <;> exact Or.inr rfl

theorem Unlocks.unconnected (hl : Unlocks task k task') : Unconnected task task' := by
  cases hl with
  | written => exact Or.inr (connected_writes _ _)
  | _ => exact Or.inl rfl

theorem Reports.unconnected {rs : List Report} (hr : Reports cfg s task rs task') :
    Unconnected task task' := by
  cases hr with
  | serverErr ht => exact Or.inl (connected_back _ _)
  | custome ht hj => exact Or.inl (connected_back _ _)
  | _ => exact Or.inl rfl

theorem Move.connected (hm : Move cfg s act t) {j : ℕ}
    (h : held Task.connected t.tasks j = some k) :
    held Task.connected s.tasks j = some k ∨ (t.agents k).conn ≠ none := by
  have plain : ∀ {i : ℕ} {task task' : Task}, s.tasks i = some task →
      t.tasks = Function.update s.tasks i (some task') → Unconnected task task' →
      held Task.connected s.tasks j = some k ∨ (t.agents k).conn ≠ none := by
    intro i task task' hi ht hl
    rw [ht] at h
    exact Or.inl (held_of_update hi hl h)
  cases hm with
  | call op hc => exact Or.inl (held_of_new (connected_entry cfg op) h)
  | @pc act i task task' hi hl ha =>
    rcases hl.unconnected with hl | ⟨k', hk', hconn⟩
    · exact plain hi rfl hl
    · rw [St.setTask, held_update, hk'] at h
      rcases update_eq_some h with ⟨-, rfl⟩ | ⟨-, h⟩
      · exact Or.inr hconn
      · exact Or.inl h
  | lock hi hl hfree => exact plain hi rfl hl.unconnected
  | unlock hi hl => exact plain hi rfl hl.unconnected
  | dial hi hd => exact plain hi rfl (by cases hd <;> exact Or.inl rfl)
  | @publish i k' c task task' hi hp =>
    cases hp with
    | connect =>
      rw [St.setTask, held_update] at h
      rcases update_eq_some h with ⟨-, rfl⟩ | ⟨-, h⟩
      · simp only [St.setTask, publish_self, ne_eq, reduceCtorEq, not_false_eq_true, or_true]
      · exact Or.inl h
    | _ => exact plain hi rfl (Or.inl rfl)
  | @spawn i task task' new hi hs =>
    have hnew : new.connected = none := by cases hs <;> rfl
    have hold : Unconnected task task' := by
      cases hs with
      | connect => exact Or.inr rfl
      | _ => exact Or.inl rfl
    exact Or.inl (held_of_update hi hold (held_of_new hnew h))
  | @shut i old task task' hi hs =>
    exact plain hi (shut_setTask s old i task') (by cases hs <;> exact Or.inl rfl)
  | report hi hr ha => exact plain hi rfl hr.unconnected
  | @setReady i op hi hmu => exact plain hi rfl (Or.inl (by cases op <;> rfl))
  | setRunning hi hmu => exact plain hi rfl (Or.inl (connected_writes _ _))
  | closeAgent hi hk => exact plain hi (closeAgent_setTask s _ _ _) (Or.inl rfl)
  | changeFuncs hi hmu hr heq => exact plain hi rfl (Or.inl (connected_writes _ _))
  | sent hi hopen => exact plain hi rfl (Or.inr rfl)
  | token hi hl hcap =>
    exact plain hi rfl (Or.inl ((connected_writes _ _).trans (connected_back _ _)))
  | @handoff i j' op inpack job drains err v hi hj hl =>
    have hne : j' ≠ i := by
      rintro rfl
      simp [hi] at hj
    have hmid := held_of_update ((Function.update_of_ne hne ..).trans hj) (Or.inl rfl) h
    exact Or.inl (held_of_update hi
      (Or.inl ((connected_writes _ _).trans (connected_back _ _))) hmid)
  | serve hc => exact Or.inl h
  | panic hi hrw => exact Or.inl h
  | _ => exact plain (by assumption) rfl (Or.inl rfl)

theorem Move.conn_stays (hi : Tended s) (hm : Move cfg s act t)
    (h : (s.agents k).conn ≠ none ∨ s.closed = true) :
    (t.agents k).conn ≠ none ∨ t.closed = true := by
  cases hm.effect with
  | steady hf hk =>
    rcases h with h | h
    · rcases hk.conn k with heq | ⟨i, task, htask, hc⟩
      · exact Or.inl (heq ▸ h)
      · exact Or.inr (hk.closed (hi.closing i task htask hc))
    · exact Or.inr (hk.closed h)
  | dial hi' hd ht =>
    subst ht
    exact h
  | @publish i k' c task task' hi' hp ht =>
    subst ht
    refine h.imp ?_ id
    intro h
    by_cases hk : k = k'
    · subst hk
      simp [St.setTask, publish_self]
    · simpa [St.setTask, publish_of_ne s c hk] using h

def Connected (s : St) : Prop := ∀ j k, held Task.connected s.tasks j = some k →
  (s.agents k).conn ≠ none ∨ s.closed = true

theorem Connected.move (hi : Connected s) (ht : Tended s) (hm : Move cfg s act t) :
    Connected t := by
  intro j k h
  rcases hm.connected h with h | h
  · exact hm.conn_stays ht (hi j k h)
  · exact Or.inl h

theorem loop_stays (hn : Named s) {a epoch c : ℕ} {pc : LoopPc}
    (h : s.tasks i = some (.loop a epoch c pc)) (hs : step cfg s act = some t) :
    ∃ epoch' c' pc', t.tasks i = some (.loop a epoch' c' pc') := by
  by_cases ha : act.runner = some i
  · cases loop_turned h ha hs with
    | relied ht hp => exact ⟨_, _, _, ht⟩
    | quiet ht hpc hr => exact ⟨_, _, _, ht⟩
    | loud ht hpc hr => exact ⟨_, _, _, ht⟩
  · exact ⟨epoch, c, pc, (step_move hs).frame hn h (by simp) ha⟩

theorem done_stays (hn : Named s) {a epoch c : ℕ} (h : s.tasks i = some (.loop a epoch c .done))
    (hs : step cfg s act = some t) : t.tasks i = some (.loop a epoch c .done) := by
  by_cases ha : act.runner = some i
  · cases step_runs h ha hs with
    | task hrun => cases hrun
    | @dial err hrun => cases err <;> cases hrun
    | @read err hrun => cases err <;> cases hrun
    | send hrun => cases hrun
    | quit hrun => cases hrun
    | _ => contradiction
  · exact (step_move hs).frame hn h (by simp) ha

theorem Publishes.holding_before {e c : ℕ} (hp : Publishes e task k c task') {p : Holding}
    (h : task.holding = some p) : p.agent = k := by
  cases hp with
  | loop =>
    cases h
    rfl
  | _ => cases h

/-- Only what has been published is closed, and a closed connection is an agent's current one
only after its loop has ended. -/
structure Sealed (s : St) : Prop where
  published : ∀ c, (s.conns c).closed = true → (s.conns c).published = true
  ended : ∀ k c, (s.agents k).conn = some c → (s.conns c).closed = true →
    ∃ j epoch, s.tasks j = some (.loop k epoch c .done)

theorem Aimed.published (hi : Aimed s) (hh : Held s) {a epoch c : ℕ} {pc : LoopPc} {p : Aim}
    (h : s.tasks i = some (.loop a epoch c pc)) (hp : s.aim i = some p) (hown : p.own = c) :
    (s.conns p.old).published = true := by
  cases hr : p.replaced with
  | true => exact (hi.gone i p hp hr).1
  | false =>
    rw [hi.own i p hp hr, hown]
    exact (hh.published i ⟨a, epoch, c, true⟩ (held_of_eq h)).1

theorem Sealed.published_step (hi : Sealed s) (hn : Named s) (hc : Conns s) (hl : Linked s)
    (hh : Held s) (ha : Aimed s) (hm : Move cfg s act t) {c : ℕ}
    (h : (t.conns c).closed = true) : (t.conns c).published = true := by
  have stays : (s.conns c).published = true → (t.conns c).published = true :=
    fun hpub => (hm.shown hc c hpub).1
  cases hcl : (s.conns c).closed with
  | true => exact stays (hi.published c hcl)
  | false =>
    cases hm.closer hn hcl h with
    | close hi' hconn ht hact => exact stays (hc.conn hl hconn).2
    | loop hi' hs ht hact =>
      cases hs with
      | replaced => exact stays (ha.published hh hi' (p := ⟨_, c, true⟩) (held_of_eq hi') rfl)
      | gaveUp => exact stays (ha.published hh hi' (p := ⟨_, c, false⟩) (held_of_eq hi') rfl)

theorem Sealed.ended_step (hi : Sealed s) (hn : Named s) (hc : Conns s) (hl : Linked s)
    (hh : Held s) (ha : Aimed s) (hs : step cfg s act = some t) {c : ℕ}
    (hconn : (t.agents k).conn = some c) (h : (t.conns c).closed = true) :
    ∃ j epoch, t.tasks j = some (.loop k epoch c .done) := by
  have hm : Move cfg s act t := step_move hs
  cases hcl : (s.conns c).closed with
  | true =>
    rcases hm.conn_old hn hc hconn with hold | hunpub
    · obtain ⟨j, epoch, hdone⟩ := hi.ended k c hold hcl
      exact ⟨j, epoch, done_stays hn hdone hs⟩
    · exact absurd (hunpub.symm.trans (hi.published c hcl)) Bool.false_ne_true
  | false =>
    cases hm.closer hn hcl h with
    | @close i k' op hi' hother ht hact =>
      subst ht
      by_cases hkk : k = k'
      · subst hkk
        exact absurd ((closeAgent_self s k).symm.trans hconn) (by simp)
      · have hold : (s.agents k).conn = some c :=
          (congrArg Agent.conn (closeAgent_of_ne s hkk)).symm.trans hconn
        exact absurd ((hc.conn hl hold).1.symm.trans (hc.conn hl hother).1) hkk
    | @loop i task task' hi' hsh ht hact =>
      subst ht
      simp only [St.setTask, shut_agents] at hconn
      have hagent := (hc.conn hl hconn).1
      cases hsh with
      | replaced =>
        have hgone := (ha.gone i ⟨_, c, true⟩ (held_of_eq hi') rfl).2
        rw [hagent] at hgone
        exact absurd hconn hgone
      | @gaveUp a epoch c₀ =>
        have hown : c = c₀ := ha.own i ⟨c₀, c, false⟩ (held_of_eq hi') rfl
        subst hown
        have hag := (hh.published i ⟨a, epoch, c, true⟩ (held_of_eq hi')).2
        cases hagent.symm.trans hag
        exact ⟨i, epoch, Function.update_self ..⟩

structure Kept (s : St) : Prop where
  named : Named s
  conns : Conns s
  linked : Linked s
  held : Held s
  tended : Tended s
  aimed : Aimed s
  connected : Connected s
  sealed : Sealed s

theorem Kept.step (hi : Kept s) (hg : undisplaced s act = true) (hs : step cfg s act = some t) :
    Kept t := by
  have hm : Move cfg s act t := step_move hs
  exact {
    named := hi.named.move hm
    conns := hi.conns.move hm
    linked := hi.linked.move hi.named hm
    held := hi.held.move hi.named hi.conns hm
    tended := hi.tended.move hm
    aimed := hi.aimed.move hi.named hi.conns hi.linked hi.held hg hm
    connected := hi.connected.move hi.tended hm
    sealed := ⟨fun _ h =>
        hi.sealed.published_step hi.named hi.conns hi.linked hi.held hi.aimed hm h,
      fun _ _ hconn h =>
        hi.sealed.ended_step hi.named hi.conns hi.linked hi.held hi.aimed hs hconn h⟩ }

theorem kept_start : Kept {} where
  named := named_start
  conns := conns_start
  linked := linked_start
  held := held_start
  tended := tended_start
  aimed := aimed_start
  connected := by
    intro j k h
    cases h
  sealed := by
    refine ⟨?_, ?_⟩
    · intro c h
      cases h
    · intro k c h
      cases h

theorem Kept.live_of_loop (hi : Kept s) {c c' : ℕ} {pc : LoopPc}
    (hconn : (s.agents k).conn = some c)
    (hloop : s.tasks i = some (.loop k (s.agents k).epoch c' pc)) (hpc : pc ≠ .done) :
    Live s k := by
  have hown : c = c' := conn_of_current hi.conns hi.linked hloop rfl hconn
  subst hown
  refine ⟨c, i, pc, hconn, ?_, hloop, hpc⟩
  by_contra hclosed
  obtain ⟨j, epoch, hdone⟩ := hi.sealed.ended k c hconn (by simpa using hclosed)
  have hij : i = j := hi.held.conn i j _ _ (held_of_eq hloop) (held_of_eq hdone) rfl
  subst hij
  cases hloop.symm.trans hdone
  exact hpc rfl

theorem Kept.not_ended (hi : Kept s) (hlive : Live s k) : ¬ LoopEnded s k := by
  obtain ⟨c, i, pc, -, -, hloop, hpc⟩ := hlive
  rintro ⟨j, c', hdone⟩
  have hij : i = j := hi.held.epoch i j _ _ (held_of_eq hloop) (held_of_eq hdone) rfl
  subst hij
  cases hloop.symm.trans hdone
  exact hpc rfl

theorem Kept.not_due (hi : Kept s) (hlive : Live s k) : ¬ LoopDue s k := by
  obtain ⟨c, i, pc, -, -, hloop, -⟩ := hlive
  have hhold : s.holding i = some ⟨k, (s.agents k).epoch, c, true⟩ := held_of_eq hloop
  rintro ⟨j, p, hp, hagent, hepoch, hreads⟩
  have hij : i = j := hi.held.epoch i j _ p hhold hp (Prod.ext hagent.symm hepoch.symm)
  subst hij
  cases hhold.symm.trans hp
  cases hreads

theorem kept_reachable (h : Reachable (step cfg) undisplaced {} s) : Kept s :=
  h.invariant kept_start (fun _ _ _ hi hg hs => hi.step hg hs)

/-- What the steps of a run have last done for the connection of an agent. It is `due` when it has
been published by who is to start its loop, `served` from that start on, or at once if a loop has
published it for itself, and `left` when that loop has ended over its read or a failed redial. -/
inductive Fate
  | unconnected
  | due
  | served
  | left
deriving DecidableEq, Repr

/-- What the next step of a task does for the connection of an agent. What is done under an epoch
that is no longer the current one does nothing for it. -/
def Task.fate (s : St) : Task → Option (ℕ × Fate)
  | .call _ (.setConn k _ _) => some (k, .due)
  | .call _ (.republish a _) => some (a, .due)
  | .call _ (.goWork k epoch _ _) => if (s.agents k).epoch = epoch then some (k, .served) else none
  | .call _ (.resume a epoch _) => if (s.agents a).epoch = epoch then some (a, .served) else none
  | .loop a _ _ (.setConn _ _) => some (a, .served)
  | .loop a epoch _ (.reportDisconnect _) =>
    if (s.agents a).epoch = epoch then some (a, .left) else none
  | .loop a epoch _ (.giveUp _) => if (s.agents a).epoch = epoch then some (a, .left) else none
  | _ => none

def fateOf (s : St) : Act → Option (ℕ × Fate)
  | .task i => (s.tasks i).bind (Task.fate s)
  | _ => none

def noteFate (fates : ℕ → Fate) (s : St) (act : Act) (_ : St) : ℕ → Fate :=
  match fateOf s act with
  | some (k, fate) => Function.update fates k fate
  | none => fates

def Bears (s : St) (k : ℕ) : Fate → Prop
  | .unconnected => (s.agents k).conn = none
  | .due => LoopDue s k
  | .served => ∃ i c pc, s.tasks i = some (.loop k (s.agents k).epoch c pc) ∧ pc ≠ .done
  | .left => LoopEnded s k

theorem fateOf_task (h : s.tasks i = some task) : fateOf s (.task i) = task.fate s := by
  simp [fateOf, h]

/-- On a worker that is not closed, the loop of the current epoch ends over its read or over a
failed redial. -/
theorem loop_leaves (hn : Named s) (ht : Tended s) (hq : s.quit = true → s.closed = true)
    (hopen : s.closed = false) {epoch c c' : ℕ} {pc : LoopPc}
    (h : s.tasks i = some (.loop k epoch c pc)) (he : (s.agents k).epoch = epoch)
    (hpc : pc ≠ .done) (hs : step cfg s act = some t)
    (hend : t.tasks i = some (.loop k epoch c' .done)) : fateOf s act = some (k, .left) := by
  by_cases ha : act.runner = some i
  · cases step_runs h ha hs with
    | task hrun =>
      cases pc with
      | check r =>
        simp only [taskStep, loopStep, he, ne_eq, not_true, if_false] at hrun
        cases r with
        | error e =>
          cases hrun
          simp only [St.setTask, Function.update_self, Option.some.injEq, Task.loop.injEq,
            true_and] at hend
          have hreact : reaction e ≠ .done := by
            unfold reaction
            cases onReadError e <;> simp
          exact absurd hend.2 hreact
        | ok data =>
          simp only [reactStep] at hrun
          split at hrun
          · cases hrun
          · cases hrun
            simp [St.setTask, St.report] at hend
          · cases hrun
            simp [St.setTask] at hend
      | disconnect e =>
        rcases ht.conn i _ k epoch c h rfl with hconn | hclosed
        · cases hrun
          simp [St.setTask, Option.isSome_iff_ne_none.mpr hconn] at hend
        · exact absurd (hopen.symm.trans hclosed) Bool.false_ne_true
      | reportDisconnect e => simp [fateOf_task h, Task.fate, he]
      | giveUp old => simp [fateOf_task h, Task.fate, he]
      | setConn old c'' =>
        cases hrun
        simp [St.setTask] at hend
      | closeOld old =>
        cases hrun
        simp [St.setTask] at hend
      | report e =>
        cases hrun
        simp [St.setTask] at hend
      | getConn =>
        cases hrun
        simp [St.setTask] at hend
      | done => exact absurd rfl hpc
      | _ => cases hrun
    | @dial err hrun =>
      cases pc with
      | dial old =>
        cases err <;> cases hrun <;> simp [St.setTask] at hend
      | _ => cases err <;> cases hrun
    | @read err hrun =>
      cases pc with
      | read =>
        cases err with
        | some e =>
          cases hrun
          simp [St.setTask] at hend
        | none =>
          simp only [readStep] at hrun
          split at hrun
          · cases hrun
          · cases hrun
            simp [St.setTask] at hend
      | _ => cases err <;> cases hrun
    | send hrun =>
      cases pc with
      | forward inpack =>
        simp only [sendStep] at hrun
        split_ifs at hrun
        cases hrun
        simp [St.setTask] at hend
      | _ => cases hrun
    | quit hrun =>
      cases pc with
      | forward inpack =>
        simp only [quitStep] at hrun
        split_ifs at hrun with hquit
        exact absurd (hopen.symm.trans (hq hquit)) Bool.false_ne_true
      | _ => cases hrun
    | _ => contradiction
  · have hkeep := (step_move hs).frame hn h (by simp) ha
    cases hkeep.symm.trans hend
    exact absurd rfl hpc

theorem Bears.keep (hn : Named s) {fate : Fate} (hb : Bears s k fate)
    (hs : step cfg s act = some t) (hconn : (t.agents k).conn = (s.agents k).conn)
    (he : (t.agents k).epoch = (s.agents k).epoch)
    (hh : ∀ j p, s.holding j = some p → p.agent = k → p.epoch = (s.agents k).epoch →
      t.holding j = some p)
    (hend : ∀ j c c' pc, s.tasks j = some (.loop k (s.agents k).epoch c pc) → pc ≠ .done →
      t.tasks j ≠ some (.loop k (s.agents k).epoch c' .done)) : Bears t k fate := by
  cases fate with
  | unconnected => exact hconn.trans hb
  | due =>
    obtain ⟨j, p, hp, hagent, hepoch, hreads⟩ := hb
    exact ⟨j, p, hh j p hp hagent hepoch, hagent, hepoch.trans he.symm, hreads⟩
  | served =>
    obtain ⟨j, c, pc, hloop, hpc⟩ := hb
    obtain ⟨epoch', c', pc', hloop'⟩ := loop_stays hn hloop hs
    have hold : s.holding j = some ⟨k, (s.agents k).epoch, c, true⟩ := held_of_eq hloop
    have hnew : t.holding j = some ⟨k, epoch', c', true⟩ := held_of_eq hloop'
    cases (hh j _ hold rfl rfl).symm.trans hnew
    refine ⟨j, c, pc', by rw [he]; exact hloop', ?_⟩
    rintro rfl
    exact hend j c c pc hloop hpc hloop'
  | left =>
    obtain ⟨j, c, hdone⟩ := hb
    exact ⟨j, c, by rw [he]; exact done_stays hn hdone hs⟩

structure Fated (x : St × (ℕ → Fate)) : Prop extends Kept x.1 where
  quit : x.1.quit = true → x.1.closed = true
  bears : x.1.closed = false → ∀ k, Bears x.1 k (x.2 k)

theorem Move.closed_stays (hm : Move cfg s act t) (h : s.closed = true) : t.closed = true := by
  cases hm.effect with
  | steady hf hk => exact hk.closed h
  | dial hi hd ht =>
    subst ht
    exact h
  | publish hi hp ht =>
    subst ht
    exact h

theorem Move.quit_closed (hm : Move cfg s act t) (ht : Tended s)
    (hq : s.quit = true → s.closed = true) (h : t.quit = true) : t.closed = true := by
  have stays : s.closed = true → t.closed = true := hm.closed_stays
  cases hm with
  | closeQuit hi => exact stays (ht.closing _ _ hi rfl)
  | closeAgent hi hk => exact stays (ht.closing _ _ hi rfl)
  | @shut i old task task' hi hs => cases old <;> exact stays (hq h)
  | _ => exact stays (hq h)

theorem noteFate_of_none {fates : ℕ → Fate} (h : fateOf s act = none) (t : St) :
    noteFate fates s act t = fates := by
  simp [noteFate, h]

theorem noteFate_of_some {fates : ℕ → Fate} {fate : Fate} (h : fateOf s act = some (k, fate))
    (t : St) : noteFate fates s act t = Function.update fates k fate := by
  simp [noteFate, h]

theorem bears_update {fates : ℕ → Fate} {fate : Fate} (hk : Bears t k fate)
    (hother : ∀ k', k' ≠ k → Bears t k' (fates k')) (k' : ℕ) :
    Bears t k' (Function.update fates k fate k') := by
  by_cases hne : k' = k
  · subst hne
    rwa [Function.update_self]
  · rw [Function.update_of_ne hne]
    exact hother k' hne

theorem Fated.still {x : St × (ℕ → Fate)} (hi : Fated x) (hopen : x.1.closed = false)
    (hs : step cfg x.1 act = some t) (hh : t.holding = x.1.holding)
    (hconn : ∀ k, (t.agents k).conn = (x.1.agents k).conn)
    (he : ∀ k, (t.agents k).epoch = (x.1.agents k).epoch)
    (hf : ∀ k fate, fateOf x.1 act = some (k, fate) → fate = .left ∧ LoopEnded t k) (k : ℕ) :
    Bears t k (noteFate x.2 x.1 act t k) := by
  have keep : ∀ k, fateOf x.1 act ≠ some (k, .left) → Bears t k (x.2 k) := by
    intro k hne
    refine (hi.bears hopen k).keep hi.named hs (hconn k) (he k) (fun j p hp _ _ => hh ▸ hp) ?_
    intro j c c' pc hloop hpc hend
    exact hne (loop_leaves hi.named hi.tended hi.quit hopen hloop rfl hpc hs hend)
  cases hev : fateOf x.1 act with
  | none =>
    rw [noteFate_of_none hev]
    exact keep k (by rw [hev]; simp)
  | some e =>
    obtain ⟨k', fate⟩ := e
    obtain ⟨rfl, hended⟩ := hf k' fate hev
    rw [noteFate_of_some hev]
    have hleft : Bears t k' .left := hended
    refine bears_update hleft ?_ k
    intro k'' hne
    refine keep k'' ?_
    rw [hev]
    simpa [eq_comm] using hne

theorem fateOf_still (hn : Named s) {fate : Fate} (hs : step cfg s act = some t)
    (hh : t.holding = s.holding) (he : ∀ k, (t.agents k).epoch = (s.agents k).epoch)
    (hf : fateOf s act = some (k, fate)) : fate = .left ∧ LoopEnded t k := by
  -- Who publishes raises the epoch, and who starts a loop gives the connection away.
  have hpub : ∀ {i k c : ℕ} {task' : Task}, t ≠ (s.publish k c).setTask i task' := by
    rintro i k c task' rfl
    have hk := he k
    simp [St.setTask, publish_self, St.nextEpoch] at hk
  have hspawn : ∀ {i k epoch c : ℕ} {task' : Task},
      t ≠ (s.setTask i task').spawn (.loop k epoch c .read) := by
    rintro i k epoch c task' rfl
    have hnew : ((s.setTask i task').spawn (.loop k epoch c .read)).holding s.ntask =
        some ⟨k, epoch, c, true⟩ := held_of_eq (Function.update_self ..)
    have hnone : s.holding s.ntask = none := by
      rw [St.holding, held, hn.new_none, Option.bind_none]
    rw [hh, hnone] at hnew
    cases hnew
  cases act with
  | task i =>
    obtain ⟨task, htask, hf⟩ := Option.bind_eq_some_iff.mp hf
    cases step_runs htask rfl hs with
    | task hrun =>
      cases task with
      | write todo stage next => cases hf
      | exec inpack pc => cases hf
      | call op pc =>
        cases pc with
        | setConn k' c funcs => exact absurd (Option.some.inj hrun).symm hpub
        | republish a c => exact absurd (Option.some.inj hrun).symm hpub
        | goWork k' epoch c funcs => exact absurd (Option.some.inj hrun).symm hspawn
        | resume a epoch c => exact absurd (Option.some.inj hrun).symm hspawn
        | _ => cases hf
      | loop a epoch c pc =>
        cases pc with
        | setConn old c' => exact absurd (Option.some.inj hrun).symm hpub
        | reportDisconnect err =>
          simp only [Task.fate] at hf
          split_ifs at hf with hcur
          cases hf
          refine ⟨rfl, i, c, ?_⟩
          rw [he, hcur]
          cases hrun
          exact Function.update_self ..
        | giveUp old =>
          simp only [Task.fate] at hf
          split_ifs at hf with hcur
          cases hf
          refine ⟨rfl, i, c, ?_⟩
          rw [he, hcur]
          cases hrun
          exact Function.update_self ..
        | _ => cases hf
  | _ => cases hf

theorem Fated.publish {x : St × (ℕ → Fate)} (hi : Fated x) (hopen : x.1.closed = false)
    (hs : step cfg x.1 (.task i) = some t) {c : ℕ} (h : x.1.tasks i = some task)
    (hp : Publishes (x.1.nextEpoch k) task k c task')
    (ht : t = (x.1.publish k c).setTask i task') (k' : ℕ) :
    Bears t k' (noteFate x.2 x.1 (.task i) t k') := by
  obtain ⟨reads, hheld, -⟩ := hp.holding h
  have hhold : t.holding = Function.update x.1.holding i (some ⟨k, x.1.nextEpoch k, c, reads⟩) := by
    rw [ht]
    exact holding_publish hheld x.1 k c i
  have hepoch : (t.agents k).epoch = x.1.nextEpoch k := by
    rw [ht]
    simp [St.setTask, publish_self]
  have hdue : reads = false → Bears t k .due := by
    intro hreads
    exact ⟨i, ⟨k, x.1.nextEpoch k, c, reads⟩, by rw [hhold, Function.update_self], rfl,
      hepoch.symm, hreads⟩
  have hother : ∀ k'', k'' ≠ k → Bears t k'' (x.2 k'') := by
    intro k'' hne
    have hagent : t.agents k'' = x.1.agents k'' := by
      rw [ht]
      exact publish_of_ne x.1 c hne
    refine (hi.bears hopen k'').keep hi.named hs (by rw [hagent]) (by rw [hagent]) ?_ ?_
    · intro j p hp' hpk _
      have hji : j ≠ i := by
        rintro rfl
        have htask : task.holding = some p := (held_of_eq h).symm.trans hp'
        exact hne (hpk.symm.trans (hp.holding_before htask))
      rw [hhold, Function.update_of_ne hji]
      exact hp'
    · intro j c' c'' pc hloop hpc hend
      have hleft := loop_leaves hi.named hi.tended hi.quit hopen hloop rfl hpc hs hend
      rw [fateOf_task h] at hleft
      cases hp <;> cases hleft
  cases hp with
  | connect =>
    rw [noteFate_of_some (fateOf_task h)]
    exact bears_update (hdue (by cases hheld; rfl)) hother k'
  | reconnect =>
    rw [noteFate_of_some (fateOf_task h)]
    exact bears_update (hdue (by cases hheld; rfl)) hother k'
  | @loop _ _ _ _ old =>
    rw [noteFate_of_some (fateOf_task h)]
    have hserved : Bears t k .served := by
      refine ⟨i, c, .closeOld old, ?_, by simp⟩
      rw [hepoch, ht]
      exact Function.update_self ..
    exact bears_update hserved hother k'

theorem Fated.start {x : St × (ℕ → Fate)} (hi : Fated x) (hopen : x.1.closed = false)
    (hs : step cfg x.1 (.task i) = some t) {epoch c : ℕ} (h : x.1.tasks i = some task)
    (hsp : Spawns task task' (.loop k epoch c .read))
    (ht : t = (x.1.setTask i task').spawn (.loop k epoch c .read)) (k' : ℕ) :
    Bears t k' (noteFate x.2 x.1 (.task i) t k') := by
  obtain ⟨hheld, -, -⟩ := hsp.holding h
  have hhold : t.holding = Function.update (Function.update x.1.holding i none) x.1.ntask
      (some ⟨k, epoch, c, true⟩) := by
    rw [ht]
    exact holding_start h hsp
  have hagents : t.agents = x.1.agents := by
    rw [ht]
    rfl
  have hfate : fateOf x.1 (.task i) =
      if (x.1.agents k).epoch = epoch then some (k, .served) else none := by
    rw [fateOf_task h]
    cases hsp <;> rfl
  have hother : ∀ k'', (k'' = k → (x.1.agents k).epoch ≠ epoch) → Bears t k'' (x.2 k'') := by
    intro k'' hne
    refine (hi.bears hopen k'').keep hi.named hs (by rw [hagents]) (by rw [hagents]) ?_ ?_
    · intro j p hp hpk hpe
      have hji : j ≠ i := by
        rintro rfl
        cases hheld.symm.trans hp
        cases hpk
        exact hne rfl hpe.symm
      have hjn : j ≠ x.1.ntask := by
        rintro rfl
        have hnone : x.1.holding x.1.ntask = none := by
          rw [St.holding, held, hi.named.new_none, Option.bind_none]
        cases hnone.symm.trans hp
      rw [hhold, Function.update_of_ne hjn, Function.update_of_ne hji]
      exact hp
    · intro j c' c'' pc hloop hpc hend
      have hleft := loop_leaves hi.named hi.tended hi.quit hopen hloop rfl hpc hs hend
      rw [hfate] at hleft
      split_ifs at hleft
      cases hleft
  by_cases hcur : (x.1.agents k).epoch = epoch
  · rw [if_pos hcur] at hfate
    rw [noteFate_of_some hfate]
    have hserved : Bears t k .served := by
      refine ⟨x.1.ntask, c, .read, ?_, by simp⟩
      rw [hagents, hcur, ht]
      exact Function.update_self ..
    exact bears_update hserved (fun k'' hne => hother k'' (fun heq => absurd heq hne)) k'
  · rw [if_neg hcur] at hfate
    rw [noteFate_of_none hfate]
    exact hother k' (fun _ => hcur)

theorem Fated.step {x y : St × (ℕ → Fate)} (hi : Fated x) (hg : undisplaced x.1 act = true)
    (h : traced (step cfg) noteFate x act = some y) : Fated y := by
  obtain ⟨hs, hy⟩ := traced_eq_some.mp h
  have hm : Move cfg x.1 act y.1 := step_move hs
  refine ⟨hi.toKept.step hg hs, hm.quit_closed hi.tended hi.quit, ?_⟩
  intro hopen k
  have hbefore : x.1.closed = false := by
    by_contra hclosed
    have hstays := hm.closed_stays (by simpa using hclosed)
    exact absurd (hopen.symm.trans hstays) Bool.false_ne_true
  rw [hy]
  cases hm.handles hi.named with
  | still hh hk hu hg' =>
    exact hi.still hbefore hs hh hu.conn hk.epoch
      (fun _ _ hf => fateOf_still hi.named hs hh hk.epoch hf) k
  | shut hi' hsh ht ha hh hk hg' =>
    refine hi.still hbefore hs hh ?_ hk.epoch
      (fun _ _ hf => fateOf_still hi.named hs hh hk.epoch hf) k
    intro k'
    rw [ht]
    simp only [St.setTask, shut_agents]
  | closeAgent hi' ht ha hh hk hg' =>
    exact absurd (hbefore.symm.trans (hi.tended.closing _ _ hi' rfl)) Bool.false_ne_true
  | dial hi' hd ht hh hg' =>
    have hagents : y.1.agents = x.1.agents := by
      rw [ht]
      rfl
    exact hi.still hbefore hs hh (fun _ => by rw [hagents]) (fun _ => by rw [hagents])
      (fun _ _ hf => fateOf_still hi.named hs hh (fun _ => by rw [hagents]) hf) k
  | publish hi' hp ht ha =>
    subst ha
    exact hi.publish hbefore hs hi' hp ht k
  | start hi' hsp ht ha =>
    subst ha
    exact hi.start hbefore hs hi' hsp ht k

theorem fated_start : Fated ({}, fun _ => .unconnected) where
  toKept := kept_start
  quit := by
    intro h
    cases h
  bears := fun _ _ => rfl

theorem connect_live_iff {op : Op} {funcs : JobFuncs} {fates : ℕ → Fate}
    (h : Reachable (traced (step cfg) noteFate) (fun x act => undisplaced x.1 act)
      ({}, fun _ => .unconnected) (s, fates))
    (hret : s.tasks i = some (.call op (.unlock k funcs none))) (hopen : s.closed = false) :
    Live s k ↔ fates k = .served := by
  have hi : Fated (s, fates) := h.invariant fated_start (fun _ _ _ hi hg hs => hi.step hg hs)
  have hconn : (s.agents k).conn ≠ none := by
    rcases hi.connected i k (held_of_eq hret) with hconn | hclosed
    · exact hconn
    · exact absurd (hopen.symm.trans hclosed) Bool.false_ne_true
  obtain ⟨c, hc⟩ := Option.ne_none_iff_exists'.mp hconn
  have hb : Bears s k (fates k) := hi.bears hopen k
  constructor
  · intro hlive
    cases hf : fates k with
    | served => rfl
    | unconnected =>
      rw [hf] at hb
      exact absurd hb hconn
    | due =>
      rw [hf] at hb
      exact absurd hb (hi.not_due hlive)
    | left =>
      rw [hf] at hb
      exact absurd hb (hi.not_ended hlive)
  · intro hf
    rw [hf] at hb
    obtain ⟨j, c', pc, hloop, hpc⟩ := hb
    exact hi.live_of_loop hc hloop hpc

/-- The loop of a running worker ends over its read, the program reconnects, and a second `Ready`
finds the agent connected. -/
def reconnectedActs : List Act :=
  brokenActs (.read .eof) ++ [.task 2, .task 2, .task 2, .call (.reconnect 0), .dial 3 none,
    .task 3, .range 3 [[102]], .task 3, .task 3, .flush 3 true, .task 3, .task 3, .task 3,
    .flush 3 true, .task 3, .task 3, .call .ready, .task 5, .task 5, .task 5, .task 5]

theorem connect_live_reconnected :
    ∃ s fates funcs, run (traced (step oneAgent) noteFate) (fun x act => undisplaced x.1 act)
        ({}, fun _ => .unconnected) reconnectedActs = some (s, fates) ∧
      s.tasks 5 = some (.call .ready (.unlock 0 funcs none)) ∧
      s.tasks 2 = some (.loop 0 1 0 .done) ∧ fates 0 = .served ∧ Live s 0 := by
  obtain ⟨s, fates, funcs, hs, hret, hopen, hdone, hf⟩ :
      ∃ s fates funcs, run (traced (step oneAgent) noteFate) (fun x act => undisplaced x.1 act)
          ({}, fun _ => .unconnected) reconnectedActs = some (s, fates) ∧
        s.tasks 5 = some (.call .ready (.unlock 0 funcs none)) ∧ s.closed = false ∧
        s.tasks 2 = some (.loop 0 1 0 .done) ∧ fates 0 = .served :=
    ⟨_, _, _, rfl, rfl, rfl, rfl, rfl⟩
  exact ⟨s, fates, funcs, hs, hret, hdone, hf, (connect_live_iff ⟨_, hs⟩ hret hopen).mpr hf⟩

def readyAgainActs : List Act := [.call .ready, .task 3, .task 3, .task 3, .task 3]

/-- The loop has ended, after a report or because its redial has failed and it has closed the
connection, and a second `Ready` finds the agent connected. -/
theorem connect_not_live :
    (∃ s funcs, run (step oneAgent) undisplaced {}
        (brokenActs (.read .eof) ++ [.task 2, .task 2, .task 2] ++ readyAgainActs) = some s ∧
      s.tasks 3 = some (.call .ready (.unlock 0 funcs none)) ∧ s.closed = false ∧
      s.tasks 2 = some (.loop 0 1 0 .done) ∧ (s.agents 0).conn = some 0 ∧ ¬ Live s 0) ∧
    (∃ s funcs, run (step oneAgent) undisplaced {}
        (brokenActs (badMagic foreignBytes) ++ [.task 2, .task 2, .task 2,
          .dial 2 (some Calls.dialErr), .task 2] ++ readyAgainActs) = some s ∧
      s.tasks 3 = some (.call .ready (.unlock 0 funcs none)) ∧ s.closed = false ∧
      s.tasks 2 = some (.loop 0 1 0 .done) ∧ (s.agents 0).conn = some 0 ∧
      (s.conns 0).closed = true ∧ ¬ Live s 0) := by
  have dead : ∀ {s : St}, Reachable (step oneAgent) undisplaced {} s →
      s.tasks 2 = some (.loop 0 (s.agents 0).epoch 0 .done) → ¬ Live s 0 := by
    intro s h hdone hlive
    exact (kept_reachable h).not_ended hlive ⟨2, 0, hdone⟩
  constructor
  · obtain ⟨s, funcs, hs, hret, hopen, hepoch, hdone, hconn⟩ :
        ∃ s funcs, run (step oneAgent) undisplaced {}
            (brokenActs (.read .eof) ++ [.task 2, .task 2, .task 2] ++ readyAgainActs) = some s ∧
          s.tasks 3 = some (.call .ready (.unlock 0 funcs none)) ∧ s.closed = false ∧
          (s.agents 0).epoch = 1 ∧ s.tasks 2 = some (.loop 0 1 0 .done) ∧
          (s.agents 0).conn = some 0 := ⟨_, _, rfl, rfl, rfl, rfl, rfl, rfl⟩
    exact ⟨s, funcs, hs, hret, hopen, hdone, hconn, dead ⟨_, hs⟩ (hepoch ▸ hdone)⟩
  · obtain ⟨s, funcs, hs, hret, hopen, hepoch, hdone, hconn, hcl⟩ :
        ∃ s funcs, run (step oneAgent) undisplaced {}
            (brokenActs (badMagic foreignBytes) ++ [.task 2, .task 2, .task 2,
              .dial 2 (some Calls.dialErr), .task 2] ++ readyAgainActs) = some s ∧
          s.tasks 3 = some (.call .ready (.unlock 0 funcs none)) ∧ s.closed = false ∧
          (s.agents 0).epoch = 1 ∧ s.tasks 2 = some (.loop 0 1 0 .done) ∧
          (s.agents 0).conn = some 0 ∧ (s.conns 0).closed = true :=
      ⟨_, _, rfl, rfl, rfl, rfl, rfl, rfl, rfl⟩
    exact ⟨s, funcs, hs, hret, hopen, hdone, hconn, hcl, dead ⟨_, hs⟩ (hepoch ▸ hdone)⟩

end Gearman.Worker.Machine
