import Gearman.Custody
import Gearman.WorkerTasks

/-!
# From a connection to the dispatcher

The loop of a connection reads packets off it, decodes them and puts them into `in`,
from which `Work` takes them. The history keeps what the server has sent, what each
loop has read and put, and what `Work` has received. A loop passes on every well-formed
packet it has read, once and in order; the only one it can drop is the last, when it
finds itself superseded or the worker closed, and then it has ended.
-/

namespace Gearman.Worker.Machine
open Transition Custody

structure Feed where
  served : ℕ → List Bytes := fun _ => []
  reads : List (ℕ × ℕ × Bytes) := []
  puts : List (ℕ × InPack) := []
  received : List InPack := []

def Feed.note (x : Feed) (s : St) (act : Act) (t : St) : Feed :=
  match act with
  | .serve c data => { x with served := Function.update x.served c (x.served c ++ [data]) }
  | .read i none =>
    match s.tasks i with
    | some (.loop _ _ c .read) =>
      { x with reads := x.reads ++ (s.conns c).wire.head?.toList.map (fun data => (i, c, data)) }
    | _ => x
  | .send i =>
    match s.tasks i with
    | some (.loop _ _ _ (.forward inpack)) => { x with puts := x.puts ++ [(i, inpack)] }
    | _ => x
  | _ =>
    if t.inChan.length < s.inChan.length then
      { x with received := x.received ++ s.inChan.head?.toList }
    else x

def Feed.readsOf (x : Feed) (i : ℕ) : List Bytes :=
  (x.reads.filter (fun r => r.1 = i)).map (fun r => r.2.2)

def Feed.readsOn (x : Feed) (c : ℕ) : List Bytes :=
  (x.reads.filter (fun r => r.2.1 = c)).map (fun r => r.2.2)

def Feed.putsOf (x : Feed) (i : ℕ) : List InPack :=
  (x.puts.filter (fun p => p.1 = i)).map Prod.snd

def decoded (a : ℕ) : Option (Except Err (InPack × ℕ)) → Option InPack
  | some (.ok (inpack, _)) => some { inpack with a := some a }
  | _ => none

/-- What the loop of agent `a` makes of a packet; a malformed one is reported. -/
def decodeFor (a : ℕ) (data : Bytes) : Option InPack := decoded a (decodeInPack data)

/-- What a loop still has to put into `in`, and whether it has ended. -/
structure Errand where
  agent : ℕ
  owed : List InPack := []
  ended : Bool := false

def LoopPc.errand (a : ℕ) : LoopPc → Errand
  | .check (.ok data) => { agent := a, owed := (decodeFor a data).toList }
  | .forward inpack => { agent := a, owed := [inpack] }
  | .done => { agent := a, ended := true }
  | _ => { agent := a }

def Task.errand : Task → Option Errand
  | .write _ _ next => next.errand
  | .loop a _ _ pc => some (pc.errand a)
  | _ => none

def St.errand (s : St) : ℕ → Option Errand := held Task.errand s.tasks

/-- A loop goes on with what it owes, or drops it and ends. -/
structure Lets (d d' : Errand) : Prop where
  agent : d'.agent = d.agent
  running : d.ended = false
  owed : d'.owed = d.owed ∨ (d'.ended = true ∧ d'.owed = [])

structure Fed (d : Errand) (reads : List Bytes) (puts : List InPack) : Prop where
  small : d.owed.length ≤ 1
  wanted : ∃ lost, reads.filterMap (decodeFor d.agent) = puts ++ d.owed ++ lost ∧
    lost.length ≤ 1 ∧ (d.ended = false → lost = [])

variable {cfg : Cfg} {s t : St} {act : Act} {i : ℕ} {task task' : Task} {d d' : Errand}
variable {reads : List Bytes} {puts : List InPack} {x : Feed}

theorem Fed.lets (h : Fed d reads puts) (hl : Lets d d') : Fed d' reads puts := by
  obtain ⟨lost, hw, -, hlost⟩ := h.wanted
  obtain rfl := hlost hl.running
  rw [List.append_nil] at hw
  rcases hl.owed with ho | ⟨hov, ho⟩
  · refine ⟨ho ▸ h.small, [], ?_, by simp, fun _ => rfl⟩
    rw [hl.agent, ho, List.append_nil]
    exact hw
  · refine ⟨by simp [ho], d.owed, ?_, h.small, fun hn => ?_⟩
    · rw [hl.agent, ho, List.append_nil]
      exact hw
    · rw [hov] at hn
      cases hn

theorem Fed.read (h : Fed d reads puts) (hd : d.owed = []) (hov : d.ended = false) (data : Bytes) :
    Fed { agent := d.agent, owed := (decodeFor d.agent data).toList } (reads ++ [data]) puts := by
  obtain ⟨lost, hw, -, hlost⟩ := h.wanted
  obtain rfl := hlost hov
  refine ⟨?_, [], ?_, by simp, fun _ => rfl⟩
  · cases decodeFor d.agent data <;> simp
  · rw [List.filterMap_append, hw, hd]
    cases hdec : decodeFor d.agent data <;> simp [hdec]

theorem Fed.send {inpack : InPack} (h : Fed d reads puts) (hd : d.owed = [inpack])
    (hov : d.ended = false) : Fed { agent := d.agent } reads (puts ++ [inpack]) := by
  obtain ⟨lost, hw, -, hlost⟩ := h.wanted
  obtain rfl := hlost hov
  refine ⟨by simp, [], ?_, by simp, fun _ => rfl⟩
  rw [hw, hd]
  simp

theorem errand_writes (todo : List (ℕ × OutPack)) (next : Task) :
    (writes todo next).errand = next.errand := by
  cases todo <;> rfl

theorem errand_back (op : Op) (drains : Bool) : (back op drains).errand = none := by
  cases drains <;> rfl

theorem errand_answer (s : St) (inpack : InPack) (r : Result) :
    (answer s inpack r).errand = none := by
  unfold answer
  split_ifs
  · exact errand_writes _ _
  · rfl

theorem errand_entry (cfg : Cfg) (op : Op) : (entry cfg op).errand = none := by
  cases op <;> first | rfl | exact errand_writes _ _

/-- What a step of its own does to the errand of a task. -/
def Turns (task task' : Task) : Prop :=
  task'.errand = task.errand ∨ ∃ d d', task.errand = some d ∧ task'.errand = some d' ∧ Lets d d'

theorem errand_reaction (a : ℕ) (err : Err) : (reaction err).errand a = { agent := a } := by
  unfold reaction
  split <;> rfl

theorem Local.turns (hl : Local cfg s task task') : Turns task task' := by
  cases hl with
  | ready => split_ifs <;> exact Or.inl rfl
  | snapshot hmu => split_ifs <;> exact Or.inl rfl
  | getConn => split_ifs <;> exact Or.inl rfl
  | isReady hmu => split_ifs <;> exact Or.inl rfl
  | announce hk ho => exact Or.inl (errand_writes _ _)
  | noJob ht => exact Or.inl ((errand_writes _ _).trans (errand_back _ _))
  | noop ht => exact Or.inl ((errand_writes _ _).trans (errand_back _ _))
  | unlimited hl => exact Or.inl ((errand_writes _ _).trans (errand_back _ _))
  | reannounce hmu ho => exact Or.inl (errand_writes _ _)
  | answer hmu => exact Or.inl (errand_answer _ _ _)
  | @stale a epoch c r he =>
    refine Or.inr ⟨_, _, rfl, rfl, ?_, ?_, Or.inr ⟨rfl, rfl⟩⟩
    · cases r <;> rfl
    · cases r <;> rfl
  | @react a epoch c err he => exact Or.inl (congrArg some (errand_reaction a err))
  | @decoded a epoch c n data inpack he hd =>
    refine Or.inl (congrArg some ?_)
    have hdec : decodeFor a data = some { inpack with a := some a } := by
      rw [decodeFor, hd]
      rfl
    simp [LoopPc.errand, hdec]
  | disconnect =>
    refine Or.inr ⟨_, _, rfl, rfl, ?_⟩
    split_ifs <;> exact ⟨rfl, rfl, Or.inl rfl⟩
  | loopQuit hq => exact Or.inr ⟨_, _, rfl, rfl, rfl, rfl, Or.inr ⟨rfl, rfl⟩⟩
  | _ => exact Or.inl rfl

theorem Locks.turns {k : ℕ} (hl : Locks cfg task k task') : Turns task task' := by
  cases hl <;> exact Or.inl rfl

theorem Unlocks.turns {k : ℕ} (hl : Unlocks task k task') : Turns task task' := by
  cases hl with
  | written => exact Or.inl (errand_writes _ _)
  | _ => exact Or.inl rfl

theorem Dials.turns {c k : ℕ} (hd : Dials c task k task') : Turns task task' := by
  cases hd <;> exact Or.inl rfl

theorem Publishes.turns {e k c : ℕ} (hp : Publishes e task k c task') : Turns task task' := by
  cases hp <;> exact Or.inl rfl

theorem Shuts.turns {old : Option ℕ} (hs : Shuts task old task') : Turns task task' := by
  cases hs with
  | replaced => exact Or.inl rfl
  | gaveUp => exact Or.inr ⟨_, _, rfl, rfl, rfl, rfl, Or.inl rfl⟩

theorem Reports.turns {rs : List Report} (hr : Reports cfg s task rs task') :
    Turns task task' := by
  cases hr with
  | serverErr ht => exact Or.inl (errand_back _ _)
  | custome ht hj => exact Or.inl (errand_back _ _)
  | @undecoded a epoch c data err he hd =>
    refine Or.inl (congrArg some ?_)
    have hdec : decodeFor a data = none := by
      rw [decodeFor, hd]
      rfl
    simp [LoopPc.errand, hdec]
  | disconnected => exact Or.inr ⟨_, _, rfl, rfl, rfl, rfl, Or.inl rfl⟩
  | _ => exact Or.inl rfl

/-- What a step that neither reads a packet nor puts one does to the errands. -/
inductive Errands (s t : St) : Prop
  | still (h : t.errand = s.errand)
  | turns {i : ℕ} {d d' : Errand} (hd : s.errand i = some d) (hl : Lets d d')
      (h : t.errand = Function.update s.errand i (some d'))
  | starts {i a : ℕ} (hd : s.errand i = none)
      (h : t.errand = Function.update s.errand i (some { agent := a }))

theorem errands_one (h : s.tasks i = some task)
    (ht : t.tasks = Function.update s.tasks i (some task')) (hturns : Turns task task') :
    Errands s t := by
  rcases hturns with hsame | ⟨d, d', hd, hd', hl⟩
  · refine .still ?_
    rw [St.errand, ht]
    exact held_update_same h hsame
  · refine .turns ((held_of_eq h).trans hd) hl ?_
    rw [St.errand, ht, held_update, hd']
    rfl

theorem errands_new (hn : Named s) {new : Task}
    (ht : t.tasks = Function.update s.tasks s.ntask (some new)) (hnew : new.errand = none) :
    Errands s t := by
  refine .still ?_
  rw [St.errand, ht]
  exact held_update_new hn.new_none hnew

def Act.idle : Act → Bool
  | .serve _ _ => false
  | .read _ none => false
  | .send _ => false
  | _ => true

theorem Spawns.errands (hn : Named s) {new : Task} (h : s.tasks i = some task)
    (hs : Spawns task task' new) : Errands s ((s.setTask i task').spawn new) := by
  have hfree : (s.setTask i task').tasks s.ntask = none :=
    (Function.update_of_ne (Nat.ne_of_gt (hn _ _ h)) ..).trans hn.new_none
  have hmid : ∀ {task' : Task}, task'.errand = task.errand →
      held Task.errand (Function.update s.tasks i (some task')) = s.errand :=
    fun hd => held_update_same h hd
  have hnone : s.errand s.ntask = none := by rw [St.errand, held, hn.new_none, Option.bind_none]
  cases hs with
  | @job op inpack drains hj =>
    refine .still ?_
    rw [← hmid (show (Task.call op (.limit inpack drains)).errand = _ from rfl)]
    exact held_update_new hfree rfl
  | @connect op k epoch c funcs =>
    refine .starts (i := s.ntask) (a := k) hnone ?_
    rw [← hmid (show (Task.call op (.unlock k funcs none)).errand = _ from rfl)]
    exact held_update ..
  | @reconnect op a epoch c =>
    refine .starts (i := s.ntask) (a := a) hnone ?_
    rw [← hmid (show (Task.call op (.returned none)).errand = _ from rfl)]
    exact held_update ..

theorem Move.errands (hn : Named s) (hm : Move cfg s act t) (ha : act.idle = true) :
    Errands s t := by
  cases hm with
  | call op hc => exact errands_new hn rfl (errand_entry cfg op)
  | pc h hl hr => exact errands_one h rfl hl.turns
  | lock h hl hfree => exact errands_one h rfl hl.turns
  | unlock h hl => exact errands_one h rfl hl.turns
  | dial h hd => exact errands_one h rfl hd.turns
  | publish h hp => exact errands_one h rfl hp.turns
  | spawn h hs => exact hs.errands hn h
  | shut h hs => exact errands_one h (shut_setTask s _ _ _) hs.turns
  | report h hr hrun => exact errands_one h rfl hr.turns
  | @setReady i op h hmu => exact errands_one h rfl (Or.inl (by cases op <;> rfl))
  | setRunning h hmu => exact errands_one h rfl (Or.inl (errand_writes _ _))
  | closeAgent h hk => exact errands_one h (closeAgent_setTask s _ _ _) (Or.inl rfl)
  | changeFuncs h hmu hr heq => exact errands_one h rfl (Or.inl (errand_writes _ _))
  | read h hw => cases ha
  | send h hfull => cases ha
  | serve hc => cases ha
  | token h hl hcap =>
    exact errands_one h rfl (Or.inl ((errand_writes _ _).trans (errand_back _ _)))
  | @handoff i j op inpack job drains err v h h' hl =>
    have hne : j ≠ i := by
      rintro rfl
      simp [h] at h'
    have hmid : (s.setTask i (afterLimit op inpack drains)).errand = s.errand :=
      held_update_same h ((errand_writes _ _).trans (errand_back _ _))
    have hjob : (s.setTask i (afterLimit op inpack drains)).tasks j = some _ :=
      (Function.update_of_ne hne ..).trans h'
    refine .still ?_
    rw [← hmid]
    exact held_update_same hjob rfl
  | panic h hrw => exact .still rfl
  | _ =>
    refine errands_one (by assumption) rfl ?_
    exact Or.inl rfl

theorem shut_inChan (s : St) (old : Option ℕ) : (s.shut old).inChan = s.inChan := by
  cases old <;> rfl

theorem Move.queue (hm : Move cfg s act t) (ha : act.idle = true) :
    t.inChan = s.inChan ∨ ∃ inpack, s.inChan = inpack :: t.inChan := by
  cases hm with
  | recv h hpc hin hr => exact Or.inr ⟨_, hin⟩
  | send h hfull => cases ha
  | shut h hs => exact Or.inl (shut_inChan s _)
  | closeAgent h hk => exact Or.inl (shut_inChan s _)
  | _ => exact Or.inl rfl

theorem wire_setConnAt {c : ℕ} {conn : Conn} (d : ℕ) :
    ((s.setConnAt c conn).conns d).wire = if d = c then conn.wire else (s.conns d).wire := by
  by_cases hd : d = c
  · subst hd
    simp [St.setConnAt]
  · simp [St.setConnAt, hd]

theorem wire_same {c : ℕ} {conn : Conn} (h : conn.wire = (s.conns c).wire) (d : ℕ) :
    ((s.setConnAt c conn).conns d).wire = (s.conns d).wire := by
  rw [wire_setConnAt]
  split_ifs with hd
  · rw [hd, h]
  · rfl

theorem wire_shut (s : St) (old : Option ℕ) (d : ℕ) :
    ((s.shut old).conns d).wire = (s.conns d).wire := by
  cases old with
  | none => rfl
  | some c => exact wire_same (by rfl) d

/-- What a step that neither serves nor reads does to the connections. -/
inductive Sockets (s t : St) : Prop
  | same (hn : t.nconn = s.nconn) (h : ∀ c, (t.conns c).wire = (s.conns c).wire)
  | dialled (hn : t.nconn = s.nconn + 1)
      (h : ∀ c, (t.conns c).wire = if c = s.nconn then [] else (s.conns c).wire)

theorem Move.wires (hm : Move cfg s act t) (ha : act.idle = true) : Sockets s t := by
  cases hm with
  | dial h hd => exact .dialled rfl wire_setConnAt
  | publish h hp => exact .same rfl (wire_same rfl)
  | sent h hopen => exact .same rfl (wire_same rfl)
  | @shut i old task task' h hs => exact .same (by cases old <;> rfl) (wire_shut s old)
  | @closeAgent i k op h hk =>
    exact .same (show (s.shut _).nconn = s.nconn by cases (s.agents k).conn <;> rfl)
      (wire_shut s _)
  | read h hw => cases ha
  | serve hc => cases ha
  | _ => exact .same rfl (fun _ => rfl)

/-- A task that is not a loop has read nothing and put nothing. -/
def Fares : Option Errand → List Bytes → List InPack → Prop
  | none, reads, puts => reads = [] ∧ puts = []
  | some d, reads, puts => Fed d reads puts

theorem fares_update {errand : ℕ → Option Errand} {x y : Feed} {d : Option Errand}
    (hi : ∀ j, Fares (errand j) (x.readsOf j) (x.putsOf j))
    (hd : Fares d (y.readsOf i) (y.putsOf i))
    (hr : ∀ j, j ≠ i → y.readsOf j = x.readsOf j) (hp : ∀ j, j ≠ i → y.putsOf j = x.putsOf j)
    (j : ℕ) : Fares (Function.update errand i d j) (y.readsOf j) (y.putsOf j) := by
  by_cases hj : j = i
  · subst hj
    simpa using hd
  · rw [Function.update_of_ne hj, hr j hj, hp j hj]
    exact hi j

theorem Errands.fares (hd : Errands s t) (hi : ∀ i, Fares (s.errand i) (x.readsOf i) (x.putsOf i))
    (i : ℕ) : Fares (t.errand i) (x.readsOf i) (x.putsOf i) := by
  cases hd with
  | still ht => exact ht ▸ hi i
  | @turns j d d' hold hl ht =>
    have hj := hi j
    rw [hold] at hj
    rw [ht]
    exact fares_update (d := some d') hi (hj.lets hl) (fun _ _ => rfl) (fun _ _ => rfl) i
  | @starts j a hold ht =>
    have hj := hi j
    rw [hold] at hj
    rw [ht]
    refine fares_update hi ?_ (fun _ _ => rfl) (fun _ _ => rfl) i
    rw [hj.1, hj.2]
    exact ⟨by simp, [], rfl, by simp, fun _ => rfl⟩

structure Forwarding (s : St) (x : Feed) : Prop where
  wire : ∀ c, x.served c = x.readsOn c ++ (s.conns c).wire
  unserved : ∀ c, s.nconn ≤ c → x.served c = []
  tasks : ∀ i, Fares (s.errand i) (x.readsOf i) (x.putsOf i)
  queue : x.puts.map Prod.snd = x.received ++ s.inChan

theorem Sockets.wire (hs : Sockets s t) (hi : ∀ c, x.served c = x.readsOn c ++ (s.conns c).wire)
    (hu : ∀ c, s.nconn ≤ c → x.served c = []) (c : ℕ) :
    x.served c = x.readsOn c ++ (t.conns c).wire := by
  cases hs with
  | same hn h => exact h c ▸ hi c
  | dialled hn h =>
    rw [h c]
    split_ifs with hc
    · have hw := hi c
      rw [hu c hc.ge] at hw
      rw [hu c hc.ge, (List.append_eq_nil_iff.mp hw.symm).1]
      rfl
    · exact hi c

theorem Sockets.unserved (hs : Sockets s t) (hu : ∀ c, s.nconn ≤ c → x.served c = []) (c : ℕ)
    (hc : t.nconn ≤ c) : x.served c = [] := by
  cases hs with
  | same hn h => exact hu c (hn ▸ hc)
  | dialled hn h => exact hu c (by omega)

theorem note_idle (ha : act.idle = true) : x.note s act t =
    if t.inChan.length < s.inChan.length then
      { x with received := x.received ++ s.inChan.head?.toList }
    else x := by
  cases act with
  | serve c data => cases ha
  | send i => cases ha
  | read i err =>
    cases err with
    | none => cases ha
    | some err => rfl
  | _ => rfl

theorem Forwarding.idle (hi : Forwarding s x) (hn : Named s) (hm : Move cfg s act t)
    (ha : act.idle = true) : Forwarding t (x.note s act t) := by
  have hw := (hm.wires ha).wire hi.wire hi.unserved
  have hu := (hm.wires ha).unserved hi.unserved
  have hf := (hm.errands hn ha).fares hi.tasks
  rw [note_idle ha]
  rcases hm.queue ha with hq | ⟨inpack, hq⟩
  · rw [if_neg (by rw [hq]; exact lt_irrefl _)]
    exact ⟨hw, hu, hf, hq ▸ hi.queue⟩
  · rw [if_pos (by rw [hq]; exact Nat.lt_succ_self _)]
    refine ⟨hw, hu, hf, ?_⟩
    simp [hi.queue, hq]

theorem Forwarding.serve (hi : Forwarding s x) {c : ℕ} {data : Bytes}
    (hc : c < s.nconn) : Forwarding (s.setConnAt c { s.conns c with
      wire := (s.conns c).wire ++ [data] }) (x.note s (.serve c data) t) := by
  refine ⟨?_, ?_, hi.tasks, hi.queue⟩
  · intro d
    rw [wire_setConnAt, Feed.note]
    by_cases hd : d = c
    · subst hd
      simp [hi.wire d, Feed.readsOn]
    · simp [hd, hi.wire d, Feed.readsOn]
  · intro d hd
    have hne : d ≠ c := by
      rintro rfl
      exact absurd hc (not_lt.mpr hd)
    simpa [Feed.note, hne] using hi.unserved d hd

theorem readsOf_append (x : Feed) (i c : ℕ) (data : Bytes) (j : ℕ) :
    ({ x with reads := x.reads ++ [(i, c, data)] } : Feed).readsOf j =
      x.readsOf j ++ if j = i then [data] else [] := by
  by_cases hj : j = i
  · subst hj
    simp [Feed.readsOf]
  · simp [Feed.readsOf, hj, Ne.symm hj]

theorem readsOn_append (x : Feed) (i c : ℕ) (data : Bytes) (d : ℕ) :
    ({ x with reads := x.reads ++ [(i, c, data)] } : Feed).readsOn d =
      x.readsOn d ++ if d = c then [data] else [] := by
  by_cases hd : d = c
  · subst hd
    simp [Feed.readsOn]
  · simp [Feed.readsOn, hd, Ne.symm hd]

theorem putsOf_append (x : Feed) (i : ℕ) (inpack : InPack) (j : ℕ) :
    ({ x with puts := x.puts ++ [(i, inpack)] } : Feed).putsOf j =
      x.putsOf j ++ if j = i then [inpack] else [] := by
  by_cases hj : j = i
  · subst hj
    simp [Feed.putsOf]
  · simp [Feed.putsOf, hj, Ne.symm hj]

theorem readStep_eq_some (h : readStep s i task none = some t) :
    ∃ a epoch c data rest, task = .loop a epoch c .read ∧ (s.conns c).wire = data :: rest ∧
      t = (s.setConnAt c { s.conns c with wire := rest }).setTask i
        (.loop a epoch c (.check (.ok data))) := by
  cases task with
  | loop a epoch c pc =>
    cases pc with
    | read =>
      cases hw : (s.conns c).wire with
      | nil => simp [readStep, hw] at h
      | cons data rest =>
        simp only [readStep, hw, Option.some.injEq] at h
        exact ⟨a, epoch, c, data, rest, rfl, hw, h.symm⟩
    | _ => cases h
  | _ => cases h

theorem sendStep_eq_some (h : sendStep s i task = some t) :
    ∃ a epoch c inpack, task = .loop a epoch c (.forward inpack) ∧
      t = { s.setTask i (.loop a epoch c .read) with inChan := s.inChan ++ [inpack] } := by
  cases task with
  | loop a epoch c pc =>
    cases pc with
    | forward inpack =>
      simp only [sendStep] at h
      split_ifs at h
      exact ⟨a, epoch, c, inpack, rfl, (Option.some.inj h).symm⟩
    | _ => cases h
  | _ => cases h

theorem Forwarding.read (hi : Forwarding s x) (htask : s.tasks i = some task)
    (h : readStep s i task none = some t) : Forwarding t (x.note s (.read i none) t) := by
  obtain ⟨a, epoch, c, data, rest, rfl, hw, rfl⟩ := readStep_eq_some h
  generalize ht : (s.setConnAt c { s.conns c with wire := rest }).setTask i
    (.loop a epoch c (.check (.ok data))) = t
  have hnote : x.note s (.read i none) t = { x with reads := x.reads ++ [(i, c, data)] } := by
    simp [Feed.note, htask, hw]
  have hfed := hi.tasks i
  rw [St.errand, held_of_eq htask] at hfed
  have hwire : ∀ d, (t.conns d).wire = if d = c then rest else (s.conns d).wire :=
    ht ▸ wire_setConnAt
  have herrand : t.errand = Function.update s.errand i
      (some { agent := a, owed := (decodeFor a data).toList }) :=
    ht ▸ held_update Task.errand s.tasks i _
  rw [hnote]
  refine ⟨?_, ?_, ?_, ?_⟩
  · intro d
    rw [readsOn_append, hwire]
    by_cases hd : d = c
    · subst hd
      simp [hi.wire d, hw]
    · simp [hd, hi.wire d]
  · rw [← ht]
    exact hi.unserved
  · rw [herrand]
    refine fares_update hi.tasks ?_ ?_ (fun _ _ => rfl)
    · rw [readsOf_append, if_pos rfl]
      exact hfed.read rfl rfl data
    · intro j hj
      rw [readsOf_append, if_neg hj, List.append_nil]
  · rw [← ht]
    exact hi.queue

theorem Forwarding.send (hi : Forwarding s x) (htask : s.tasks i = some task)
    (h : sendStep s i task = some t) : Forwarding t (x.note s (.send i) t) := by
  obtain ⟨a, epoch, c, inpack, rfl, rfl⟩ := sendStep_eq_some h
  have hnote : ∀ t, x.note s (.send i) t = { x with puts := x.puts ++ [(i, inpack)] } := by
    intro t
    simp [Feed.note, htask]
  have hfed := hi.tasks i
  rw [St.errand, held_of_eq htask] at hfed
  rw [hnote]
  refine ⟨hi.wire, hi.unserved, ?_, ?_⟩
  · have herrand : St.errand { s.setTask i (.loop a epoch c .read) with
        inChan := s.inChan ++ [inpack] } = Function.update s.errand i (some { agent := a }) :=
      held_update Task.errand s.tasks i _
    rw [herrand]
    refine fares_update hi.tasks ?_ (fun _ _ => rfl) ?_
    · rw [putsOf_append, if_pos rfl]
      exact hfed.send rfl rfl
    · intro j hj
      rw [putsOf_append, if_neg hj, List.append_nil]
  · simp [hi.queue]

theorem Forwarding.step (hi : Forwarding s x) (hn : Named s) (h : step cfg s act = some t) :
    Forwarding t (x.note s act t) := by
  have hm := step_move h
  cases act with
  | serve c data =>
    unfold Machine.step at h
    split_ifs at h
    simp only at h
    split_ifs at h with hc
    cases h
    exact hi.serve hc
  | read i err =>
    cases err with
    | some err => exact hi.idle hn hm rfl
    | none =>
      unfold Machine.step at h
      split_ifs at h
      obtain ⟨task, htask, ht⟩ := Option.bind_eq_some_iff.mp h
      exact hi.read htask ht
  | send i =>
    unfold Machine.step at h
    split_ifs at h
    obtain ⟨task, htask, ht⟩ := Option.bind_eq_some_iff.mp h
    exact hi.send htask ht
  | _ => exact hi.idle hn hm rfl

theorem forwarding_start : Forwarding {} {} where
  wire := fun _ => rfl
  unserved := fun _ _ => rfl
  tasks := fun _ => ⟨rfl, rfl⟩
  queue := rfl

theorem errand_ended {a : ℕ} {pc : LoopPc} (h : (pc.errand a).ended = true) :
    (pc.errand a).owed = [] := by
  unfold LoopPc.errand at h ⊢
  split at h <;> first | rfl | cases h

theorem errand_running {a : ℕ} {pc : LoopPc} (h : pc ≠ .done) : (pc.errand a).ended = false := by
  unfold LoopPc.errand
  split <;> first | rfl | exact absurd rfl h

theorem Fed.rest {a : ℕ} {pc : LoopPc} (h : Fed (pc.errand a) reads puts) :
    ∃ rest, reads.filterMap (decodeFor a) = puts ++ rest ∧ rest.length ≤ 1 ∧
      (pc ≠ .done → rest = (pc.errand a).owed) := by
  obtain ⟨lost, hw, hlen, hlost⟩ := h.wanted
  have ha : (pc.errand a).agent = a := by
    unfold LoopPc.errand
    split <;> rfl
  rw [ha, List.append_assoc] at hw
  refine ⟨(pc.errand a).owed ++ lost, hw, ?_, ?_⟩
  · cases he : (pc.errand a).ended with
    | true =>
      rw [errand_ended he]
      exact hlen
    | false =>
      rw [hlost he, List.append_nil]
      exact h.small
  · intro hpc
    rw [hlost (errand_running hpc), List.append_nil]

/-- A loop has put every well-formed packet it has read into `in`, in order and once, but for one
that is still in its hands or that it has dropped at its end; the packets it reads are those the
server has sent, in order, and `Work` receives them in the order of `in`. -/
theorem packets_forwarded (cfg : Cfg) (acts : List Act) (s : St) (x : Feed)
    (h : run (traced (step cfg) Feed.note) always ({}, {}) acts = some (s, x)) :
    (∀ c, x.served c = x.readsOn c ++ (s.conns c).wire) ∧
    (∀ i a epoch c pc, s.tasks i = some (.loop a epoch c pc) →
      ∃ rest, (x.readsOf i).filterMap (decodeFor a) = x.putsOf i ++ rest ∧ rest.length ≤ 1 ∧
        (pc ≠ .done → rest = (pc.errand a).owed)) ∧
    x.puts.map Prod.snd = x.received ++ s.inChan := by
  have hi : Named s ∧ Forwarding s x := by
    refine run_invariant (I := fun y : St × Feed => Named y.1 ∧ Forwarding y.1 y.2) ?_ h
      ⟨named_start, forwarding_start⟩
    intro y act z hy _ hz
    obtain ⟨hstep, hnote⟩ := traced_eq_some.mp hz
    exact ⟨hy.1.move (step_move hstep), hnote ▸ hy.2.step hy.1 hstep⟩
  refine ⟨hi.2.wire, ?_, hi.2.queue⟩
  intro i a epoch c pc htask
  have hfed := hi.2.tasks i
  rw [St.errand, held_of_eq htask] at hfed
  exact hfed.rest

/-- The loop has read a packet and one that is not a job, and has put the first. -/
def forwardActs : List Act :=
  [.call (.addFunc [102] ⟨fun _ => .returned [] none, 0⟩), .task 0, .call .ready,
    .task 1, .task 1, .task 1, .task 1, .dial 1 none, .task 1, .task 1, .task 1,
    .serve 0 (Wire.frame res dtNoop []), .serve 0 (Wire.frame res dtNoJob []),
    .read 2 none, .task 2, .send 2, .read 2 none, .task 2]

theorem packets_forwarded_in_turn :
    ∃ s x pc, run (traced (step { nagents := 1 }) Feed.note) always ({}, {}) forwardActs =
        some (s, x) ∧
      s.tasks 2 = some (.loop 0 1 0 pc) ∧ (x.readsOf 2).length = 2 ∧ (x.putsOf 2).length = 1 ∧
      ∃ rest, (x.readsOf 2).filterMap (decodeFor 0) = x.putsOf 2 ++ rest ∧ rest.length ≤ 1 ∧
        (pc ≠ .done → rest = (pc.errand 0).owed) := by
  refine ⟨_, _, _, rfl, rfl, rfl, rfl, ?_⟩
  exact (packets_forwarded { nagents := 1 } forwardActs _ _ rfl).2.1 2 0 1 0 _ rfl

end Gearman.Worker.Machine
