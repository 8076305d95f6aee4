import Gearman.WorkerConns
import Gearman.WorkerReannounce

/-!
# The grabs that are outstanding on a connection

Each grab is answered by one packet, and each packet that asks for something leads to
one grab or one pre-sleep. So what a connection has asked for, what is on the wire and what
the worker is about to do for it add up to at most one more than what the server has sent,
as long as it is all about the same connection. A grab goes to the agent, not to the
connection its packet came from: what is under way for an agent when its connection is
replaced is asked of the new connection, on top of the grab of `reconnect`.
-/

namespace Gearman.Worker.Machine
open Bytes Transition Tally

def asks (p : OutPack) : Bool := p.dataType = dtGrabJobUniq || p.dataType = dtPreSleep

/-- Packet types that make the worker ask again. -/
def prompts (dataType : UInt32) : Bool :=
  dataType = dtNoJob || dataType = dtNoop || dataType = dtJobAssign || dataType = dtJobAssignUniq

def packetType (data : Bytes) : Option UInt32 := (slice data 4 8).bind uint32

def asksFor (k : ℕ) (w : ℕ × OutPack) : Bool := w.1 = k && asks w.2

def asksOn (c : ℕ) (w : ℕ × ℕ × OutPack) : Bool := w.1 = c && asks w.2.2

def promptsFor (k : ℕ) (inpack : InPack) : Bool := inpack.a = some k && prompts inpack.dataType

def promptsData (data : Bytes) : Bool := (packetType data).any prompts

/-- What the task is going to ask for agent `k`, on whatever connection it has then. -/
def Task.duty (k : ℕ) : Task → ℕ
  | .write todo stage next => (stage.waiting todo).countP (asksFor k) + next.duty k
  | .call _ (.handle inpack _) => (promptsFor k inpack).toNat
  | .call _ (.limit inpack _) => (decide (inpack.a = some k)).toNat
  | .call _ (.funcOutpacks a _ _) => (decide (a = k)).toNat
  | .loop _ _ _ (.forward inpack) => (promptsFor k inpack).toNat
  | _ => 0

def Task.load (c : ℕ) : Task → ℕ
  | .write todo stage next => (stage.flushing todo).countP (asksOn c) + next.load c
  | .loop _ _ c' (.check (.ok data)) => (decide (c' = c) && promptsData data).toNat
  | _ => 0

def St.agentLoad (s : St) (k : ℕ) : ℕ := s.total (Task.duty k) + s.inChan.countP (promptsFor k)

def Conn.traffic (conn : Conn) : ℕ :=
  conn.sent.countP asks + conn.wire.countP promptsData

/-- What has been asked on connection `c`, and what of the answers has not been handled. -/
def St.connLoad (s : St) (c : ℕ) : ℕ := (s.conns c).traffic + s.total (Task.load c)

def Conn.grabs (conn : Conn) : ℕ := conn.sent.countP (fun p => p.dataType = dtGrabJobUniq)

def Conn.preSleeps (conn : Conn) : ℕ := conn.sent.countP (fun p => p.dataType = dtPreSleep)

/-- What the server has sent on each connection: JOB_ASSIGN_UNIQ or NO_JOB, and NOOP. -/
structure Served where
  replies : ℕ → ℕ := fun _ => 0
  noops : ℕ → ℕ := fun _ => 0

def isReply (data : Bytes) : Bool :=
  packetType data = some dtJobAssignUniq || packetType data = some dtNoJob

def isNoop (data : Bytes) : Bool := packetType data = some dtNoop

def Served.note (v : Served) (_ : St) (act : Act) (_ : St) : Served :=
  match act with
  | .serve c data =>
    { replies := Function.update v.replies c (v.replies c + (isReply data).toNat)
      noops := Function.update v.noops c (v.noops c + (isNoop data).toNat) }
  | _ => v

/-- A server that answers each grab once and wakes a sleeping worker once; plain JOB_ASSIGN
answers a packet this worker does not send. -/
def honest (x : St × Served) : Act → Bool
  | .serve c data =>
    if isReply data then x.2.replies c < (x.1.conns c).grabs
    else if isNoop data then x.2.noops c < (x.1.conns c).preSleeps
    else packetType data ≠ some dtJobAssign
  | _ => true

/-- `Work` starts when nothing has been asked on the agents' connections; and a connection
is published for an agent when nothing is under way for it. -/
def calm (cfg : Cfg) (s : St) : Act → Bool
  | .task i =>
    match s.tasks i with
    | some (.call _ .setRunning) => (List.range cfg.nagents).all (fun k =>
        s.agentLoad k = 0 && (s.agents k).rw.all (fun c => s.connLoad c = 0))
    | some task => task.dialled.all (fun w => s.agentLoad w.1 = 0)
    | none => true
  | _ => true

structure Balanced (s : St) (v : Served) : Prop where
  base : ∀ c, s.connLoad c ≤ 1 + v.replies c + v.noops c
  current : ∀ k c, (s.agents k).rw = some c →
    s.connLoad c + s.agentLoad k ≤ 1 + v.replies c + v.noops c
  fresh : ∀ c, (s.conns c).published = false → s.connLoad c = 0
  replies : ∀ c, v.replies c ≤ (s.conns c).grabs
  noops : ∀ c, v.noops c ≤ (s.conns c).preSleeps

variable {cfg : Cfg} {s t : St} {v : Served} {act : Act} {i k c : ℕ} {task task' new next : Task}
variable {todo rest : List (ℕ × OutPack)}

theorem duty_writes (k : ℕ) (todo : List (ℕ × OutPack)) (next : Task) :
    (writes todo next).duty k = todo.countP (asksFor k) + next.duty k := by
  cases todo with
  | nil => exact (Nat.zero_add _).symm
  | cons w rest => rfl

theorem load_writes (c : ℕ) (todo : List (ℕ × OutPack)) (next : Task) :
    (writes todo next).load c = next.load c := by
  cases todo with
  | nil => rfl
  | cons w rest => exact Nat.zero_add _

theorem countP_eq_zero_of_idle (h : ∀ w ∈ todo, asks w.2 = false) (k : ℕ) :
    todo.countP (asksFor k) = 0 := by
  rw [List.countP_eq_zero]
  intro w hw
  simp [asksFor, h w hw]

theorem countP_toAgent (k : ℕ) (inpack : InPack) {outpack : OutPack}
    (h : asks outpack = true) :
    (toAgent inpack outpack).countP (asksFor k) = (decide (inpack.a = some k)).toNat := by
  cases ha : inpack.a with
  | none => simp [toAgent, ha]
  | some k' =>
    by_cases hk : k' = k <;> simp [toAgent, ha, asksFor, h, hk]

theorem asks_funcPack (funcname : Bytes) (timeout : UInt32) :
    asks (Calls.funcPack funcname timeout) = false := by
  rcases funcPack_type funcname timeout with h | h <;> simp only [asks, h] <;> decide

theorem asks_resultPack (inpack : InPack) (r : Result) : asks (resultPack inpack r) = false := by
  rcases resultPack_type inpack r with h | h | h <;> simp only [asks, h] <;> decide

theorem asks_outpack {funcs : JobFuncs} {order : List Bytes} {outpacks : List OutPack}
    {outpack : OutPack} (ho : funcOutpacks funcs order = some outpacks) (h : outpack ∈ outpacks) :
    asks outpack = false := by
  obtain ⟨name, f, -, rfl⟩ := (mem_funcOutpacks ho).mp h
  exact asks_funcPack name f.timeout

theorem asks_broadcast {outpack : OutPack} (h : asks outpack = false) :
    ∀ w ∈ broadcast cfg outpack, asks w.2 = false := by
  rintro ⟨k, p⟩ hw
  cases (mem_broadcast.mp hw).2
  exact h

theorem asks_tells (inpack : InPack) (updates : List Update) :
    ∀ w ∈ tells inpack updates, asks w.2 = false := by
  rintro ⟨k, p⟩ hw
  obtain ⟨-, u, -, rfl⟩ := mem_tells hw
  cases u <;> rfl

theorem prompts_of_isJob {inpack : InPack} (h : Exec.isJob inpack = true) :
    prompts inpack.dataType = true := by
  simp only [Exec.isJob, Bool.or_eq_true, decide_eq_true_eq] at h
  rcases h with h | h <;> simp [prompts, h]

theorem decodeFields_type {inpack inpack' : InPack} {dt : Bytes}
    (h : inpack.decodeFields dt = some inpack') : inpack'.dataType = inpack.dataType := by
  simp only [InPack.decodeFields, Option.bind_eq_bind, Option.pure_def] at h
  split_ifs at h
  · split at h
    · cases h
      rfl
    · obtain ⟨rest, -, h⟩ := Option.bind_eq_some_iff.mp h
      split at h
      · cases h
        rfl
      · simp only [Option.bind_eq_some_iff, Option.some.injEq] at h
        obtain ⟨_, _, _, _, _, _, rfl⟩ := h
        rfl
  · split at h
    · cases h
      rfl
    · obtain ⟨rest, -, h⟩ := Option.bind_eq_some_iff.mp h
      split at h
      · cases h
        rfl
      · obtain ⟨rest, -, h⟩ := Option.bind_eq_some_iff.mp h
        split at h
        · cases h
          rfl
        · simp only [Option.bind_eq_some_iff, Option.some.injEq] at h
          obtain ⟨_, _, _, _, _, _, _, _, rfl⟩ := h
          rfl
  · cases h
    rfl

theorem decodeInPack_type {data : Bytes} {inpack : InPack} {n : ℕ}
    (h : decodeInPack data = some (.ok (inpack, n))) : packetType data = some inpack.dataType := by
  unfold decodeInPack at h
  split_ifs at h
  · cases h
  obtain ⟨dl, -, h⟩ := Option.bind_eq_some_iff.mp h
  unfold decodeChecked at h
  split_ifs at h
  · cases h
  obtain ⟨dt, -, h⟩ := Option.bind_eq_some_iff.mp h
  split_ifs at h
  · cases h
  obtain ⟨dataType, htype, h⟩ := Option.bind_eq_some_iff.mp h
  obtain ⟨inpack', hfields, h⟩ := Option.bind_eq_some_iff.mp h
  cases h
  rw [packetType, htype, decodeFields_type hfields]

/-- What the task does for an agent's current connection does not grow, and what it does
for a connection grows only if it is some agent's current one. -/
structure Pays (s : St) (task task' : Task) : Prop where
  pair : ∀ k c, (s.agents k).rw = some c →
    task'.duty k + task'.load c ≤ task.duty k + task.load c
  base : ∀ c, task'.load c ≤ task.load c ∨ ∃ k, (s.agents k).rw = some c

theorem Pays.of_le (hd : ∀ k, task'.duty k ≤ task.duty k) (hl : ∀ c, task'.load c ≤ task.load c) :
    Pays s task task' :=
  ⟨fun k c _ => Nat.add_le_add (hd k) (hl c), fun c => Or.inl (hl c)⟩

theorem Pays.of_zero (hd : ∀ k, task'.duty k = 0) (hl : ∀ c, task'.load c = 0) :
    Pays s task task' :=
  .of_le (fun k => by simp [hd k]) (fun c => by simp [hl c])

theorem duty_back (k : ℕ) (op : Op) (drains : Bool) : (back op drains).duty k = 0 := by
  cases drains <;> rfl

theorem load_back (c : ℕ) (op : Op) (drains : Bool) : (back op drains).load c = 0 := by
  cases drains <;> rfl

theorem Pays.of_writes (h : ∀ w ∈ todo, asks w.2 = false) (hd : ∀ k, next.duty k = 0)
    (hl : ∀ c, next.load c = 0) : Pays s task (writes todo next) := by
  refine .of_zero ?_ ?_
  · intro k
    rw [duty_writes, countP_eq_zero_of_idle h, hd]
  · intro c
    rw [load_writes, hl]

theorem duty_toAgent {op : Op} {inpack : InPack} {drains : Bool} {outpack : OutPack}
    (h : asks outpack = true) (k : ℕ) :
    (writes (toAgent inpack outpack) (back op drains)).duty k =
      (decide (inpack.a = some k)).toNat := by
  rw [duty_writes, duty_back, countP_toAgent k inpack h, Nat.add_zero]

theorem load_toAgent {op : Op} {inpack : InPack} {drains : Bool} {outpack : OutPack} (c : ℕ) :
    (writes (toAgent inpack outpack) (back op drains)).load c = 0 := by
  rw [load_writes, load_back]

theorem pays_handle {op : Op} {inpack : InPack} {drains : Bool} {outpack : OutPack}
    (h : asks outpack = true) (ht : prompts inpack.dataType = true) :
    Pays s (.call op (.handle inpack drains))
      (writes (toAgent inpack outpack) (back op drains)) := by
  refine .of_le ?_ (fun c => (load_toAgent c).le)
  intro k
  rw [duty_toAgent h]
  simp only [Task.duty, promptsFor, ht, Bool.and_true]
  exact le_rfl

theorem pays_afterLimit {op : Op} {inpack : InPack} {drains : Bool} :
    Pays s (.call op (.limit inpack drains)) (afterLimit op inpack drains) :=
  .of_le (fun k => (duty_toAgent (by decide) k).le) (fun c => (load_toAgent c).le)

theorem pays_answer (s : St) (inpack : InPack) (r : Result) :
    Pays s task (answer s inpack r) := by
  unfold answer
  split_ifs
  · refine .of_writes ?_ (fun _ => rfl) (fun _ => rfl)
    rintro ⟨k, p⟩ hw
    cases mem_toAgent hw
    exact asks_resultPack inpack r
  · exact .of_zero (fun _ => rfl) (fun _ => rfl)

theorem pays_getRW (hc : Conns s) {p : OutPack} {k' c' : ℕ} (hrw : (s.agents k').rw = some c') :
    Pays s (.write ((k', p) :: rest) .getRW next) (.write ((k', p) :: rest) (.flush c') next) := by
  have hduty : ∀ k, (Task.write ((k', p) :: rest) .getRW next).duty k =
      (Task.write ((k', p) :: rest) (.flush c') next).duty k + (asksFor k (k', p)).toNat := by
    intro k
    simp only [Task.duty, Stage.waiting, List.tail_cons, List.countP_cons]
    cases asksFor k (k', p) with
    | false => simp
    | true =>
      simp only [if_true, Bool.toNat_true]
      omega
  have hload : ∀ c, (Task.write ((k', p) :: rest) (.flush c') next).load c =
      (Task.write ((k', p) :: rest) .getRW next).load c + (asksOn c (c', k', p)).toNat := by
    intro c
    simp only [Task.load, Stage.flushing, List.take_succ_cons, List.take_zero, List.map_cons,
      List.map_nil, List.countP_cons, List.countP_nil]
    cases asksOn c (c', k', p) with
    | false => simp
    | true =>
      simp only [if_true, Bool.toNat_true]
      omega
  refine ⟨?_, ?_⟩
  · intro k c hkc
    have hle : (asksOn c (c', k', p)).toNat ≤ (asksFor k (k', p)).toNat := by
      by_cases hcc : c' = c
      · subst hcc
        have hk : k' = k := (hc.rw k' c' hrw).2.1.symm.trans (hc.rw k c' hkc).2.1
        simp [asksOn, asksFor, hk]
      · simp [asksOn, hcc]
    rw [hload, hduty]
    omega
  · intro c
    by_cases hcc : c' = c
    · subst hcc
      exact Or.inr ⟨k', hrw⟩
    · exact Or.inl (by rw [hload]; simp [asksOn, hcc])

theorem pays_decoded {a epoch n : ℕ} {data : Bytes} {inpack : InPack}
    (hcur : (s.agents a).rw = some c) (hd : decodeInPack data = some (.ok (inpack, n))) :
    Pays s (.loop a epoch c (.check (.ok data)))
      (.loop a epoch c (.forward { inpack with a := some a })) := by
  -- A packet is handed on only by the loop of the current connection.
  have hdata : promptsData data = prompts inpack.dataType := by
    rw [promptsData, decodeInPack_type hd, Option.any_some]
  refine ⟨?_, fun c' => Or.inl (Nat.zero_le _)⟩
  intro k c' hkc
  simp only [Task.duty, Task.load, promptsFor, hdata, Nat.add_zero, Nat.zero_add]
  by_cases hk : a = k
  · subst hk
    cases Option.some.inj (hcur.symm.trans hkc)
    simp
  · simp [hk]

theorem pays_reannounce {op : Op} {a epoch : ℕ} {funcs : JobFuncs} {order : List Bytes}
    {outpacks : List OutPack} (ho : funcOutpacks funcs order = some outpacks) :
    Pays s (.call op (.funcOutpacks a epoch c))
      (writes (outpacks.map (fun outpack => (a, outpack)) ++ [(a, grabPack)])
        (.call op (.resume a epoch c))) := by
  have hfuncs : ∀ w ∈ outpacks.map (fun outpack => (a, outpack)), asks w.2 = false := by
    intro w hw
    obtain ⟨outpack, hout, rfl⟩ := List.mem_map.mp hw
    exact asks_outpack ho hout
  have hgrab : asks grabPack = true := by decide
  refine .of_le ?_ (fun c => (load_writes c _ _).le)
  intro k
  rw [duty_writes, List.countP_append, countP_eq_zero_of_idle hfuncs]
  by_cases hk : a = k <;> simp [Task.duty, asksFor, hgrab, hk]

theorem Local.pays (hl : Local cfg s task task') (hc : Conns s) (h : s.tasks i = some task) :
    Pays s task task' := by
  cases hl with
  | ready => split_ifs <;> exact .of_zero (fun _ => rfl) (fun _ => rfl)
  | snapshot hmu => split_ifs <;> exact .of_zero (fun _ => rfl) (fun _ => rfl)
  | getConn => split_ifs <;> exact .of_zero (fun _ => rfl) (fun _ => rfl)
  | isReady hmu => split_ifs <;> exact .of_zero (fun _ => rfl) (fun _ => rfl)
  | announce hk ho =>
    refine .of_writes ?_ (fun _ => rfl) (fun _ => rfl)
    intro w hw
    obtain ⟨outpack, hout, hw⟩ := List.mem_flatMap.mp hw
    exact asks_broadcast (asks_outpack ho hout) w hw
  | noJob ht => exact pays_handle (by decide) (by simp [prompts, ht])
  | noop ht => exact pays_handle (by decide) (by simp [prompts, ht])
  | unlimited hl => exact pays_afterLimit
  | reannounce hmu ho => exact pays_reannounce ho
  | getRW hrw => exact pays_getRW hc hrw
  | flushFailed =>
    refine .of_le (fun k => le_rfl) (fun c => ?_)
    exact Nat.add_le_add_right (Nat.zero_le _) _
  | react he =>
    unfold reaction
    split <;> exact .of_zero (fun _ => rfl) (fun _ => rfl)
  | decoded he hd => exact pays_decoded ((hc.current i _ _ _ _ h rfl).2 he.symm) hd
  | disconnect => split_ifs <;> exact .of_zero (fun _ => rfl) (fun _ => rfl)
  | answer hmu => exact pays_answer _ _ _
  | _ => exact .of_zero (fun _ => rfl) (fun _ => rfl)

theorem Locks.pays (hl : Locks cfg task k task') : Pays s task task' := by
  cases hl with
  | connect hk => exact .of_zero (fun _ => rfl) (fun _ => rfl)
  | write => exact .of_le (fun _ => le_rfl) (fun _ => le_rfl)

theorem Unlocks.pays (hl : Unlocks task k task') : Pays s task task' := by
  cases hl with
  | written =>
    refine .of_le (fun k => ?_) (fun c => ?_)
    · exact (duty_writes k _ _).le
    · exact (load_writes c _ _).trans_le (Nat.le_add_left _ _)
  | _ => exact .of_zero (fun _ => rfl) (fun _ => rfl)

theorem Shuts.pays {old : Option ℕ} (hs : Shuts task old task') : Pays s task task' := by
  cases hs <;> exact .of_zero (fun _ => rfl) (fun _ => rfl)

theorem Reports.pays {rs : List Report} (hr : Reports cfg s task rs task') :
    Pays s task task' := by
  cases hr with
  | serverErr ht => exact .of_zero (fun k => duty_back k _ _) (fun c => load_back c _ _)
  | custome ht hj => exact .of_zero (fun k => duty_back k _ _) (fun c => load_back c _ _)
  | _ => exact .of_zero (fun _ => rfl) (fun _ => rfl)

theorem Spawns.pays (hs : Spawns task task' new) :
    Pays s task task' ∧ (∀ k, new.duty k = 0) ∧ ∀ c, new.load c = 0 := by
  -- A job that is started takes over nothing: the grab stays with `Work`.
  cases hs with
  | job hj =>
    refine ⟨.of_le (fun k => ?_) (fun _ => le_rfl), fun _ => rfl, fun _ => rfl⟩
    simp only [Task.duty, promptsFor, prompts_of_isJob hj, Bool.and_true]
    exact le_rfl
  | _ => exact ⟨.of_zero (fun _ => rfl) (fun _ => rfl), fun _ => rfl, fun _ => rfl⟩

/-- What the step leaves as it is: the connections' packets, the queue, who writes where. -/
structure SameTraffic (s t : St) : Prop where
  rw : ∀ k, (t.agents k).rw = (s.agents k).rw
  published : ∀ c, (t.conns c).published = (s.conns c).published
  sent : ∀ c, (t.conns c).sent = (s.conns c).sent
  wire : ∀ c, (t.conns c).wire = (s.conns c).wire
  inChan : t.inChan = s.inChan

theorem SameTraffic.of_eq (ha : t.agents = s.agents) (hc : t.conns = s.conns)
    (hin : t.inChan = s.inChan) : SameTraffic s t :=
  ⟨fun k => by rw [ha], fun c => by rw [hc], fun c => by rw [hc], fun c => by rw [hc], hin⟩

theorem SameTraffic.setAgent {agent : Agent} (ha : t.agents = Function.update s.agents k agent)
    (hc : t.conns = s.conns) (hin : t.inChan = s.inChan) (hrw : agent.rw = (s.agents k).rw) :
    SameTraffic s t := by
  refine ⟨?_, fun c => by rw [hc], fun c => by rw [hc], fun c => by rw [hc], hin⟩
  intro k'
  by_cases hk : k' = k
  · subst hk
    rw [ha, Function.update_self, hrw]
  · rw [ha, Function.update_of_ne hk]

theorem SameTraffic.shut (old : Option ℕ) (ha : ∀ k, (t.agents k).rw = (s.agents k).rw)
    (hc : t.conns = (s.shut old).conns) (hin : t.inChan = s.inChan) : SameTraffic s t := by
  have hconn : ∀ c, (t.conns c).published = (s.conns c).published ∧
      (t.conns c).sent = (s.conns c).sent ∧ (t.conns c).wire = (s.conns c).wire := by
    intro c
    rw [hc]
    cases old with
    | none => exact ⟨rfl, rfl, rfl⟩
    | some c' =>
      by_cases hcc : c = c'
      · subst hcc
        simp [St.shut, St.setConnAt]
      · simp [St.shut, St.setConnAt, hcc]
  exact ⟨ha, fun c => (hconn c).1, fun c => (hconn c).2.1, fun c => (hconn c).2.2, hin⟩

theorem SameTraffic.closeAgent (s : St) (k i : ℕ) (task : Task) :
    SameTraffic s ((s.closeAgent k).setTask i task) := by
  have hshut : ∀ old : Option ℕ,
      (s.shut old).agents = s.agents ∧ (s.shut old).inChan = s.inChan := by
    intro old
    cases old <;> exact ⟨rfl, rfl⟩
  refine .shut (s.agents k).conn (fun k' => ?_) rfl (hshut _).2
  by_cases hk : k' = k
  · subst hk
    simp [St.setTask, St.closeAgent, St.setAgent]
  · simp [St.setTask, St.closeAgent, St.setAgent, hk, (hshut _).1]

theorem SameTraffic.traffic (h : SameTraffic s t) (c : ℕ) :
    (t.conns c).traffic = (s.conns c).traffic := by
  rw [Conn.traffic, Conn.traffic, h.sent, h.wire]

/-- One task has moved. What it did for an agent and its connection, and what it put on the
queue or on the wire, has not grown. -/
theorem Balanced.update (hi : Balanced s v) (hcs : Conns s) (hn : Named s)
    (h : s.tasks i = some task) (ht : t.tasks = Function.update s.tasks i (some task'))
    (hnt : t.ntask = s.ntask) (hrw : ∀ k, (t.agents k).rw = (s.agents k).rw)
    (hpub : ∀ c, (t.conns c).published = (s.conns c).published)
    (hsent : ∀ c, (s.conns c).grabs ≤ (t.conns c).grabs ∧
      (s.conns c).preSleeps ≤ (t.conns c).preSleeps)
    (hpair : ∀ k c, (s.agents k).rw = some c →
      task'.duty k + t.inChan.countP (promptsFor k) + (task'.load c + (t.conns c).traffic) ≤
        task.duty k + s.inChan.countP (promptsFor k) + (task.load c + (s.conns c).traffic))
    (hbase : ∀ c, task'.load c + (t.conns c).traffic ≤ task.load c + (s.conns c).traffic ∨
      ∃ k, (s.agents k).rw = some c) : Balanced t v := by
  have hduty : ∀ k, t.total (Task.duty k) + task.duty k = s.total (Task.duty k) + task'.duty k :=
    fun k => total_update hn h ht hnt
  have hload : ∀ c, t.total (Task.load c) + task.load c = s.total (Task.load c) + task'.load c :=
    fun c => total_update hn h ht hnt
  have hcurrent : ∀ k c, (s.agents k).rw = some c →
      t.connLoad c + t.agentLoad k ≤ 1 + v.replies c + v.noops c := by
    intro k c hkc
    have hold := hi.current k c hkc
    have hstep := hpair k c hkc
    have hd := hduty k
    have hl := hload c
    simp only [St.connLoad, St.agentLoad] at hold ⊢
    omega
  have hleast : ∀ c, t.connLoad c ≤ s.connLoad c ∨ ∃ k, (s.agents k).rw = some c := by
    intro c
    refine (hbase c).imp ?_ id
    intro hle
    have hl := hload c
    simp only [St.connLoad]
    omega
  refine ⟨?_, ?_, ?_, ?_, ?_⟩
  · intro c
    rcases hleast c with hle | ⟨k, hkc⟩
    · exact hle.trans (hi.base c)
    · exact (Nat.le_add_right _ _).trans (hcurrent k c hkc)
  · intro k c hkc
    exact hcurrent k c (hrw k ▸ hkc)
  · intro c hc
    rw [hpub] at hc
    rcases hleast c with hle | ⟨k, hkc⟩
    · exact Nat.le_zero.mp (hle.trans (hi.fresh c hc).le)
    · simp [(hcs.rw k c hkc).2.2] at hc
  · intro c
    exact (hi.replies c).trans (hsent c).1
  · intro c
    exact (hi.noops c).trans (hsent c).2

theorem Balanced.plain (hi : Balanced s v) (hcs : Conns s) (hn : Named s)
    (h : s.tasks i = some task) (ht : t.tasks = Function.update s.tasks i (some task'))
    (hnt : t.ntask = s.ntask) (hs : SameTraffic s t) (hp : Pays s task task') : Balanced t v := by
  refine hi.update hcs hn h ht hnt hs.rw hs.published ?_ ?_ ?_
  · intro c
    rw [Conn.grabs, Conn.preSleeps, ← hs.sent]
    exact ⟨le_rfl, le_rfl⟩
  · intro k c hkc
    have hle := hp.pair k c hkc
    rw [hs.traffic, hs.inChan]
    omega
  · intro c
    rw [hs.traffic]
    refine (hp.base c).imp (fun hle => ?_) id
    omega

theorem Balanced.of_loads (hi : Balanced s v) (hconn : ∀ c, t.connLoad c = s.connLoad c)
    (hpub : ∀ c, (t.conns c).published = false → (s.conns c).published = false)
    (hsent : ∀ c, (t.conns c).sent = (s.conns c).sent)
    (hcur : ∀ k c, (t.agents k).rw = some c →
      s.connLoad c + t.agentLoad k ≤ 1 + v.replies c + v.noops c) : Balanced t v := by
  refine ⟨?_, ?_, ?_, ?_, ?_⟩
  · intro c
    rw [hconn]
    exact hi.base c
  · intro k c hkc
    rw [hconn]
    exact hcur k c hkc
  · intro c hc
    rw [hconn]
    exact hi.fresh c (hpub c hc)
  · intro c
    rw [Conn.grabs, hsent]
    exact hi.replies c
  · intro c
    rw [Conn.preSleeps, hsent]
    exact hi.noops c

theorem Balanced.spawn (hi : Balanced s v)
    (ht : t.tasks = Function.update s.tasks s.ntask (some new)) (hnt : t.ntask = s.ntask + 1)
    (hs : SameTraffic s t) (hd : ∀ k, new.duty k = 0) (hl : ∀ c, new.load c = 0) :
    Balanced t v := by
  have hagent : ∀ k, t.agentLoad k = s.agentLoad k := by
    intro k
    rw [St.agentLoad, total_new ht hnt, hd, Nat.add_zero, hs.inChan]
    rfl
  refine hi.of_loads ?_ (fun c hc => hs.published c ▸ hc) hs.sent ?_
  · intro c
    rw [St.connLoad, total_new ht hnt, hl, Nat.add_zero, hs.traffic]
    rfl
  · intro k c hkc
    rw [hagent]
    exact hi.current k c (hs.rw k ▸ hkc)

theorem countP_cons_toNat {α : Type} (P : α → Bool) (x : α) (l : List α) :
    (x :: l).countP P = l.countP P + (P x).toNat := by
  rw [List.countP_cons]
  cases P x <;> rfl

theorem countP_concat {α : Type} (P : α → Bool) (x : α) (l : List α) :
    (l ++ [x]).countP P = l.countP P + (P x).toNat := by
  rw [List.countP_append, countP_cons_toNat, List.countP_nil, Nat.zero_add]

theorem Balanced.exchange (hi : Balanced s v) (hcs : Conns s) (hn : Named s) {c' : ℕ} {conn : Conn}
    (h : s.tasks i = some task) (ht : t.tasks = Function.update s.tasks i (some task'))
    (hnt : t.ntask = s.ntask) (ha : t.agents = s.agents) (hin : t.inChan = s.inChan)
    (hc : t.conns = Function.update s.conns c' conn)
    (hpub : conn.published = (s.conns c').published)
    (hsent : (s.conns c').grabs ≤ conn.grabs ∧ (s.conns c').preSleeps ≤ conn.preSleeps)
    (hduty : ∀ k, task'.duty k ≤ task.duty k) (hload : ∀ c, c ≠ c' → task'.load c ≤ task.load c)
    (hsum : task'.load c' + conn.traffic ≤ task.load c' + (s.conns c').traffic) :
    Balanced t v := by
  have hboth : ∀ c, task'.load c + (t.conns c).traffic ≤ task.load c + (s.conns c).traffic ∧
      (t.conns c).published = (s.conns c).published ∧
      (s.conns c).grabs ≤ (t.conns c).grabs ∧ (s.conns c).preSleeps ≤ (t.conns c).preSleeps := by
    intro c
    rw [hc]
    by_cases hcc : c = c'
    · subst hcc
      rw [Function.update_self]
      exact ⟨hsum, hpub, hsent⟩
    · rw [Function.update_of_ne hcc]
      exact ⟨Nat.add_le_add_right (hload c hcc) _, rfl, le_rfl, le_rfl⟩
  refine hi.update hcs hn h ht hnt (fun k => by rw [ha]) (fun c => (hboth c).2.1)
    (fun c => (hboth c).2.2) ?_ (fun c => Or.inl (hboth c).1)
  intro k c _
  rw [hin]
  have hle := (hboth c).1
  have hd := hduty k
  omega

theorem Balanced.sent (hi : Balanced s v) (hcs : Conns s) (hn : Named s) {k' c' : ℕ} {p : OutPack}
    (h : s.tasks i = some (.write ((k', p) :: rest) (.flush c') next)) :
    Balanced ((s.setConnAt c' { s.conns c' with sent := (s.conns c').sent ++ [p] }).setTask i
      (.write ((k', p) :: rest) .unlock next)) v := by
  have hload : ∀ c, (Task.write ((k', p) :: rest) (.flush c') next).load c =
      (Task.write ((k', p) :: rest) .unlock next).load c + (asksOn c (c', k', p)).toNat := by
    intro c
    simp only [Task.load, Stage.flushing, List.take_succ_cons, List.take_zero, List.map_cons,
      List.map_nil, countP_cons_toNat, List.countP_nil]
    omega
  have hmore : (s.conns c').sent.Sublist ((s.conns c').sent ++ [p]) := List.sublist_append_left _ _
  refine hi.exchange hcs hn h rfl rfl rfl rfl rfl rfl ⟨hmore.countP_le, hmore.countP_le⟩
    (fun _ => le_rfl) (fun c _ => (hload c).ge.trans' (Nat.le_add_right _ _)) ?_
  have hl := hload c'
  simp only [asksOn, decide_true, Bool.true_and] at hl
  simp only [Conn.traffic, countP_concat]
  omega

theorem Balanced.read (hi : Balanced s v) (hcs : Conns s) (hn : Named s) {a epoch : ℕ}
    {data : Bytes} {wire : List Bytes} (h : s.tasks i = some (.loop a epoch c .read))
    (hw : (s.conns c).wire = data :: wire) :
    Balanced ((s.setConnAt c { s.conns c with wire := wire }).setTask i
      (.loop a epoch c (.check (.ok data)))) v := by
  refine hi.exchange hcs hn h rfl rfl rfl rfl rfl rfl ⟨le_rfl, le_rfl⟩ (fun _ => le_rfl) ?_ ?_
  · intro c' hne
    simp [Task.load, Ne.symm hne]
  · simp only [Task.load, decide_true, Bool.true_and, Conn.traffic, hw, countP_cons_toNat]
    omega

theorem Balanced.send (hi : Balanced s v) (hcs : Conns s) (hn : Named s) {a epoch : ℕ}
    {inpack : InPack} (h : s.tasks i = some (.loop a epoch c (.forward inpack))) :
    Balanced { s.setTask i (.loop a epoch c .read) with inChan := s.inChan ++ [inpack] } v := by
  refine hi.update hcs hn h rfl rfl (fun _ => rfl) (fun _ => rfl) (fun _ => ⟨le_rfl, le_rfl⟩) ?_
    (fun _ => Or.inl le_rfl)
  intro k c _
  simp only [Task.duty, countP_concat, St.setTask, Task.load]
  omega

theorem Balanced.recv (hi : Balanced s v) (hcs : Conns s) (hn : Named s) {op : Op} {pc : Pc}
    {inpack : InPack} {queue : List InPack} {drains : Bool} (h : s.tasks i = some (.call op pc))
    (hin : s.inChan = inpack :: queue) :
    Balanced { s.setTask i (.call op (.handle inpack drains)) with inChan := queue } v := by
  refine hi.update hcs hn h rfl rfl (fun _ => rfl) (fun _ => rfl) (fun _ => ⟨le_rfl, le_rfl⟩) ?_
    (fun c => Or.inl (by simp [Task.load, St.setTask]))
  intro k c _
  simp only [Task.duty, hin, countP_cons_toNat, St.setTask, Task.load]
  omega

theorem calm_dialled (hg : calm cfg s (.task i) = true) (h : s.tasks i = some task) {w : ℕ × ℕ}
    (hd : task.dialled = some w) : s.agentLoad w.1 = 0 := by
  simp only [calm, h] at hg
  split at hg <;> rename_i heq <;> cases heq
  · cases hd
  · simpa [hd] using hg

theorem Balanced.publish (hi : Balanced s v) (hcs : Conns s) (hn : Named s) {e : ℕ}
    (h : s.tasks i = some task) (hp : Publishes e task k c task') (hzero : s.agentLoad k = 0) :
    Balanced ((s.publish k c).setTask i task') v := by
  -- The new connection starts with nothing but the grab of `reconnect`.
  have hunpub : (s.conns c).published = false := (hcs.fresh i task k c h hp.dialled.1).2.2
  obtain ⟨hd, hself, hother, hl⟩ : (∀ k', task.duty k' = 0) ∧ task'.duty k ≤ 1 ∧
      (∀ k', k' ≠ k → task'.duty k' = 0) ∧ ∀ c', task.load c' = 0 ∧ task'.load c' = 0 := by
    cases hp with
    | reconnect =>
      refine ⟨fun _ => rfl, by simp [Task.duty], ?_, fun _ => ⟨rfl, rfl⟩⟩
      intro k' hne
      simp [Task.duty, Ne.symm hne]
    | _ => exact ⟨fun _ => rfl, Nat.zero_le _, fun _ _ => rfl, fun _ => ⟨rfl, rfl⟩⟩
  have hagent : ∀ k', ((s.publish k c).setTask i task').agentLoad k' =
      s.agentLoad k' + task'.duty k' := by
    intro k'
    have htotal : ((s.publish k c).setTask i task').total (Task.duty k') + task.duty k' =
        s.total (Task.duty k') + task'.duty k' := total_update hn h rfl rfl
    have hin : ((s.publish k c).setTask i task').inChan = s.inChan := rfl
    have hdk := hd k'
    simp only [St.agentLoad, hin]
    omega
  have htraffic : ∀ c', (((s.publish k c).setTask i task').conns c').traffic =
      (s.conns c').traffic := by
    intro c'
    by_cases hc : c' = c
    · subst hc
      simp [St.setTask, St.publish, St.setAgent, St.setConnAt, Conn.traffic]
    · simp [St.setTask, St.publish, St.setAgent, St.setConnAt, hc]
  have hconn : ∀ c', ((s.publish k c).setTask i task').connLoad c' = s.connLoad c' := by
    intro c'
    have htotal : ((s.publish k c).setTask i task').total (Task.load c') + task.load c' =
        s.total (Task.load c') + task'.load c' := total_update hn h rfl rfl
    have hlc := hl c'
    simp only [St.connLoad, htraffic c']
    omega
  refine hi.of_loads hconn ?_ (fun c' => publish_sent s k c c') ?_
  · intro c' hc'
    simp only [St.setTask, publish_published] at hc'
    split_ifs at hc'
    exact hc'
  · intro k' c' hkc
    rw [hagent]
    simp only [St.setTask] at hkc
    by_cases hk : k' = k
    · subst hk
      rw [publish_self] at hkc
      cases hkc
      have hfresh := hi.fresh c hunpub
      omega
    · rw [publish_of_ne s c hk] at hkc
      rw [hother k' hk, Nat.add_zero]
      exact hi.current k' c' hkc

theorem countP_asks (l : List OutPack) :
    l.countP asks = l.countP (fun p => p.dataType = dtGrabJobUniq) +
      l.countP (fun p => p.dataType = dtPreSleep) := by
  induction l with
  | nil => rfl
  | cons p l ih =>
    have hone : (asks p).toNat = (decide (p.dataType = dtGrabJobUniq)).toNat +
        (decide (p.dataType = dtPreSleep)).toNat := by
      by_cases hg : p.dataType = dtGrabJobUniq
      · have hne : p.dataType ≠ dtPreSleep := hg ▸ by decide
        simp [asks, hg]
        decide
      · simp [asks, hg]
    simp only [countP_cons_toNat, ih, hone]
    omega

theorem Balanced.unasked (hi : Balanced s v) (hc : (s.conns c).published = false) :
    (s.conns c).grabs = 0 ∧ (s.conns c).preSleeps = 0 := by
  have hzero := hi.fresh c hc
  have hsum := countP_asks (s.conns c).sent
  simp only [St.connLoad, Conn.traffic] at hzero
  simp only [Conn.grabs, Conn.preSleeps]
  omega

theorem Balanced.dial (hi : Balanced s v) (hcs : Conns s) (hn : Named s)
    (h : s.tasks i = some task) (hd : Dials s.nconn task k task') :
    Balanced ((s.dialled k).setTask i task') v := by
  have hunpub := hcs.unused s.nconn le_rfl
  obtain ⟨hgrabs, hpre⟩ := hi.unasked hunpub
  obtain ⟨hduty, hload⟩ : (∀ k, task'.duty k = 0) ∧ ∀ c, task'.load c = 0 := by
    cases hd <;> exact ⟨fun _ => rfl, fun _ => rfl⟩
  refine hi.exchange hcs hn h rfl rfl rfl rfl rfl hunpub.symm ⟨hgrabs.le, hpre.le⟩
    (fun k' => ?_) (fun c' _ => ?_) ?_
  · rw [hduty]
    exact Nat.zero_le _
  · rw [hload]
    exact Nat.zero_le _
  · rw [hload]
    exact Nat.zero_le _

theorem prompts_served {x : St × Served} {data : Bytes} (hg : honest x (.serve c data) = true) :
    (promptsData data).toNat ≤ (isReply data).toNat + (isNoop data).toNat := by
  cases hp : promptsData data with
  | false => exact Nat.zero_le _
  | true =>
    obtain ⟨dataType, hdata, hpr⟩ : ∃ dataType, packetType data = some dataType ∧
        prompts dataType = true := by
      simpa [promptsData, Option.any_eq_true] using hp
    simp only [honest, isReply, isNoop, hdata, Option.some.injEq] at hg ⊢
    simp only [prompts, Bool.or_eq_true, decide_eq_true_eq] at hpr
    rcases hpr with ((rfl | rfl) | rfl) | rfl
    · decide
    · decide
    · rw [if_neg (by decide), if_neg (by decide)] at hg
      simp at hg
    · decide

theorem honest_served (hi : Balanced s v) {data : Bytes}
    (hg : honest (s, v) (.serve c data) = true) :
    v.replies c + (isReply data).toNat ≤ (s.conns c).grabs ∧
      v.noops c + (isNoop data).toNat ≤ (s.conns c).preSleeps := by
  have hreplies := hi.replies c
  have hnoops := hi.noops c
  have hexcl : isReply data = true → isNoop data = false := by
    intro h
    simp only [isReply, Bool.or_eq_true, decide_eq_true_eq] at h
    rcases h with h | h <;> simp only [isNoop, h] <;> decide
  simp only [honest] at hg
  cases hr : isReply data with
  | true =>
    simp only [hr, if_true, decide_eq_true_eq] at hg
    simpa [hexcl hr, hnoops] using hg
  | false =>
    cases hnoop : isNoop data with
    | true =>
      simp only [hr, hnoop, Bool.false_eq_true, if_false, if_true, decide_eq_true_eq] at hg
      exact ⟨hreplies, hg⟩
    | false => exact ⟨hreplies, hnoops⟩

theorem Balanced.serve (hi : Balanced s v) {data : Bytes}
    (hg : honest (s, v) (.serve c data) = true)
    (ht : t = s.setConnAt c { s.conns c with wire := (s.conns c).wire ++ [data] }) :
    Balanced t (v.note s (.serve c data) t) := by
  have hp := prompts_served hg
  obtain ⟨hreplies, hnoops⟩ := honest_served hi hg
  have hagents : t.agents = s.agents := by rw [ht, St.setConnAt]
  have hagent : ∀ k, t.agentLoad k = s.agentLoad k := fun _ => by rw [ht]; rfl
  have hself : t.connLoad c = s.connLoad c + (promptsData data).toNat := by
    rw [ht]
    simp only [St.connLoad, St.setConnAt, Function.update_self, Conn.traffic, countP_concat,
      St.total]
    omega
  have hconns : ∀ c', c' ≠ c → t.conns c' = s.conns c' := by
    intro c' hc
    rw [ht]
    exact Function.update_of_ne hc ..
  have hother : ∀ c', c' ≠ c → t.connLoad c' = s.connLoad c' := by
    intro c' hc
    rw [St.connLoad, hconns c' hc, ht]
    rfl
  have hc : (t.conns c).published = (s.conns c).published ∧
      (t.conns c).sent = (s.conns c).sent := by
    rw [ht]
    simp [St.setConnAt]
  refine ⟨?_, ?_, ?_, ?_, ?_⟩
  · intro c'
    have hold := hi.base c'
    by_cases hcc : c' = c
    · subst hcc
      simp only [Served.note, Function.update_self]
      omega
    · simpa [Served.note, hcc, hother c' hcc] using hold
  · intro k c' hkc
    rw [hagents] at hkc
    rw [hagent]
    have hold := hi.current k c' hkc
    by_cases hcc : c' = c
    · subst hcc
      simp only [Served.note, Function.update_self]
      omega
    · simpa [Served.note, hcc, hother c' hcc] using hold
  · intro c' hunpub
    by_cases hcc : c' = c
    · subst hcc
      rw [hc.1] at hunpub
      have hzero := hi.fresh c' hunpub
      have hnone := hi.unasked hunpub
      omega
    · rw [hconns c' hcc] at hunpub
      rw [hother c' hcc]
      exact hi.fresh c' hunpub
  · intro c'
    by_cases hcc : c' = c
    · subst hcc
      simpa [Served.note, Conn.grabs, hc.2] using hreplies
    · simpa [Served.note, hcc, hconns c' hcc] using hi.replies c'
  · intro c'
    by_cases hcc : c' = c
    · subst hcc
      simpa [Served.note, Conn.preSleeps, hc.2] using hnoops
    · simpa [Served.note, hcc, hconns c' hcc] using hi.noops c'

theorem countP_broadcast (k : ℕ) : (broadcast cfg grabPack).countP (asksFor k) ≤ 1 ∧
    (¬ k < cfg.nagents → (broadcast cfg grabPack).countP (asksFor k) = 0) := by
  have hcount : (broadcast cfg grabPack).countP (asksFor k) = (List.range cfg.nagents).count k := by
    rw [broadcast, List.countP_map, List.count]
    congr 1
    funext k'
    have hgrab : asks grabPack = true := by decide
    simp [asksFor, hgrab, beq_eq_decide]
  rw [hcount]
  refine ⟨List.nodup_iff_count_le_one.mp List.nodup_range k, ?_⟩
  intro hk
  exact List.count_eq_zero.mpr (fun hmem => hk (List.mem_range.mp hmem))

theorem Balanced.setRunning (hi : Balanced s v) (hn : Named s) {op : Op}
    (h : s.tasks i = some (.call op .setRunning)) (hg : calm cfg s (.task i) = true)
    (ht : t.tasks = Function.update s.tasks i
      (some (writes (broadcast cfg grabPack) (.call op .select))))
    (hnt : t.ntask = s.ntask) (hs : SameTraffic s t) : Balanced t v := by
  simp only [calm, h, List.all_eq_true, List.mem_range, Bool.and_eq_true, decide_eq_true_eq] at hg
  have hagent : ∀ k, t.agentLoad k =
      s.agentLoad k + (broadcast cfg grabPack).countP (asksFor k) := by
    intro k
    have htotal := total_update (w := Task.duty k) hn h ht hnt
    rw [duty_writes] at htotal
    simp only [Task.duty] at htotal
    simp only [St.agentLoad, hs.inChan]
    omega
  refine hi.of_loads ?_ (fun c hc => hs.published c ▸ hc) hs.sent ?_
  · intro c
    have htotal := total_update (w := Task.load c) hn h ht hnt
    rw [load_writes] at htotal
    simp only [Task.load, Nat.add_zero] at htotal
    rw [St.connLoad, htotal, hs.traffic]
    rfl
  · intro k c hkc
    rw [hs.rw] at hkc
    rw [hagent]
    obtain ⟨hone, hnone⟩ := @countP_broadcast cfg k
    by_cases hk : k < cfg.nagents
    · obtain ⟨hzero, hrw⟩ := hg k hk
      rw [hkc] at hrw
      have hconn : s.connLoad c = 0 := by simpa using hrw
      omega
    · rw [hnone hk]
      exact hi.current k c hkc

theorem entry_asks_nothing (op : Op) :
    (∀ k, (entry cfg op).duty k = 0) ∧ ∀ c, (entry cfg op).load c = 0 := by
  have idle : ∀ {todo : List (ℕ × OutPack)} {pc : Pc}, (∀ w ∈ todo, asks w.2 = false) →
      (∀ k, (Task.call op pc).duty k = 0) → (∀ k, (writes todo (.call op pc)).duty k = 0) ∧
        ∀ c, (writes todo (.call op pc)).load c = 0 := by
    intro todo pc hp hpc
    refine ⟨fun k => ?_, fun c => load_writes c _ _⟩
    rw [duty_writes, countP_eq_zero_of_idle hp, hpc]
  cases op with
  | reset => exact idle (asks_broadcast rfl) (fun _ => rfl)
  | echo data => exact idle (asks_broadcast rfl) (fun _ => rfl)
  | setId id => exact idle (asks_broadcast rfl) (fun _ => rfl)
  | progress inpack updates => exact idle (asks_tells inpack updates) (fun _ => rfl)
  | _ => exact ⟨fun _ => rfl, fun _ => rfl⟩

theorem pays_changes {op : Op} {funcs : JobFuncs} (hc : Changes cfg s op funcs todo) :
    Pays s task (writes todo (.call op .unlockWorker)) := by
  cases hc with
  | add hf =>
    exact .of_writes (asks_broadcast (asks_funcPack _ _)) (fun _ => rfl) (fun _ => rfl)
  | remove => exact .of_writes (asks_broadcast rfl) (fun _ => rfl) (fun _ => rfl)

theorem Balanced.handoff (hi : Balanced s v) (hcs : Conns s) (hn : Named s) {j : ℕ} {op : Op}
    {inpack job : InPack} {drains : Bool} {err : Option Err} {p : Option PanicValue}
    (h : s.tasks i = some (.call op (.limit inpack drains)))
    (h' : s.tasks j = some (.exec job (.deferred err p))) :
    Balanced ((s.setTask i (afterLimit op inpack drains)).setTask j
      (.exec job (.report (Exec.recovered err p)))) v := by
  have hne : j ≠ i := by
    rintro rfl
    simp [h] at h'
  have hmid : Balanced (s.setTask i (afterLimit op inpack drains)) v :=
    hi.plain hcs hn h rfl rfl (.of_eq rfl rfl rfl) pays_afterLimit
  refine hmid.plain ?_ ?_ ((Function.update_of_ne hne ..).trans h') rfl rfl (.of_eq rfl rfl rfl)
    (.of_zero (fun _ => rfl) (fun _ => rfl))
  · exact hcs.steady (.steady h rfl (.of_writes (steady_back _ _))) (.of_eq rfl rfl rfl id)
  · have hch : Change s (s.setTask i (afterLimit op inpack drains)) := .one h rfl rfl
    exact hch.named hn

theorem Balanced.move (hi : Balanced s v) (hcs : Conns s) (hn : Named s)
    (hg : honest (s, v) act = true) (hcalm : calm cfg s act = true) (hm : Move cfg s act t) :
    Balanced t (v.note s act t) := by
  have zero : ∀ {i : ℕ} {task task' : Task}, s.tasks i = some task →
      t.tasks = Function.update s.tasks i (some task') → (∀ k, task'.duty k = 0) →
      (∀ c, task'.load c = 0) → t.ntask = s.ntask → SameTraffic s t → Balanced t v :=
    fun h ht hd hl hnt hs => hi.plain hcs hn h ht hnt hs (.of_zero hd hl)
  by_cases hserve : ∃ c data, act = .serve c data
  · obtain ⟨c, data, rfl⟩ := hserve
    cases hm with
    | serve hc => exact hi.serve hg rfl
    | pc h hl ha => cases ha
    | report h hr ha => cases ha
    | recv h hpc hin ha => cases ha
  · have hnote : v.note s act t = v := by
      cases act with
      | serve c data => exact absurd ⟨c, data, rfl⟩ hserve
      | _ => rfl
    rw [hnote]
    cases hm with
    | serve hc => exact absurd ⟨_, _, rfl⟩ hserve
    | call op hc =>
      obtain ⟨hd, hl⟩ := @entry_asks_nothing cfg op
      exact hi.spawn rfl rfl (.of_eq rfl rfl rfl) hd hl
    | pc h hl ha => exact hi.plain hcs hn h rfl rfl (.of_eq rfl rfl rfl) (hl.pays hcs h)
    | lock h hl hfree => exact hi.plain hcs hn h rfl rfl (.setAgent rfl rfl rfl rfl) hl.pays
    | unlock h hl => exact hi.plain hcs hn h rfl rfl (.setAgent rfl rfl rfl rfl) hl.pays
    | dial h hd => exact hi.dial hcs hn h hd
    | publish h hp => exact hi.publish hcs hn h hp (calm_dialled hcalm h hp.dialled.1)
    | @spawn i task task' new h hs =>
      obtain ⟨hpays, hd, hl⟩ := hs.pays
      have hmid : Balanced (s.setTask i task') v :=
        hi.plain hcs hn h rfl rfl (.of_eq rfl rfl rfl) hpays
      exact hmid.spawn rfl rfl (.of_eq rfl rfl rfl) hd hl
    | @shut i old task task' h hs =>
      refine hi.plain hcs hn h (shut_setTask s old i task') (shut_ntask s old) ?_ hs.pays
      exact .shut old (fun k => by cases old <;> rfl) rfl (by cases old <;> rfl)
    | report h hr ha => exact hi.plain hcs hn h rfl rfl (.of_eq rfl rfl rfl) hr.pays
    | @setReady i op h hmu =>
      refine zero h rfl (fun k => ?_) (fun c => ?_) rfl (.of_eq rfl rfl rfl) <;> cases op <;> rfl
    | setRunning h hmu => exact hi.setRunning hn h hcalm rfl rfl (.of_eq rfl rfl rfl)
    | @closeAgent i k op h hk =>
      exact zero h (closeAgent_setTask s k i _) (fun _ => rfl) (fun _ => rfl) (shut_ntask s _)
        (.closeAgent s k i _)
    | changeFuncs h hmu hr heq =>
      exact hi.plain hcs hn h rfl rfl (.of_eq rfl rfl rfl) (pays_changes (changes_of_eq hmu hr heq))
    | sent h hopen => exact hi.sent hcs hn h
    | read h hw => exact hi.read hcs hn h hw
    | send h hfull => exact hi.send hcs hn h
    | recv h hpc hin ha => exact hi.recv hcs hn h hin
    | token h hl hcap => exact hi.plain hcs hn h rfl rfl (.of_eq rfl rfl rfl) pays_afterLimit
    | handoff h h' hl => exact hi.handoff hcs hn h h'
    | panic h hrw => exact ⟨hi.base, hi.current, hi.fresh, hi.replies, hi.noops⟩
    | _ => exact zero (by assumption) rfl (fun _ => rfl) (fun _ => rfl) rfl (.of_eq rfl rfl rfl)

theorem balanced_start : Balanced {} {} where
  base _ := Nat.zero_le _
  current k c h := by cases h
  fresh _ _ := rfl
  replies _ := Nat.zero_le _
  noops _ := Nat.zero_le _

/-- With a server that answers each grab once, at most one grab is outstanding on any
connection in every state of a run in which `Work` starts and connections are published
while nothing is under way for the agent. -/
theorem one_outstanding_grab (cfg : Cfg) (x : St × Served)
    (hx : Reachable (traced (step cfg) Served.note)
      (fun x act => honest x act && calm cfg x.1 act) ({}, {}) x) (c : ℕ) :
    (x.1.conns c).grabs ≤ x.2.replies c + 1 := by
  have hi : Named x.1 ∧ Conns x.1 ∧ Balanced x.1 x.2 := by
    refine hx.invariant (I := fun x => Named x.1 ∧ Conns x.1 ∧ Balanced x.1 x.2)
      ⟨named_start, conns_start, balanced_start⟩ ?_
    rintro ⟨s, v⟩ act ⟨t, v'⟩ ⟨hn, hcs, hi⟩ hg h
    obtain ⟨hstep, hv⟩ := traced_eq_some.mp h
    simp only at hstep hv
    subst hv
    obtain ⟨hhonest, hcalm⟩ := Bool.and_eq_true_iff.mp hg
    exact ⟨hn.move (step_move hstep), hcs.move (step_move hstep),
      hi.move hcs hn hhonest hcalm (step_move hstep)⟩
  have hbase := hi.2.2.base c
  have hnoops := hi.2.2.noops c
  have hasks := countP_asks (x.1.conns c).sent
  simp only [St.connLoad, Conn.traffic] at hbase
  simp only [Conn.grabs, Conn.preSleeps] at hnoops ⊢
  omega

/-- `Work` runs on its only connection, has grabbed and is given a job. -/
def assignedActs : List Act :=
  (brokenActs (.read .eof)).dropLast ++
    [.serve 0 (Wire.frame res dtJobAssignUniq [72, 0, 102, 0, 117, 0]), .read 2 none, .task 2,
      .send 2]

/-- The dispatch loop takes the packet, starts the job and grabs the next one. -/
def dispatchedActs : List Act := [.recv 1, .task 1, .task 1] ++ writeActs 1

theorem one_outstanding_grab_assigned :
    ∃ x, run (traced (step oneAgent) Served.note)
      (fun x act => honest x act && calm oneAgent x.1 act) ({}, {})
      (assignedActs ++ dispatchedActs) = some x ∧
      (x.1.conns 0).grabs = 2 ∧ x.2.replies 0 = 1 ∧ (x.1.conns 0).grabs ≤ x.2.replies 0 + 1 := by
  have hrun : (run (traced (step oneAgent) Served.note)
      (fun x act => honest x act && calm oneAgent x.1 act) ({}, {})
      (assignedActs ++ dispatchedActs)).map (fun x => ((x.1.conns 0).grabs, x.2.replies 0)) =
      some (2, 1) := by decide +kernel
  obtain ⟨x, hx, hcounts⟩ := Option.map_eq_some_iff.mp hrun
  obtain ⟨hgrabs, hreplies⟩ := Prod.mk.inj hcounts
  exact ⟨x, hx, hgrabs, hreplies, one_outstanding_grab oneAgent x ⟨_, hx⟩ 0⟩

/-- The job is still queued when the connection breaks. `Reconnect` publishes a new connection
and grabs on it, and then the dispatch loop asks the agent to grab for the queued job. -/
theorem two_outstanding_grabs :
    ∃ x, Reachable (traced (step oneAgent) Served.note) honest ({}, {}) x ∧
      (x.1.conns 1).grabs = 2 ∧ x.2.replies 1 = 0 := by
  have hrun : (run (traced (step oneAgent) Served.note) honest ({}, {})
      (assignedActs ++ [.read 2 (some (.read .eof)), .task 2, .task 2, .task 2,
        .call (.reconnect 0), .dial 3 none, .task 3, .range 3 [[102]]] ++ writeActs 3 ++
        writeActs 3 ++ [.task 3] ++ dispatchedActs)).map
      (fun x => ((x.1.conns 1).grabs, x.2.replies 1)) = some (2, 0) := by decide +kernel
  obtain ⟨x, hx, hcounts⟩ := Option.map_eq_some_iff.mp hrun
  obtain ⟨hgrabs, hreplies⟩ := Prod.mk.inj hcounts
  exact ⟨x, ⟨_, hx⟩, hgrabs, hreplies⟩

end Gearman.Worker.Machine
