import Gearman.WorkerMachine

/-!
# What one step of the worker can do

`Move` lists the atomic steps with their guards and the exact state each of them
leaves. The three goroutines that dial and publish a connection, the two that take an
agent's lock and so on are told apart only by the task before and after the step, so
`Move` has one constructor for each kind of effect.
-/

namespace Gearman.Worker.Machine
open Bytes

inductive Local (cfg : Cfg) (s : St) : Task → Task → Prop
  | ready {op : Op} : Local cfg s (.call op .ready)
      (.call op (if cfg.nagents = 0 then .returned (some .noneAgents) else .snapshot))
  | snapshot {op : Op} (hmu : s.mutex = none) : Local cfg s (.call op .snapshot)
      (.call op (if s.funcs.keys = [] then .returned (some .noneFuncs) else .connect 0 s.funcs))
  | getConn {op : Op} {k : ℕ} {funcs : JobFuncs} : Local cfg s (.call op (.getConn k funcs))
      (.call op (if (s.agents k).conn.isSome then .unlock k funcs none else .dialConn k funcs))
  | connectFailed {op : Op} {k : ℕ} {funcs : JobFuncs} (err : Err) :
      Local cfg s (.call op (.dialConn k funcs)) (.call op (.unlock k funcs (some err)))
  | announce {op : Op} {k : ℕ} {funcs : JobFuncs} {order : List Bytes} {outpacks : List OutPack}
      (hk : ¬ k < cfg.nagents) (ho : funcOutpacks funcs order = some outpacks) :
      Local cfg s (.call op (.connect k funcs))
        (writes (outpacks.flatMap (broadcast cfg)) (.call op .setReady))
  | isReady {op : Op} (hmu : s.mutex = none) : Local cfg s (.call op .isReady)
      (.call op (if s.ready then .setRunning else .ready))
  | noJob {op : Op} {inpack : InPack} {drains : Bool} (ht : inpack.dataType = dtNoJob) :
      Local cfg s (.call op (.handle inpack drains))
        (writes (toAgent inpack preSleepPack) (back op drains))
  | noop {op : Op} {inpack : InPack} {drains : Bool} (ht : inpack.dataType = dtNoop) :
      Local cfg s (.call op (.handle inpack drains))
        (writes (toAgent inpack grabPack) (back op drains))
  | unlimited {op : Op} {inpack : InPack} {drains : Bool} (hl : cfg.limit = none) :
      Local cfg s (.call op (.limit inpack drains)) (afterLimit op inpack drains)
  | quit {op : Op} (hq : s.quit = true) : Local cfg s (.call op .select) (.call op .drain)
  | drained {op : Op} (hin : s.inChan = []) :
      Local cfg s (.call op .drain) (.call op (.returned none))
  | closed {op : Op} {k : ℕ} (hk : ¬ k < cfg.nagents) :
      Local cfg s (.call op (.closeAgent k)) (.call op .closed)
  | reconnectFailed {op : Op} {a : ℕ} (err : Err) :
      Local cfg s (.call op (.redial a)) (.call op (.returned (some err)))
  | reannounce {op : Op} {a epoch c : ℕ} {order : List Bytes} {outpacks : List OutPack}
      (hmu : s.mutex = none) (ho : funcOutpacks s.funcs order = some outpacks) :
      Local cfg s (.call op (.funcOutpacks a epoch c))
        (writes (outpacks.map (fun outpack => (a, outpack)) ++ [(a, grabPack)])
          (.call op (.resume a epoch c)))
  | funcExists {funcname : Bytes} {f : JobFunc} (hmu : s.mutex = none)
      (hf : (s.funcs.lookup funcname).isSome = true) :
      Local cfg s (.call (.addFunc funcname f) .lock)
        (.call (.addFunc funcname f) (.returned (some (Calls.funcExists funcname))))
  | funcMissing {funcname : Bytes} (hmu : s.mutex = none)
      (hf : (s.funcs.lookup funcname).isNone = true) :
      Local cfg s (.call (.removeFunc funcname) .lock)
        (.call (.removeFunc funcname) (.returned (some (Exec.funcMissing funcname))))
  | getRW {k c : ℕ} {outpack : OutPack} {rest : List (ℕ × OutPack)} {next : Task}
      (hrw : (s.agents k).rw = some c) :
      Local cfg s (.write ((k, outpack) :: rest) .getRW next)
        (.write ((k, outpack) :: rest) (.flush c) next)
  | flushFailed {k c : ℕ} {outpack : OutPack} {rest : List (ℕ × OutPack)} {next : Task} :
      Local cfg s (.write ((k, outpack) :: rest) (.flush c) next)
        (.write ((k, outpack) :: rest) .unlock next)
  | readErr {a epoch c : ℕ} (err : Err) :
      Local cfg s (.loop a epoch c .read) (.loop a epoch c (.check (.error err)))
  | stale {a epoch c : ℕ} {r : Except Err Bytes} (he : (s.agents a).epoch ≠ epoch) :
      Local cfg s (.loop a epoch c (.check r)) (.loop a epoch c .done)
  | react {a epoch c : ℕ} {err : Err} (he : (s.agents a).epoch = epoch) :
      Local cfg s (.loop a epoch c (.check (.error err))) (.loop a epoch c (reaction err))
  | decoded {a epoch c n : ℕ} {data : Bytes} {inpack : InPack} (he : (s.agents a).epoch = epoch)
      (hd : decodeInPack data = some (.ok (inpack, n))) :
      Local cfg s (.loop a epoch c (.check (.ok data)))
        (.loop a epoch c (.forward { inpack with a := some a }))
  | disconnect {a epoch c : ℕ} {err : Err} : Local cfg s (.loop a epoch c (.disconnect err))
      (.loop a epoch c (if (s.agents a).conn.isSome then .reportDisconnect err else .done))
  | oldConn {a epoch c : ℕ} : Local cfg s (.loop a epoch c .getConn)
      (.loop a epoch c (.dial (s.agents a).conn))
  | loopQuit {a epoch c : ℕ} {inpack : InPack} (hq : s.quit = true) :
      Local cfg s (.loop a epoch c (.forward inpack)) (.loop a epoch c .done)
  | lookup {inpack : InPack} (hmu : s.mutex = none) :
      Local cfg s (.exec inpack .lookup) (.exec inpack (lookup s inpack.fn))
  | timedOut {inpack : InPack} {f : JobFunc} (ht : f.timeout ≠ 0) :
      Local cfg s (.exec inpack (.call f)) (.exec inpack (.running { err := some .timeOut }))
  | finished {inpack : InPack} {f : JobFunc} {data : Bytes} {err : Option Err}
      (hf : f.f inpack = .returned data err) :
      Local cfg s (.exec inpack (.call f)) (.exec inpack (.running { data, err }))
  | panicked {inpack : InPack} {f : JobFunc} {v : PanicValue} (hf : f.f inpack = .panicked v)
      (ht : f.timeout = 0) :
      Local cfg s (.exec inpack (.call f)) (.exec inpack (.deferred none (some v)))
  | answer {inpack : InPack} {r : Result} (hmu : s.mutex = none) :
      Local cfg s (.exec inpack (.running r)) (answer s inpack r)
  | release {inpack : InPack} {err : Option Err} {v : Option PanicValue} (hl : cfg.limit = none) :
      Local cfg s (.exec inpack (.deferred err v)) (.exec inpack (.report (Exec.recovered err v)))

/-- `task` goes on as `task'` once it holds the lock of agent `k`. -/
inductive Locks (cfg : Cfg) : Task → ℕ → Task → Prop
  | connect {op : Op} {k : ℕ} {funcs : JobFuncs} (hk : k < cfg.nagents) :
      Locks cfg (.call op (.connect k funcs)) k (.call op (.getConn k funcs))
  | write {k : ℕ} {outpack : OutPack} {rest : List (ℕ × OutPack)} {next : Task} :
      Locks cfg (.write ((k, outpack) :: rest) .lock next) k
        (.write ((k, outpack) :: rest) .getRW next)

inductive Unlocks : Task → ℕ → Task → Prop
  | connected {op : Op} {k : ℕ} {funcs : JobFuncs} :
      Unlocks (.call op (.unlock k funcs none)) k (.call op (.connect (k + 1) funcs))
  | failed {op : Op} {k : ℕ} {funcs : JobFuncs} {err : Err} :
      Unlocks (.call op (.unlock k funcs (some err))) k (.call op (.returned (some err)))
  | written {k : ℕ} {outpack : OutPack} {rest : List (ℕ × OutPack)} {next : Task} :
      Unlocks (.write ((k, outpack) :: rest) .unlock next) k (writes rest next)

/-- `task` goes on as `task'` with the connection `c` it has dialled for agent `k`. -/
inductive Dials (c : ℕ) : Task → ℕ → Task → Prop
  | connect {op : Op} {k : ℕ} {funcs : JobFuncs} :
      Dials c (.call op (.dialConn k funcs)) k (.call op (.setConn k c funcs))
  | reconnect {op : Op} {a : ℕ} : Dials c (.call op (.redial a)) a (.call op (.republish a c))
  | loop {a epoch c' : ℕ} {old : Option ℕ} :
      Dials c (.loop a epoch c' (.dial old)) a (.loop a epoch c' (.setConn old c))

/-- `task` goes on as `task'` once it has published `c` under the epoch `e`. -/
inductive Publishes (e : ℕ) : Task → ℕ → ℕ → Task → Prop
  | connect {op : Op} {k c : ℕ} {funcs : JobFuncs} :
      Publishes e (.call op (.setConn k c funcs)) k c (.call op (.goWork k e c funcs))
  | reconnect {op : Op} {a c : ℕ} :
      Publishes e (.call op (.republish a c)) a c (.call op (.funcOutpacks a e c))
  | loop {a epoch c c' : ℕ} {old : Option ℕ} :
      Publishes e (.loop a epoch c' (.setConn old c)) a c (.loop a e c (.closeOld old))

inductive Spawns : Task → Task → Task → Prop
  | connect {op : Op} {k epoch c : ℕ} {funcs : JobFuncs} :
      Spawns (.call op (.goWork k epoch c funcs)) (.call op (.unlock k funcs none))
        (.loop k epoch c .read)
  | reconnect {op : Op} {a epoch c : ℕ} :
      Spawns (.call op (.resume a epoch c)) (.call op (.returned none)) (.loop a epoch c .read)
  | job {op : Op} {inpack : InPack} {drains : Bool} (hj : Exec.isJob inpack = true) :
      Spawns (.call op (.handle inpack drains)) (.call op (.limit inpack drains))
        (.exec inpack .lookup)

/-- The loop closes the connection it has replaced, or could not replace. -/
inductive Shuts : Task → Option ℕ → Task → Prop
  | replaced {a epoch c : ℕ} {old : Option ℕ} :
      Shuts (.loop a epoch c (.closeOld old)) old (.loop a epoch c .read)
  | gaveUp {a epoch c : ℕ} {old : Option ℕ} :
      Shuts (.loop a epoch c (.giveUp old)) old (.loop a epoch c .done)

inductive Reports (cfg : Cfg) (s : St) : Task → List Report → Task → Prop
  | serverErr {op : Op} {inpack : InPack} {drains : Bool} (ht : inpack.dataType = dtError) :
      Reports cfg s (.call op (.handle inpack drains))
        (.err (getError inpack.data) :: customeHandler cfg inpack) (back op drains)
  | custome {op : Op} {inpack : InPack} {drains : Bool}
      (ht : inpack.dataType ∉ [dtNoJob, dtNoop, dtError]) (hj : Exec.isJob inpack = false) :
      Reports cfg s (.call op (.handle inpack drains)) (customeHandler cfg inpack) (back op drains)
  | undecoded {a epoch c : ℕ} {data : Bytes} {err : Err} (he : (s.agents a).epoch = epoch)
      (hd : decodeInPack data = some (.error err)) :
      Reports cfg s (.loop a epoch c (.check (.ok data))) [.err err] (.loop a epoch c .read)
  | disconnected {a epoch c : ℕ} {err : Err} :
      Reports cfg s (.loop a epoch c (.reportDisconnect err)) [.disconnect a err]
        (.loop a epoch c .done)
  | readErr {a epoch c : ℕ} {err : Err} :
      Reports cfg s (.loop a epoch c (.report err)) [.err err] (.loop a epoch c .getConn)
  | dialErr {a epoch c : ℕ} {old : Option ℕ} {err : Err} :
      Reports cfg s (.loop a epoch c (.dial old)) [.err err] (.loop a epoch c (.giveUp old))
  | exec {inpack : InPack} {err : Option Err} :
      Reports cfg s (.exec inpack (.report err)) (err.toList.map .err) (.exec inpack .done)

def Act.runner : Act → Option ℕ
  | .call _ => none
  | .task i => some i
  | .dial i _ => some i
  | .range i _ => some i
  | .flush i _ => some i
  | .read i _ => some i
  | .send i => some i
  | .recv i => some i
  | .quit i => some i
  | .job i _ => some i
  | .handoff i _ => some i
  | .serve _ _ => none

inductive Move (cfg : Cfg) (s : St) : Act → St → Prop
  | call (op : Op) (hc : callable s op = true) : Move cfg s (.call op) (s.spawn (entry cfg op))
  | pc {act : Act} {i : ℕ} {task task' : Task} (h : s.tasks i = some task)
      (hl : Local cfg s task task') (ha : act.runner = some i) : Move cfg s act (s.setTask i task')
  | lock {i k : ℕ} {task task' : Task} (h : s.tasks i = some task) (hl : Locks cfg task k task')
      (hfree : (s.agents k).mutex = none) :
      Move cfg s (.task i) ((s.lockAgent k i).setTask i task')
  | unlock {i k : ℕ} {task task' : Task} (h : s.tasks i = some task) (hl : Unlocks task k task') :
      Move cfg s (.task i) ((s.unlockAgent k).setTask i task')
  | dial {i k : ℕ} {task task' : Task} (h : s.tasks i = some task)
      (hd : Dials s.nconn task k task') :
      Move cfg s (.dial i none) ((s.dialled k).setTask i task')
  | publish {i k c : ℕ} {task task' : Task} (h : s.tasks i = some task)
      (hp : Publishes (s.nextEpoch k) task k c task') :
      Move cfg s (.task i) ((s.publish k c).setTask i task')
  | spawn {i : ℕ} {task task' new : Task} (h : s.tasks i = some task)
      (hs : Spawns task task' new) : Move cfg s (.task i) ((s.setTask i task').spawn new)
  | shut {i : ℕ} {old : Option ℕ} {task task' : Task} (h : s.tasks i = some task)
      (hs : Shuts task old task') : Move cfg s (.task i) ((s.shut old).setTask i task')
  | report {act : Act} {i : ℕ} {rs : List Report} {task task' : Task} (h : s.tasks i = some task)
      (hr : Reports cfg s task rs task') (ha : act.runner = some i) :
      Move cfg s act { s.setTask i task' with reports := s.reports ++ rs }
  | setReady {i : ℕ} {op : Op} (h : s.tasks i = some (.call op .setReady)) (hmu : s.mutex = none) :
      Move cfg s (.task i) { s.setTask i (.call op op.afterReady) with ready := true }
  | setRunning {i : ℕ} {op : Op} (h : s.tasks i = some (.call op .setRunning))
      (hmu : s.mutex = none) :
      Move cfg s (.task i) { s.setTask i (writes (broadcast cfg grabPack) (.call op .select)) with
        running := true }
  | close {i : ℕ} {op : Op} (h : s.tasks i = some (.call op .close)) (hmu : s.mutex = none)
      (hc : s.closed = false) :
      Move cfg s (.task i)
        { s.setTask i (.call op .closeQuit) with closed := true, running := false }
  | closeAgain {i : ℕ} {op : Op} (h : s.tasks i = some (.call op .close)) (hmu : s.mutex = none)
      (hc : s.closed = true) : Move cfg s (.task i) (s.setTask i (.call op .closed))
  | closeQuit {i : ℕ} {op : Op} (h : s.tasks i = some (.call op .closeQuit)) :
      Move cfg s (.task i) { s.setTask i (.call op (.closeAgent 0)) with quit := true }
  | closeAgent {i k : ℕ} {op : Op} (h : s.tasks i = some (.call op (.closeAgent k)))
      (hk : k < cfg.nagents) :
      Move cfg s (.task i) ((s.closeAgent k).setTask i (.call op (.closeAgent (k + 1))))
  | changeFuncs {i : ℕ} {op : Op} {funcs : JobFuncs} {todo : List (ℕ × OutPack)}
      (h : s.tasks i = some (.call op .lock)) (hmu : s.mutex = none) (hr : s.running = true)
      (heq : changeFuncs cfg s i op = some { s.setTask i (writes todo (.call op .unlockWorker)) with
        funcs := funcs, mutex := some i }) :
      Move cfg s (.task i) { s.setTask i (writes todo (.call op .unlockWorker)) with
        funcs := funcs, mutex := some i }
  | setFuncs {i : ℕ} {op : Op} {pc : Pc} {funcs : JobFuncs} (h : s.tasks i = some (.call op pc))
      (hpc : pc = .lock ∨ pc = .clear) (hmu : s.mutex = none)
      (heq : callStep cfg s i op pc = some { s.setTask i (.call op (.returned none)) with
        funcs := funcs }) :
      Move cfg s (.task i) { s.setTask i (.call op (.returned none)) with funcs := funcs }
  | unlockWorker {i : ℕ} {op : Op} (h : s.tasks i = some (.call op .unlockWorker)) :
      Move cfg s (.task i) { s.setTask i (.call op (.returned none)) with mutex := none }
  | sent {i k c : ℕ} {outpack : OutPack} {rest : List (ℕ × OutPack)} {next : Task}
      (h : s.tasks i = some (.write ((k, outpack) :: rest) (.flush c) next))
      (hopen : (s.conns c).closed = false) :
      Move cfg s (.flush i true)
        ((s.setConnAt c { s.conns c with sent := (s.conns c).sent ++ [outpack] }).setTask i
          (.write ((k, outpack) :: rest) .unlock next))
  | read {i a epoch c : ℕ} {data : Bytes} {rest : List Bytes}
      (h : s.tasks i = some (.loop a epoch c .read)) (hw : (s.conns c).wire = data :: rest) :
      Move cfg s (.read i none) ((s.setConnAt c { s.conns c with wire := rest }).setTask i
        (.loop a epoch c (.check (.ok data))))
  | send {i a epoch c : ℕ} {inpack : InPack}
      (h : s.tasks i = some (.loop a epoch c (.forward inpack)))
      (hfull : s.inChan.length < queueSize) :
      Move cfg s (.send i)
        { s.setTask i (.loop a epoch c .read) with inChan := s.inChan ++ [inpack] }
  | recv {act : Act} {i : ℕ} {op : Op} {pc : Pc} {inpack : InPack} {rest : List InPack}
      {drains : Bool} (h : s.tasks i = some (.call op pc))
      (hpc : pc = if drains then .drain else .select) (hin : s.inChan = inpack :: rest)
      (ha : act.runner = some i) :
      Move cfg s act { s.setTask i (.call op (.handle inpack drains)) with inChan := rest }
  | token {i cap : ℕ} {op : Op} {inpack : InPack} {drains : Bool}
      (h : s.tasks i = some (.call op (.limit inpack drains))) (hl : cfg.limit = some cap)
      (hcap : s.tokens < cap) :
      Move cfg s (.task i)
        { s.setTask i (afterLimit op inpack drains) with tokens := s.tokens + 1 }
  | release {i cap : ℕ} {inpack : InPack} {err : Option Err} {v : Option PanicValue}
      (h : s.tasks i = some (.exec inpack (.deferred err v))) (hl : cfg.limit = some cap)
      (hpos : 0 < s.tokens) :
      Move cfg s (.task i) { s.setTask i (.exec inpack (.report (Exec.recovered err v))) with
        tokens := s.tokens - 1 }
  | handoff {i j : ℕ} {op : Op} {inpack job : InPack} {drains : Bool} {err : Option Err}
      {v : Option PanicValue} (h : s.tasks i = some (.call op (.limit inpack drains)))
      (h' : s.tasks j = some (.exec job (.deferred err v))) (hl : cfg.limit = some 0) :
      Move cfg s (.handoff i j) ((s.setTask i (afterLimit op inpack drains)).setTask j
        (.exec job (.report (Exec.recovered err v))))
  | serve {c : ℕ} {data : Bytes} (hc : c < s.nconn) :
      Move cfg s (.serve c data)
        (s.setConnAt c { s.conns c with wire := (s.conns c).wire ++ [data] })
  | panic {i k : ℕ} {outpack : OutPack} {rest : List (ℕ × OutPack)} {next : Task}
      (h : s.tasks i = some (.write ((k, outpack) :: rest) .getRW next))
      (hrw : (s.agents k).rw = none) : Move cfg s (.task i) { s with panicked := true }

variable {cfg : Cfg} {s t : St} {i : ℕ}

theorem locked_eq_some {x : Option St} : locked s x = some t ↔ s.mutex = none ∧ x = some t := by
  cases hmu : s.mutex <;> simp [locked, hmu]

theorem mem_tells {inpack : InPack} {updates : List Update} {k : ℕ} {p : OutPack}
    (h : (k, p) ∈ tells inpack updates) : inpack.a = some k ∧ ∃ u ∈ updates, p = u.pack inpack := by
  obtain ⟨u, hu, h⟩ := List.mem_flatMap.mp h
  simp only [Update.send_eq, Option.toList_some, List.flatMap_cons, List.flatMap_nil,
    List.append_nil, toAgent, List.mem_map, Option.mem_toList, Prod.mk.injEq] at h
  obtain ⟨k', hk, rfl, rfl⟩ := h
  exact ⟨hk, u, hu, rfl⟩

theorem handleInPack_move {op : Op} {inpack : InPack} {drains : Bool}
    (h : s.tasks i = some (.call op (.handle inpack drains))) :
    Move cfg s (.task i) (handleInPack cfg s i op inpack drains) := by
  unfold handleInPack
  split_ifs with hnojob hnoop hjob herr
  · exact .pc h (.noJob hnojob) rfl
  · exact .pc h (.noop hnoop) rfl
  · exact .spawn h (.job hjob)
  · exact .report h (.serverErr herr) rfl
  · exact .report h (.custome (by simp [hnojob, hnoop, herr]) (by simpa using hjob)) rfl

theorem limitStep_move {op : Op} {inpack : InPack} {drains : Bool}
    (h : s.tasks i = some (.call op (.limit inpack drains)))
    (ht : limitStep cfg s i op inpack drains = some t) : Move cfg s (.task i) t := by
  cases hl : cfg.limit with
  | none =>
    simp only [limitStep, hl] at ht
    cases ht
    exact .pc h (.unlimited hl) rfl
  | some cap =>
    simp only [limitStep, hl] at ht
    split_ifs at ht with hcap
    cases ht
    exact .token h hl hcap

theorem changeFuncs_move {op : Op} (h : s.tasks i = some (.call op .lock)) (hmu : s.mutex = none)
    (ht : changeFuncs cfg s i op = some t) : Move cfg s (.task i) t := by
  have heq := ht
  have hstep : callStep cfg s i op .lock = some t := locked_eq_some.mpr ⟨hmu, ht⟩
  cases op with
  | addFunc funcname f =>
    simp only [changeFuncs, addFunc] at ht
    split_ifs at ht with hf hr
    · cases ht
      exact .pc h (.funcExists hmu hf) rfl
    · obtain ⟨outpack, _, ht⟩ := Option.bind_eq_some_iff.mp ht
      cases ht
      exact .changeFuncs h hmu hr heq
    · cases ht
      exact .setFuncs h (Or.inl rfl) hmu hstep
  | removeFunc funcname =>
    simp only [changeFuncs, removeFunc] at ht
    split_ifs at ht with hf hr
    · cases ht
      exact .pc h (.funcMissing hmu hf) rfl
    · cases ht
      exact .changeFuncs h hmu hr heq
    · cases ht
      exact .setFuncs h (Or.inl rfl) hmu hstep
  | _ => cases ht

theorem callStep_move {op : Op} {pc : Pc} (h : s.tasks i = some (.call op pc))
    (ht : callStep cfg s i op pc = some t) : Move cfg s (.task i) t := by
  have heq := ht
  cases pc with
  | ready =>
    cases ht
    exact .pc h .ready rfl
  | snapshot =>
    obtain ⟨hmu, ht⟩ := locked_eq_some.mp ht
    cases ht
    exact .pc h (.snapshot hmu) rfl
  | connect k funcs =>
    simp only [callStep] at ht
    split_ifs at ht with hk
    cases ht
    exact .lock h (.connect hk.1) hk.2
  | getConn k funcs =>
    cases ht
    exact .pc h .getConn rfl
  | setConn k c funcs =>
    cases ht
    exact .publish h .connect
  | goWork k epoch c funcs =>
    cases ht
    exact .spawn h .connect
  | unlock k funcs err =>
    cases err with
    | none =>
      cases ht
      exact .unlock h .connected
    | some err =>
      cases ht
      exact .unlock h .failed
  | setReady =>
    obtain ⟨hmu, ht⟩ := locked_eq_some.mp ht
    cases ht
    exact .setReady h hmu
  | isReady =>
    obtain ⟨hmu, ht⟩ := locked_eq_some.mp ht
    cases ht
    exact .pc h (.isReady hmu) rfl
  | setRunning =>
    obtain ⟨hmu, ht⟩ := locked_eq_some.mp ht
    cases ht
    exact .setRunning h hmu
  | handle inpack drains =>
    cases ht
    exact handleInPack_move h
  | limit inpack drains => exact limitStep_move h ht
  | drain =>
    cases hin : s.inChan with
    | nil =>
      simp only [callStep, hin] at ht
      cases ht
      exact .pc h (.drained hin) rfl
    | cons inpack rest =>
      simp only [callStep, hin] at ht
      cases ht
      exact .recv h (if_pos rfl).symm hin rfl
  | close =>
    obtain ⟨hmu, ht⟩ := locked_eq_some.mp ht
    split_ifs at ht with hc
    · cases ht
      exact .closeAgain h hmu hc
    · cases ht
      exact .close h hmu (by simpa using hc)
  | closeQuit =>
    cases ht
    exact .closeQuit h
  | closeAgent k =>
    simp only [callStep] at ht
    split_ifs at ht with hk
    · cases ht
      exact .closeAgent h hk
    · cases ht
      exact .pc h (.closed hk) rfl
  | republish a c =>
    cases ht
    exact .publish h .reconnect
  | resume a epoch c =>
    cases ht
    exact .spawn h .reconnect
  | lock =>
    obtain ⟨hmu, ht⟩ := locked_eq_some.mp ht
    exact changeFuncs_move h hmu ht
  | unlockWorker =>
    cases ht
    exact .unlockWorker h
  | clear =>
    obtain ⟨hmu, ht⟩ := locked_eq_some.mp ht
    cases ht
    exact .setFuncs h (Or.inr rfl) hmu heq
  | _ => cases ht

theorem reactStep_move {a epoch c : ℕ} {r : Except Err Bytes}
    (h : s.tasks i = some (.loop a epoch c (.check r))) (he : (s.agents a).epoch = epoch)
    (ht : reactStep s i a epoch c r = some t) : Move cfg s (.task i) t := by
  cases r with
  | error err =>
    cases ht
    exact .pc h (.react he) rfl
  | ok data =>
    simp only [reactStep] at ht
    generalize hd : decodeInPack data = decoded at ht
    match decoded, ht with
    | some (.error err), ht =>
      cases ht
      exact .report h (.undecoded he hd) rfl
    | some (.ok (inpack, n)), ht =>
      cases ht
      exact .pc h (.decoded he hd) rfl

theorem loopStep_move {a epoch c : ℕ} {pc : LoopPc} (h : s.tasks i = some (.loop a epoch c pc))
    (ht : loopStep s i a epoch c pc = some t) : Move cfg s (.task i) t := by
  cases pc with
  | check r =>
    simp only [loopStep] at ht
    split_ifs at ht with he
    · cases ht
      exact .pc h (.stale he) rfl
    · exact reactStep_move h (by simpa using he) ht
  | disconnect err =>
    cases ht
    exact .pc h .disconnect rfl
  | reportDisconnect err =>
    cases ht
    exact .report h .disconnected rfl
  | report err =>
    cases ht
    exact .report h .readErr rfl
  | getConn =>
    cases ht
    exact .pc h .oldConn rfl
  | setConn old c' =>
    cases ht
    exact .publish h .loop
  | closeOld old =>
    cases ht
    exact .shut h .replaced
  | giveUp old =>
    cases ht
    exact .shut h .gaveUp
  | _ => cases ht

theorem execStep_move {inpack : InPack} {pc : ExecPc} (h : s.tasks i = some (.exec inpack pc))
    (ht : execStep cfg s i inpack pc = some t) : Move cfg s (.task i) t := by
  cases pc with
  | lookup =>
    obtain ⟨hmu, ht⟩ := locked_eq_some.mp ht
    cases ht
    exact .pc h (.lookup hmu) rfl
  | running r =>
    obtain ⟨hmu, ht⟩ := locked_eq_some.mp ht
    cases ht
    exact .pc h (.answer hmu) rfl
  | deferred err v =>
    cases hl : cfg.limit with
    | none =>
      simp only [execStep, hl] at ht
      cases ht
      exact .pc h (.release hl) rfl
    | some cap =>
      simp only [execStep, hl] at ht
      split_ifs at ht with hpos
      cases ht
      exact .release h hl hpos
  | report err =>
    cases ht
    exact .report h .exec rfl
  | _ => cases ht

theorem writeStep_move {todo : List (ℕ × OutPack)} {stage : Stage} {next : Task}
    (h : s.tasks i = some (.write todo stage next)) (ht : writeStep s i next todo stage = some t) :
    Move cfg s (.task i) t := by
  cases todo with
  | nil => cases ht
  | cons w rest =>
    obtain ⟨k, outpack⟩ := w
    cases stage with
    | lock =>
      simp only [writeStep] at ht
      split_ifs at ht with hmu
      cases ht
      exact .lock h .write (by simpa using hmu)
    | getRW =>
      cases hrw : (s.agents k).rw with
      | none =>
        simp only [writeStep, hrw] at ht
        cases ht
        exact .panic h hrw
      | some c =>
        simp only [writeStep, hrw] at ht
        cases ht
        exact .pc h (.getRW hrw) rfl
    | unlock =>
      cases ht
      exact .unlock h .written
    | flush c => cases ht

theorem taskStep_move {task : Task} (h : s.tasks i = some task)
    (ht : taskStep cfg s i task = some t) : Move cfg s (.task i) t := by
  cases task with
  | write todo stage next => exact writeStep_move h ht
  | call op pc => exact callStep_move h ht
  | loop a epoch c pc => exact loopStep_move h ht
  | exec inpack pc => exact execStep_move h ht

theorem dialStep_move {task : Task} {err : Option Err} (h : s.tasks i = some task)
    (ht : dialStep s i task err = some t) : Move cfg s (.dial i err) t := by
  unfold dialStep at ht
  split at ht
  · cases ht
    exact .dial h .connect
  · cases ht
    exact .pc h (.connectFailed _) rfl
  · cases ht
    exact .dial h .reconnect
  · cases ht
    exact .pc h (.reconnectFailed _) rfl
  · cases ht
    exact .dial h .loop
  · cases ht
    exact .report h .dialErr rfl
  · cases ht

theorem rangeStep_move {task : Task} {order : List Bytes} (h : s.tasks i = some task)
    (ht : rangeStep cfg s i order task = some t) : Move cfg s (.range i order) t := by
  unfold rangeStep at ht
  split at ht
  · split_ifs at ht with hk
    obtain ⟨outpacks, ho, rfl⟩ := Option.map_eq_some_iff.mp ht
    exact .pc h (.announce hk ho) rfl
  · obtain ⟨hmu, ht⟩ := locked_eq_some.mp ht
    obtain ⟨outpacks, ho, rfl⟩ := Option.map_eq_some_iff.mp ht
    exact .pc h (.reannounce hmu ho) rfl
  · cases ht

theorem flushStep_move {task : Task} {ok : Bool} (h : s.tasks i = some task)
    (ht : flushStep s i ok task = some t) : Move cfg s (.flush i ok) t := by
  unfold flushStep at ht
  split at ht
  · split_ifs at ht with hok hopen
    · cases ht
      subst hok
      exact .sent h (by simpa using hopen)
    · cases ht
      exact .pc h .flushFailed rfl
  · cases ht

theorem readStep_move {task : Task} {err : Option Err} (h : s.tasks i = some task)
    (ht : readStep s i task err = some t) : Move cfg s (.read i err) t := by
  unfold readStep at ht
  split at ht
  · cases ht
    exact .pc h (.readErr _) rfl
  · split at ht
    · cases ht
    · cases ht
      exact .read h ‹_›
  · cases ht

theorem sendStep_move {task : Task} (h : s.tasks i = some task)
    (ht : sendStep s i task = some t) : Move cfg s (.send i) t := by
  unfold sendStep at ht
  split at ht
  · split_ifs at ht with hfull
    cases ht
    exact .send h hfull
  · cases ht

theorem recvStep_move {task : Task} (h : s.tasks i = some task)
    (ht : recvStep s i task = some t) : Move cfg s (.recv i) t := by
  unfold recvStep at ht
  split at ht
  · split at ht
    · cases ht
    · cases ht
      exact .recv h (if_neg (by simp)).symm ‹_› rfl
  · cases ht

theorem quitStep_move {task : Task} (h : s.tasks i = some task)
    (ht : quitStep s i task = some t) : Move cfg s (.quit i) t := by
  unfold quitStep at ht
  split at ht
  · split_ifs at ht with hq
    cases ht
    exact .pc h (.quit hq) rfl
  · split_ifs at ht with hq
    cases ht
    exact .pc h (.loopQuit hq) rfl
  · cases ht

theorem jobStep_move {task : Task} {timedOut : Bool} (h : s.tasks i = some task)
    (ht : jobStep s i timedOut task = some t) : Move cfg s (.job i timedOut) t := by
  unfold jobStep at ht
  split at ht
  · cases timedOut with
    | true =>
      rw [if_pos rfl] at ht
      split_ifs at ht with hz
      cases ht
      exact .pc h (.timedOut hz) rfl
    | false =>
      rw [if_neg Bool.false_ne_true] at ht
      split at ht
      · cases ht
        exact .pc h (.finished ‹_›) rfl
      · split_ifs at ht with hz
        cases ht
        exact .pc h (.panicked ‹_› hz) rfl
  · cases ht

theorem handoffStep_move {j : ℕ} {task job : Task} (h : s.tasks i = some task)
    (h' : s.tasks j = some job) (ht : handoffStep cfg s i j task job = some t) :
    Move cfg s (.handoff i j) t := by
  unfold handoffStep at ht
  split at ht
  · split_ifs at ht with hl
    cases ht
    exact .handoff h h' hl
  · cases ht

theorem step_move {act : Act} (h : step cfg s act = some t) : Move cfg s act t := by
  unfold step at h
  split_ifs at h
  cases act with
  | call op =>
    simp only at h
    split_ifs at h with hc
    cases h
    exact .call op hc
  | task i =>
    obtain ⟨task, htask, ht⟩ := Option.bind_eq_some_iff.mp h
    exact taskStep_move htask ht
  | dial i err =>
    obtain ⟨task, htask, ht⟩ := Option.bind_eq_some_iff.mp h
    exact dialStep_move htask ht
  | range i order =>
    obtain ⟨task, htask, ht⟩ := Option.bind_eq_some_iff.mp h
    exact rangeStep_move htask ht
  | flush i ok =>
    obtain ⟨task, htask, ht⟩ := Option.bind_eq_some_iff.mp h
    exact flushStep_move htask ht
  | read i err =>
    obtain ⟨task, htask, ht⟩ := Option.bind_eq_some_iff.mp h
    exact readStep_move htask ht
  | send i =>
    obtain ⟨task, htask, ht⟩ := Option.bind_eq_some_iff.mp h
    exact sendStep_move htask ht
  | recv i =>
    obtain ⟨task, htask, ht⟩ := Option.bind_eq_some_iff.mp h
    exact recvStep_move htask ht
  | quit i =>
    obtain ⟨task, htask, ht⟩ := Option.bind_eq_some_iff.mp h
    exact quitStep_move htask ht
  | job i timedOut =>
    obtain ⟨task, htask, ht⟩ := Option.bind_eq_some_iff.mp h
    exact jobStep_move htask ht
  | handoff i j =>
    obtain ⟨task, htask, ht⟩ := Option.bind_eq_some_iff.mp h
    obtain ⟨job, hjob, ht⟩ := Option.bind_eq_some_iff.mp ht
    exact handoffStep_move htask hjob ht
  | serve c data =>
    simp only at h
    split_ifs at h with hc
    cases h
    exact .serve hc

/-- The step of a task, by the action that lets it run. -/
inductive Runs (cfg : Cfg) (s : St) (i : ℕ) (task : Task) (t : St) : Act → Prop
  | task (h : taskStep cfg s i task = some t) : Runs cfg s i task t (.task i)
  | dial {err : Option Err} (h : dialStep s i task err = some t) : Runs cfg s i task t (.dial i err)
  | range {order : List Bytes} (h : rangeStep cfg s i order task = some t) :
      Runs cfg s i task t (.range i order)
  | flush {ok : Bool} (h : flushStep s i ok task = some t) : Runs cfg s i task t (.flush i ok)
  | read {err : Option Err} (h : readStep s i task err = some t) : Runs cfg s i task t (.read i err)
  | send (h : sendStep s i task = some t) : Runs cfg s i task t (.send i)
  | recv (h : recvStep s i task = some t) : Runs cfg s i task t (.recv i)
  | quit (h : quitStep s i task = some t) : Runs cfg s i task t (.quit i)
  | job {timedOut : Bool} (h : jobStep s i timedOut task = some t) :
      Runs cfg s i task t (.job i timedOut)
  | handoff {j : ℕ} {other : Task} (hj : s.tasks j = some other)
      (h : handoffStep cfg s i j task other = some t) : Runs cfg s i task t (.handoff i j)

theorem step_runs {act : Act} {i : ℕ} {task : Task} (htask : s.tasks i = some task)
    (ha : act.runner = some i) (h : step cfg s act = some t) : Runs cfg s i task t act := by
  unfold step at h
  split_ifs at h
  cases act with
  | call op => cases ha
  | serve c data => cases ha
  | handoff j j' =>
    cases ha
    simp only [htask, Option.bind_some] at h
    obtain ⟨other, hj, h⟩ := Option.bind_eq_some_iff.mp h
    exact .handoff hj h
  | _ =>
    cases ha
    simp only [htask, Option.bind_some] at h
    constructor
    exact h

end Gearman.Worker.Machine
