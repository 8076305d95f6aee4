import Gearman.Framing
import Gearman.WorkerCalls

/-!
# The worker as a machine of interleaved goroutines

A task is a goroutine: a call of the API, the read loop `work` of a connection, or
the `exec` of a job. A step is one access of a task to what the goroutines share: a
lock, the fields an agent keeps under `connMu`, a channel, a socket. The network
decides how a dial, a read or a write ends, and the job server may send any packet.

Connections are numbered in the order of their dials, tasks in the order of their
start. `agent.Write` and `Grab` are spelled once, as the task `write` that goes
through a list of packets and then continues as another task. `Work` panics with the
error of its own `Ready`: that call ends in `returned` with the error, and the rest
goes on as after a recover. `panicked` is a write without a connection.

What a job function tells the client while it runs is a call of its own, `progress`, which
sends its updates one after the other. It starts while `exec` waits for the function, and
goes on at its own pace: a function that `execTimeout` has given up on still tells.
-/

namespace Gearman.Worker.Machine
open Bytes Transition

structure Cfg where
  nagents : ℕ
  limit : Option ℕ := none
  jobHandler : Option (InPack → Option Err) := none

structure Agent where
  mutex : Option ℕ := none
  conn : Option ℕ := none
  rw : Option ℕ := none
  epoch : ℕ := 0
deriving DecidableEq, Repr

structure Conn where
  agent : ℕ := 0
  published : Bool := false
  closed : Bool := false
  sent : List OutPack := []
  wire : List Bytes := []
deriving DecidableEq, Repr

/-- What reaches the error handler; `disconnect` is a `*WorkerDisconnectError`. -/
inductive Report
  | err (e : Err)
  | disconnect (a : ℕ) (e : Err)
deriving DecidableEq, Repr

inductive Op
  | ready
  | work
  | close
  | reconnect (a : ℕ)
  | addFunc (funcname : Bytes) (f : JobFunc)
  | removeFunc (funcname : Bytes)
  | reset
  | echo (data : Bytes)
  | setId (id : Bytes)
  | progress (inpack : InPack) (updates : List Update)

inductive Pc
  | ready
  | snapshot
  | connect (k : ℕ) (funcs : JobFuncs)
  | getConn (k : ℕ) (funcs : JobFuncs)
  | dialConn (k : ℕ) (funcs : JobFuncs)
  | setConn (k c : ℕ) (funcs : JobFuncs)
  | goWork (k epoch c : ℕ) (funcs : JobFuncs)
  | unlock (k : ℕ) (funcs : JobFuncs) (err : Option Err)
  | setReady
  | isReady
  | setRunning
  | select
  | handle (inpack : InPack) (drains : Bool)
  | limit (inpack : InPack) (drains : Bool)
  | drain
  | close
  | closeQuit
  | closeAgent (k : ℕ)
  | closed
  | redial (a : ℕ)
  | republish (a c : ℕ)
  | funcOutpacks (a epoch c : ℕ)
  | resume (a epoch c : ℕ)
  | lock
  | unlockWorker
  | clear
  | returned (err : Option Err)

inductive LoopPc
  | read
  | check (r : Except Err Bytes)
  | disconnect (err : Err)
  | reportDisconnect (err : Err)
  | report (err : Err)
  | getConn
  | dial (old : Option ℕ)
  | setConn (old : Option ℕ) (c : ℕ)
  | closeOld (old : Option ℕ)
  | giveUp (old : Option ℕ)
  | forward (inpack : InPack)
  | done

inductive ExecPc
  | lookup
  | call (f : JobFunc)
  | running (r : Result)
  | deferred (err : Option Err) (v : Option PanicValue)
  | report (err : Option Err)
  | done

inductive Stage
  | lock
  | getRW
  | flush (c : ℕ)
  | unlock
deriving DecidableEq, Repr

inductive Task
  | write (todo : List (ℕ × OutPack)) (stage : Stage) (next : Task)
  | call (op : Op) (pc : Pc)
  | loop (a epoch c : ℕ) (pc : LoopPc)
  | exec (inpack : InPack) (pc : ExecPc)

structure St where
  mutex : Option ℕ := none
  agents : ℕ → Agent := fun _ => {}
  funcs : JobFuncs := ∅
  running : Bool := false
  ready : Bool := false
  closed : Bool := false
  quit : Bool := false
  panicked : Bool := false
  inChan : List InPack := []
  tokens : ℕ := 0
  tasks : ℕ → Option Task := fun _ => none
  ntask : ℕ := 0
  conns : ℕ → Conn := fun _ => {}
  nconn : ℕ := 0
  reports : List Report := []

inductive Act
  | call (op : Op)
  | task (i : ℕ)
  | dial (i : ℕ) (err : Option Err)
  | range (i : ℕ) (order : List Bytes)
  | flush (i : ℕ) (ok : Bool)
  | read (i : ℕ) (err : Option Err)
  | send (i : ℕ)
  | recv (i : ℕ)
  | quit (i : ℕ)
  | job (i : ℕ) (timedOut : Bool)
  | handoff (i j : ℕ)
  | serve (c : ℕ) (data : Bytes)

namespace St

def setTask (s : St) (i : ℕ) (task : Task) : St :=
  { s with tasks := Function.update s.tasks i (some task) }

def spawn (s : St) (task : Task) : St :=
  { s with tasks := Function.update s.tasks s.ntask (some task), ntask := s.ntask + 1 }

def setAgent (s : St) (k : ℕ) (agent : Agent) : St :=
  { s with agents := Function.update s.agents k agent }

def setConnAt (s : St) (c : ℕ) (conn : Conn) : St :=
  { s with conns := Function.update s.conns c conn }

def report (s : St) (r : Report) : St := { s with reports := s.reports ++ [r] }

def lockAgent (s : St) (k i : ℕ) : St := s.setAgent k { s.agents k with mutex := some i }

def unlockAgent (s : St) (k : ℕ) : St := s.setAgent k { s.agents k with mutex := none }

def dialled (s : St) (k : ℕ) : St :=
  { s.setConnAt s.nconn { agent := k } with nconn := s.nconn + 1 }

def nextEpoch (s : St) (k : ℕ) : ℕ := (s.agents k).epoch + 1

def publish (s : St) (k c : ℕ) : St :=
  (s.setConnAt c { s.conns c with published := true }).setAgent k
    { s.agents k with conn := some c, rw := some c, epoch := s.nextEpoch k }

def shut (s : St) : Option ℕ → St
  | none => s
  | some c => s.setConnAt c { s.conns c with closed := true }

/-- `agent.Close`: `rw` and `epoch` stay. -/
def closeAgent (s : St) (k : ℕ) : St :=
  (s.shut (s.agents k).conn).setAgent k { s.agents k with conn := none }

end St

/-- `agent.Write` of each packet in turn, and then `next`. -/
def writes (todo : List (ℕ × OutPack)) (next : Task) : Task :=
  if todo.isEmpty then next else .write todo .lock next

def broadcast (cfg : Cfg) (outpack : OutPack) : List (ℕ × OutPack) :=
  (List.range cfg.nagents).map (fun k => (k, outpack))

def toAgent (inpack : InPack) (outpack : OutPack) : List (ℕ × OutPack) :=
  inpack.a.toList.map (fun k => (k, outpack))

/-- The writes of `SendData`, `SendWarning` and `UpdateStatus`. -/
def tells (inpack : InPack) (updates : List Update) : List (ℕ × OutPack) :=
  updates.flatMap (fun u => (u.send inpack).toList.flatMap (toAgent inpack))

def grabPack : OutPack := { dataType := dtGrabJobUniq }
def preSleepPack : OutPack := { dataType := dtPreSleep }

def funcOutpacks (funcs : JobFuncs) (order : List Bytes) : Option (List OutPack) :=
  if order.isPerm funcs.keys then
    order.mapM (fun funcname => do
      let f ← funcs.lookup funcname
      Calls.prepFuncOutpack funcname f.timeout)
  else none

def entry (cfg : Cfg) (op : Op) : Task :=
  match op with
  | .ready => .call op .ready
  | .work => .call op .isReady
  | .close => .call op .close
  | .reconnect a => .call op (.redial a)
  | .addFunc _ _ => .call op .lock
  | .removeFunc _ => .call op .lock
  | .reset => writes (broadcast cfg { dataType := dtResetAbilities }) (.call op .clear)
  | .echo data =>
    writes (broadcast cfg { dataType := dtEchoReq, data }) (.call op (.returned none))
  | .setId id =>
    writes (broadcast cfg { dataType := dtSetClientId, data := id }) (.call op (.returned none))
  | .progress inpack updates => writes (tells inpack updates) (.call op (.returned none))

def customeHandler (cfg : Cfg) (inpack : InPack) : List Report :=
  match cfg.jobHandler with
  | none => []
  | some h => (h inpack).toList.map .err

/-- `Work` goes back to its `select`, or to the one that drains `in` after `quit`. -/
def back (op : Op) (drains : Bool) : Task := .call op (if drains then .drain else .select)

def handleInPack (cfg : Cfg) (s : St) (i : ℕ) (op : Op) (inpack : InPack) (drains : Bool) : St :=
  if inpack.dataType = dtNoJob then
    s.setTask i (writes (toAgent inpack preSleepPack) (back op drains))
  else if inpack.dataType = dtNoop then
    s.setTask i (writes (toAgent inpack grabPack) (back op drains))
  else if Exec.isJob inpack then
    (s.setTask i (.call op (.limit inpack drains))).spawn (.exec inpack .lookup)
  else if inpack.dataType = dtError then
    { s.setTask i (back op drains) with
      reports := s.reports ++ .err (getError inpack.data) :: customeHandler cfg inpack }
  else
    { s.setTask i (back op drains) with reports := s.reports ++ customeHandler cfg inpack }

def afterLimit (op : Op) (inpack : InPack) (drains : Bool) : Task :=
  writes (toAgent inpack grabPack) (back op drains)

def limitStep (cfg : Cfg) (s : St) (i : ℕ) (op : Op) (inpack : InPack) (drains : Bool) :
    Option St :=
  match cfg.limit with
  | none => some (s.setTask i (afterLimit op inpack drains))
  | some cap =>
    if s.tokens < cap then
      some { s.setTask i (afterLimit op inpack drains) with tokens := s.tokens + 1 }
    else none

def addFunc (cfg : Cfg) (s : St) (i : ℕ) (op : Op) (funcname : Bytes) (f : JobFunc) : Option St :=
  if (s.funcs.lookup funcname).isSome then
    some (s.setTask i (.call op (.returned (some (Calls.funcExists funcname)))))
  else
    if s.running then do
      let outpack ← Calls.prepFuncOutpack funcname f.timeout
      some { s.setTask i (writes (broadcast cfg outpack) (.call op .unlockWorker)) with
        funcs := s.funcs.insert funcname f
        mutex := some i }
    else some { s.setTask i (.call op (.returned none)) with funcs := s.funcs.insert funcname f }

def removeFunc (cfg : Cfg) (s : St) (i : ℕ) (op : Op) (funcname : Bytes) : St :=
  if (s.funcs.lookup funcname).isNone then
    s.setTask i (.call op (.returned (some (Exec.funcMissing funcname))))
  else
    if s.running then
      { s.setTask i (writes (broadcast cfg { dataType := dtCantDo, data := funcname })
          (.call op .unlockWorker)) with
        funcs := s.funcs.erase funcname
        mutex := some i }
    else { s.setTask i (.call op (.returned none)) with funcs := s.funcs.erase funcname }

def changeFuncs (cfg : Cfg) (s : St) (i : ℕ) (op : Op) : Option St :=
  match op with
  | .addFunc funcname f => addFunc cfg s i op funcname f
  | .removeFunc funcname => some (removeFunc cfg s i op funcname)
  | _ => none

def Op.afterReady : Op → Pc
  | .work => .setRunning
  | _ => .returned none

def locked (s : St) (t : Option St) : Option St := if s.mutex.isSome then none else t

def callStep (cfg : Cfg) (s : St) (i : ℕ) (op : Op) : Pc → Option St
  | .ready =>
    some (s.setTask i (.call op
      (if cfg.nagents = 0 then .returned (some .noneAgents) else .snapshot)))
  | .snapshot =>
    locked s (some (s.setTask i (.call op
      (if s.funcs.keys = [] then .returned (some .noneFuncs) else .connect 0 s.funcs))))
  | .connect k funcs =>
    if k < cfg.nagents ∧ (s.agents k).mutex = none then
      some ((s.lockAgent k i).setTask i (.call op (.getConn k funcs)))
    else none
  | .getConn k funcs =>
    some (s.setTask i (.call op
      (if (s.agents k).conn.isSome then .unlock k funcs none else .dialConn k funcs)))
  | .setConn k c funcs =>
    some ((s.publish k c).setTask i (.call op (.goWork k (s.nextEpoch k) c funcs)))
  | .goWork k epoch c funcs =>
    some ((s.setTask i (.call op (.unlock k funcs none))).spawn (.loop k epoch c .read))
  | .unlock k funcs none =>
    some ((s.unlockAgent k).setTask i (.call op (.connect (k + 1) funcs)))
  | .unlock k _ (some err) =>
    some ((s.unlockAgent k).setTask i (.call op (.returned (some err))))
  | .setReady =>
    locked s (some { s.setTask i (.call op op.afterReady) with ready := true })
  | .isReady => locked s (some (s.setTask i (.call op (if s.ready then .setRunning else .ready))))
  | .setRunning =>
    locked s (some { s.setTask i (writes (broadcast cfg grabPack) (.call op .select)) with
      running := true })
  | .handle inpack drains => some (handleInPack cfg s i op inpack drains)
  | .limit inpack drains => limitStep cfg s i op inpack drains
  | .drain =>
    match s.inChan with
    | [] => some (s.setTask i (.call op (.returned none)))
    | inpack :: rest => some { s.setTask i (.call op (.handle inpack true)) with inChan := rest }
  | .close =>
    locked s (if s.closed then some (s.setTask i (.call op .closed))
      else some { s.setTask i (.call op .closeQuit) with closed := true, running := false })
  | .closeQuit => some { s.setTask i (.call op (.closeAgent 0)) with quit := true }
  | .closeAgent k =>
    if k < cfg.nagents then some ((s.closeAgent k).setTask i (.call op (.closeAgent (k + 1))))
    else some (s.setTask i (.call op .closed))
  | .republish a c =>
    some ((s.publish a c).setTask i (.call op (.funcOutpacks a (s.nextEpoch a) c)))
  | .resume a epoch c =>
    some ((s.setTask i (.call op (.returned none))).spawn (.loop a epoch c .read))
  | .lock =>
    locked s (changeFuncs cfg s i op)
  | .unlockWorker => some { s.setTask i (.call op (.returned none)) with mutex := none }
  | .clear => locked s (some { s.setTask i (.call op (.returned none)) with funcs := ∅ })
  | .dialConn _ _ => none
  | .redial _ => none
  | .funcOutpacks _ _ _ => none
  | .select => none
  | .closed => none
  | .returned _ => none

def reaction (err : Err) : LoopPc :=
  match onReadError err with
  | .again => .read
  | .disconnect => .disconnect err
  | .redial => .report err

/-- What `work` does with the outcome of a read while its epoch is the current one. -/
def reactStep (s : St) (i a epoch c : ℕ) : Except Err Bytes → Option St
  | .error err => some (s.setTask i (.loop a epoch c (reaction err)))
  | .ok data =>
    match decodeInPack data with
    | none => none
    | some (.error err) => some ((s.report (.err err)).setTask i (.loop a epoch c .read))
    | some (.ok (inpack, _)) =>
      some (s.setTask i (.loop a epoch c (.forward { inpack with a := some a })))

def loopStep (s : St) (i a epoch c : ℕ) : LoopPc → Option St
  | .check r =>
    if (s.agents a).epoch ≠ epoch then some (s.setTask i (.loop a epoch c .done))
    else reactStep s i a epoch c r
  | .disconnect err =>
    some (s.setTask i (.loop a epoch c
      (if (s.agents a).conn.isSome then .reportDisconnect err else .done)))
  | .reportDisconnect err =>
    some ((s.report (.disconnect a err)).setTask i (.loop a epoch c .done))
  | .report err => some ((s.report (.err err)).setTask i (.loop a epoch c .getConn))
  | .getConn => some (s.setTask i (.loop a epoch c (.dial (s.agents a).conn)))
  | .setConn old c' =>
    some ((s.publish a c').setTask i (.loop a (s.nextEpoch a) c' (.closeOld old)))
  | .closeOld old => some ((s.shut old).setTask i (.loop a epoch c .read))
  | .giveUp old => some ((s.shut old).setTask i (.loop a epoch c .done))
  | .read => none
  | .dial _ => none
  | .forward _ => none
  | .done => none

def lookup (s : St) (fn : Bytes) : ExecPc :=
  match s.funcs.lookup fn with
  | none => .deferred (some (Exec.funcMissing fn)) none
  | some f => .call f

/-- The result is sent only while the worker is running, and so is its error. -/
def answer (s : St) (inpack : InPack) (r : Result) : Task :=
  if s.running then
    writes (toAgent inpack (resultPack inpack r)) (.exec inpack (.deferred r.err none))
  else .exec inpack (.deferred none none)

def execStep (cfg : Cfg) (s : St) (i : ℕ) (inpack : InPack) : ExecPc → Option St
  | .lookup => locked s (some (s.setTask i (.exec inpack (lookup s inpack.fn))))
  | .running r => locked s (some (s.setTask i (answer s inpack r)))
  | .deferred err v =>
    match cfg.limit with
    | none => some (s.setTask i (.exec inpack (.report (Exec.recovered err v))))
    | some _ =>
      if 0 < s.tokens then
        some { s.setTask i (.exec inpack (.report (Exec.recovered err v))) with
          tokens := s.tokens - 1 }
      else none
  | .report err =>
    some { s.setTask i (.exec inpack .done) with reports := s.reports ++ err.toList.map .err }
  | .call _ => none
  | .done => none

def writeStep (s : St) (i : ℕ) (next : Task) : List (ℕ × OutPack) → Stage → Option St
  | [], _ => none
  | (k, outpack) :: rest, .lock =>
    if (s.agents k).mutex.isSome then none
    else some ((s.lockAgent k i).setTask i (.write ((k, outpack) :: rest) .getRW next))
  | (k, outpack) :: rest, .getRW =>
    match (s.agents k).rw with
    | none => some { s with panicked := true }
    | some c => some (s.setTask i (.write ((k, outpack) :: rest) (.flush c) next))
  | (k, _) :: rest, .unlock => some ((s.unlockAgent k).setTask i (writes rest next))
  | _ :: _, .flush _ => none

def taskStep (cfg : Cfg) (s : St) (i : ℕ) : Task → Option St
  | .write todo stage next => writeStep s i next todo stage
  | .call op pc => callStep cfg s i op pc
  | .loop a epoch c pc => loopStep s i a epoch c pc
  | .exec inpack pc => execStep cfg s i inpack pc

def dialStep (s : St) (i : ℕ) : Task → Option Err → Option St
  | .call op (.dialConn k funcs), none =>
    some ((s.dialled k).setTask i (.call op (.setConn k s.nconn funcs)))
  | .call op (.dialConn k funcs), some err =>
    some (s.setTask i (.call op (.unlock k funcs (some err))))
  | .call op (.redial a), none =>
    some ((s.dialled a).setTask i (.call op (.republish a s.nconn)))
  | .call op (.redial _), some err => some (s.setTask i (.call op (.returned (some err))))
  | .loop a epoch c (.dial old), none =>
    some ((s.dialled a).setTask i (.loop a epoch c (.setConn old s.nconn)))
  | .loop a epoch c (.dial old), some err =>
    some ((s.report (.err err)).setTask i (.loop a epoch c (.giveUp old)))
  | _, _ => none

def rangeStep (cfg : Cfg) (s : St) (i : ℕ) (order : List Bytes) : Task → Option St
  | .call op (.connect k funcs) =>
    if k < cfg.nagents then none
    else (funcOutpacks funcs order).map (fun outpacks =>
      s.setTask i (writes (outpacks.flatMap (broadcast cfg)) (.call op .setReady)))
  | .call op (.funcOutpacks a epoch c) =>
    locked s ((funcOutpacks s.funcs order).map (fun outpacks =>
      s.setTask i (writes (outpacks.map (fun outpack => (a, outpack)) ++ [(a, grabPack)])
        (.call op (.resume a epoch c)))))
  | _ => none

def flushStep (s : St) (i : ℕ) (ok : Bool) : Task → Option St
  | .write ((k, outpack) :: rest) (.flush c) next =>
    if ok then
      if (s.conns c).closed then none
      else some ((s.setConnAt c { s.conns c with sent := (s.conns c).sent ++ [outpack] }).setTask i
        (.write ((k, outpack) :: rest) .unlock next))
    else some (s.setTask i (.write ((k, outpack) :: rest) .unlock next))
  | _ => none

def readStep (s : St) (i : ℕ) : Task → Option Err → Option St
  | .loop a epoch c .read, some err => some (s.setTask i (.loop a epoch c (.check (.error err))))
  | .loop a epoch c .read, none =>
    match (s.conns c).wire with
    | [] => none
    | data :: rest =>
      some ((s.setConnAt c { s.conns c with wire := rest }).setTask i
        (.loop a epoch c (.check (.ok data))))
  | _, _ => none

def sendStep (s : St) (i : ℕ) : Task → Option St
  | .loop a epoch c (.forward inpack) =>
    if s.inChan.length < queueSize then
      some { s.setTask i (.loop a epoch c .read) with inChan := s.inChan ++ [inpack] }
    else none
  | _ => none

def recvStep (s : St) (i : ℕ) : Task → Option St
  | .call op .select =>
    match s.inChan with
    | [] => none
    | inpack :: rest => some { s.setTask i (.call op (.handle inpack false)) with inChan := rest }
  | _ => none

def quitStep (s : St) (i : ℕ) : Task → Option St
  | .call op .select => if s.quit then some (s.setTask i (.call op .drain)) else none
  | .loop a epoch c (.forward _) =>
    if s.quit then some (s.setTask i (.loop a epoch c .done)) else none
  | _ => none

def jobStep (s : St) (i : ℕ) (timedOut : Bool) : Task → Option St
  | .exec inpack (.call f) =>
    if timedOut then
      if f.timeout = 0 then none
      else some (s.setTask i (.exec inpack (.running { err := some .timeOut })))
    else
      match f.f inpack with
      | .returned data err => some (s.setTask i (.exec inpack (.running { data, err })))
      | .panicked v =>
        if f.timeout = 0 then some (s.setTask i (.exec inpack (.deferred none (some v)))) else none
  | _ => none

/-- A send on an unbuffered `limit` meets its receive. -/
def handoffStep (cfg : Cfg) (s : St) (i j : ℕ) : Task → Task → Option St
  | .call op (.limit inpack drains), .exec job (.deferred err v) =>
    if cfg.limit = some 0 then
      some ((s.setTask i (afterLimit op inpack drains)).setTask j
        (.exec job (.report (Exec.recovered err v))))
    else none
  | _, _ => none

def Task.calling (inpack : InPack) : Task → Bool
  | .exec job (.call _) => job = inpack
  | _ => false

/-- `Reconnect` is a method of an error that was reported, and a job is handed to its function. -/
def callable (s : St) : Op → Bool
  | .reconnect a => s.reports.any (fun r => match r with | .disconnect b _ => b = a | _ => false)
  | .progress inpack _ => (List.range s.ntask).any (fun i => (s.tasks i).any (Task.calling inpack))
  | _ => true

def step (cfg : Cfg) (s : St) (act : Act) : Option St :=
  if s.panicked then none
  else match act with
    | .call op => if callable s op then some (s.spawn (entry cfg op)) else none
    | .task i => (s.tasks i).bind (taskStep cfg s i)
    | .dial i err => (s.tasks i).bind (dialStep s i · err)
    | .range i order => (s.tasks i).bind (rangeStep cfg s i order)
    | .flush i ok => (s.tasks i).bind (flushStep s i ok)
    | .read i err => (s.tasks i).bind (readStep s i · err)
    | .send i => (s.tasks i).bind (sendStep s i)
    | .recv i => (s.tasks i).bind (recvStep s i)
    | .quit i => (s.tasks i).bind (quitStep s i)
    | .job i timedOut => (s.tasks i).bind (jobStep s i timedOut)
    | .handoff i j => (s.tasks i).bind (fun d => (s.tasks j).bind (handoffStep cfg s i j d))
    | .serve c data =>
      if c < s.nconn then
        some (s.setConnAt c { s.conns c with wire := (s.conns c).wire ++ [data] })
      else none

end Gearman.Worker.Machine
