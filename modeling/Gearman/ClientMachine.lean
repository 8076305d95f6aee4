import Gearman.HandlerSlot
import Gearman.Transition

/-!
# The client as a machine of interleaved goroutines

The parties are the calls of the API, `readLoop`, `processLoop` and the job server,
and a step is one access of one party to what they share: a lock, a field under
`connMu`, a handler slot, the channel `in`, a socket. A call, `readLoop` and
`processLoop` each have a program counter; the server may send any packet at any
time. The packets and requests carry the call they belong to, which no code reads.

The connection of a dial is its number. `closeConn` spans several steps under
`connMu`, since the slots it empties have locks of their own.
-/

namespace Gearman.Client
open Bytes Wire Transition

structure Cfg where
  wantExceptions : Bool
  responseTimeout : ℕ

inductive Exceptions
  | pending
  | on
  | refused
deriving DecidableEq, Repr

def jobLow : UInt8 := 1
def jobHigh : UInt8 := 2

inductive Op
  | submit (bg : Bool) (funcname data : Bytes) (flag : UInt8) (h : Option ℕ) (id : Bytes)
  | echo (data : Bytes)
  | status (handle : Bytes)
  | close
deriving DecidableEq, Repr

inductive Ret
  | handle (handle : Bytes)
  | echo (data : Option Bytes)
  | status (resp : Response)
  | err (e : Err)
  | closed
deriving DecidableEq, Repr

inductive Pc
  | start
  | enter
  | lock
  | register
  | getRW (token : UInt64)
  | write (token : UInt64) (c : ℕ)
  | cancel (token : UInt64) (err : Err)
  | wait (token : UInt64) (deadline : ℕ)
  | abandon (token : UInt64)
  | setClosed
  | closeConn
  | resetCreated
  | resetEcho
  | unlock (ret : Ret)
  | returned (ret : Ret)
deriving Repr

/-- A decoded packet, with the connection it came from and the call it answers. -/
structure Packet where
  resp : Response
  conn : ℕ
  answers : Option ℕ := none
deriving DecidableEq, Repr

structure Call where
  op : Op
  pc : Pc
  result : Option Packet := none
deriving Repr

inductive ReadPc
  | loop
  | getRW
  | read (c : ℕ)
  | send (p : Packet)
  | closeConn
  | resetCreated
  | resetEcho
  | afterErr
  | connect
  | dial
  | optionReq (c : ℕ)
  | storePending (c : ℕ)
  | setConn (c : ℕ)
  | marker (c : ℕ)
  | exit
  | exited
deriving DecidableEq, Repr

inductive ProcPc
  | recv
  | got (p : Packet)
  | dispatch (p : Packet)
  | deliver (h : HandledResponse ℕ ℕ) (p : Packet)
  | exited
deriving DecidableEq, Repr

inductive Party
  | caller (i : ℕ)
  | reader
deriving DecidableEq, Repr

structure Request where
  call : Option ℕ
  dataType : UInt32
  body : Bytes
  answered : Bool := false
deriving DecidableEq, Repr

structure Frame where
  dataType : UInt32
  body : Bytes
  answers : Option ℕ
deriving DecidableEq, Repr

structure Conn where
  closed : Bool := false
  reqs : List Request := []
  wire : List Frame := []
deriving DecidableEq, Repr

structure Handlers where
  created : HandlerSlot ℕ ℕ := {}
  echo : HandlerSlot ℕ ℕ := {}
  status : StatusHandlers ℕ := ∅

structure St where
  mutex : Option ℕ := none
  connMu : Option Party := none
  conn : Option ℕ := none
  rw : Option ℕ := none
  closed : Bool := false
  exceptionsState : Exceptions := .pending
  handlers : Handlers := {}
  inChan : List Packet := []
  inClosed : Bool := false
  panicked : Bool := false
  calls : ℕ → Option Call := fun _ => none
  reader : ReadPc := .connect
  proc : ProcPc := .recv
  optionPending : Bool := false
  rhandlers : AList (fun _ : Bytes => ℕ) := ∅
  conns : ℕ → Conn := fun _ => {}
  nconn : ℕ := 0
  answers : List (ℕ × UInt32 × Bytes) := []
  now : ℕ := 0
  errs : List Err := []
  callbacks : List (ℕ × Packet) := []

inductive Act
  | call (i : ℕ) (op : Op)
  | caller (i : ℕ)
  | write (i : ℕ) (err : Option Err)
  | timeout (i : ℕ)
  | reader
  | readPacket
  | readErr (err : Err)
  | dial (err : Option Err)
  | optionReq (err : Option Err)
  | process
  | answer (c k : ℕ) (dataType : UInt32) (body : Bytes)
  | push (c : ℕ) (dataType : UInt32) (body : Bytes)
  | tick (n : ℕ)
deriving DecidableEq, Repr

def submitType (bg : Bool) (flag : UInt8) : UInt32 :=
  if flag = jobLow then if bg then dtSubmitJobLowBg else dtSubmitJobLow
  else if flag = jobHigh then if bg then dtSubmitJobHighBg else dtSubmitJobHigh
  else if bg then dtSubmitJobBg else dtSubmitJob

namespace Op

def entry : Op → Pc
  | .submit bg _ _ _ _ _ => if bg then .start else .enter
  | .echo _ => .enter
  | .status _ => .enter
  | .close => .setClosed

def emptyId : Op → Bool
  | .submit _ _ _ _ _ id => id.isEmpty
  | _ => false

def request (op : Op) (i : ℕ) : Request :=
  match op with
  | .submit bg funcname data flag _ id =>
    { call := some i, dataType := submitType bg flag, body := jobBody funcname id data }
  | .echo data => { call := some i, dataType := dtEchoReq, body := data }
  | .status handle => { call := some i, dataType := dtGetStatus, body := handle }
  | .close => { call := some i, dataType := 0, body := [] }

/-- What the internal handler of the call makes of a reply. -/
def reply (op : Op) (resp : Response) : Ret :=
  match op with
  | .submit _ _ _ _ _ _ =>
    if resp.dataType = dtError then .err (getError (resp.data.getD [])) else .handle resp.handle
  | .echo _ => .echo resp.data
  | .status _ => .status resp
  | .close => .closed

/-- Where a call goes when `closeConn` has returned to it. -/
def afterClose : Op → Pc
  | .close => .returned .closed
  | _ => .unlock (.err .lostConn)

def afterAbandon : Op → Pc
  | .status _ => .unlock (.err .lostConn)
  | _ => .closeConn

end Op

namespace Handlers

def register (hs : Handlers) (op : Op) (i : ℕ) : Handlers × UInt64 :=
  match op with
  | .submit bg _ _ _ h _ =>
    let (created, token) := hs.created.set i (if bg then none else h)
    ({ hs with created }, token)
  | .echo _ =>
    let (echo, token) := hs.echo.set i none
    ({ hs with echo }, token)
  | .status handle => ({ hs with status := hs.status.set handle i }, 0)
  | .close => (hs, 0)

def cancel (hs : Handlers) (op : Op) (token : UInt64) : Handlers :=
  match op with
  | .submit _ _ _ _ _ _ => { hs with created := hs.created.cancel token }
  | .echo _ => { hs with echo := hs.echo.cancel token }
  | .status handle => { hs with status := hs.status.cancel handle }
  | .close => hs

/-- The first step of a timed-out call: `Status` only cancels. -/
def giveUp (hs : Handlers) (op : Op) (token : UInt64) (expires : ℕ) : Handlers :=
  match op with
  | .submit _ _ _ _ _ _ => { hs with created := hs.created.abandon token expires }
  | .echo _ => { hs with echo := hs.echo.abandon token expires }
  | .status handle => { hs with status := hs.status.cancel handle }
  | .close => hs

end Handlers

namespace St

def setPc (s : St) (i : ℕ) (call : Call) (pc : Pc) : St :=
  { s with calls := Function.update s.calls i (some { call with pc }) }

def setConnAt (s : St) (c : ℕ) (conn : Conn) : St :=
  { s with conns := Function.update s.conns c conn }

def shut (s : St) (c : ℕ) : St := s.setConnAt c { s.conns c with closed := true }

/-- `closeConn` up to its `reset`s. -/
def dropConn (s : St) (who : Party) (c : ℕ) : St :=
  { s.shut c with conn := none, rw := none, connMu := some who }

def resetCreated (s : St) : St :=
  { s with handlers := { s.handlers with created := s.handlers.created.reset } }

def resetEcho (s : St) : St :=
  { s with handlers := { s.handlers with echo := s.handlers.echo.reset }, connMu := none }

/-- A send on `in`: it panics on a closed channel and waits on a full one. -/
def send (s : St) (p : Packet) : Option St :=
  if s.inClosed then some { s with panicked := true }
  else if s.inChan.length < queueSize then
    some { s with inChan := s.inChan ++ [p], reader := .loop }
  else none

def write (s : St) (c : ℕ) (r : Request) : St :=
  s.setConnAt c { s.conns c with reqs := (s.conns c).reqs ++ [r] }

end St

def lostOr (s : St) (pc : Pc) : Pc := if s.conn.isNone then .returned (.err .lostConn) else pc

def callerStep (cfg : Cfg) (s : St) (i : ℕ) (call : Call) : Option St :=
  match call.pc with
  | .start => if s.connMu.isSome then none else some (s.setPc i call (lostOr s .enter))
  | .enter =>
    if call.op.emptyId then some (s.setPc i call (.returned (.err .invalidId)))
    else if s.connMu.isSome then none else some (s.setPc i call (lostOr s .lock))
  | .lock =>
    if s.mutex.isSome then none else some { s.setPc i call .register with mutex := some i }
  | .register =>
    some { s.setPc i call (.getRW (s.handlers.register call.op i).2) with
      handlers := (s.handlers.register call.op i).1 }
  | .getRW token =>
    if s.connMu.isSome then none
    else match s.rw with
      | none => some (s.setPc i call (.cancel token .lostConn))
      | some c => some (s.setPc i call (.write token c))
  | .cancel token err =>
    some { s.setPc i call (.unlock (.err err)) with
      handlers := s.handlers.cancel call.op token }
  | .wait _ _ => call.result.map (fun p => s.setPc i call (.unlock (call.op.reply p.resp)))
  | .abandon token =>
    some { s.setPc i call call.op.afterAbandon with
      handlers := s.handlers.giveUp call.op token (s.now + cfg.responseTimeout) }
  | .setClosed =>
    if s.connMu.isSome then none else some { s.setPc i call .closeConn with closed := true }
  | .closeConn =>
    if s.connMu.isSome then none
    else match s.conn with
      | none => some (s.setPc i call call.op.afterClose)
      | some c => some ((s.dropConn (.caller i) c).setPc i call .resetCreated)
  | .resetCreated => some (s.resetCreated.setPc i call .resetEcho)
  | .resetEcho => some (s.resetEcho.setPc i call call.op.afterClose)
  | .unlock ret => some { s.setPc i call (.returned ret) with mutex := none }
  | .write _ _ => none
  | .returned _ => none

def writeStep (cfg : Cfg) (s : St) (i : ℕ) (err : Option Err) (call : Call) : Option St :=
  match call.pc, err with
  | .write token _, some err => some (s.setPc i call (.cancel token err))
  | .write token c, none =>
    if (s.conns c).closed then none
    else some ((s.write c (call.op.request i)).setPc i call
      (.wait token (s.now + cfg.responseTimeout)))
  | _, _ => none

def timeoutStep (s : St) (i : ℕ) (call : Call) : Option St :=
  match call.pc with
  | .wait token deadline =>
    if deadline ≤ s.now then some (s.setPc i call (.abandon token)) else none
  | _ => none

def optionMarker (c : ℕ) : Packet := { resp := { dataType := dtOptionSent }, conn := c }

def readerStep (cfg : Cfg) (s : St) : Option St :=
  match s.reader with
  | .loop =>
    if s.connMu.isSome then none
    else some { s with reader := if s.closed then .exit else .getRW }
  | .getRW =>
    if s.connMu.isSome then none
    else match s.rw with
      | none => some { s with reader := .afterErr }
      | some c => some { s with reader := .read c }
  | .send p => s.send p
  | .closeConn =>
    if s.connMu.isSome then none
    else match s.conn with
      | none => some { s with reader := .afterErr }
      | some c => some { s.dropConn .reader c with reader := .resetCreated }
  | .resetCreated => some { s.resetCreated with reader := .resetEcho }
  | .resetEcho => some { s.resetEcho with reader := .afterErr }
  | .afterErr =>
    if s.connMu.isSome then none
    else some { s with reader := if s.closed then .exit else .connect }
  | .connect =>
    if s.connMu.isSome then none
    else some { s with reader := if s.closed then .exit else .dial }
  | .storePending c => some { s with exceptionsState := .pending, reader := .setConn c }
  | .setConn c =>
    if s.connMu.isSome then none
    else if s.closed then some { s.shut c with reader := .exit }
    else some { s with
      conn := some c
      rw := some c
      reader := if cfg.wantExceptions then .marker c else .loop }
  | .marker c => s.send (optionMarker c)
  | .exit => some { s with inClosed := true, reader := .exited }
  | .read _ => none
  | .dial => none
  | .optionReq _ => none
  | .exited => none

/-- `readLoop` with the packet it has read from `c`. -/
def received (s : St) (c : ℕ) (answers : Option ℕ) : Option (Except Err (Response × ℕ)) → Option St
  | none => none
  | some (.error err) => some { s with errs := s.errs ++ [err], reader := .loop }
  | some (.ok (resp, _)) => some { s with reader := .send ⟨resp, c, answers⟩ }

def readPacketStep (s : St) : Option St :=
  match s.reader with
  | .read c =>
    match (s.conns c).wire with
    | [] => none
    | f :: rest =>
      received (s.setConnAt c { s.conns c with wire := rest }) c f.answers
        (decodeResponse (frame res f.dataType f.body))
  | _ => none

/-- Of the socket's own errors only a timeout is reported. -/
def readErrs : Err → List Err
  | .op timeout => if timeout then [.op timeout] else []
  | err => [err]

def readErrStep (s : St) (err : Err) : Option St :=
  match s.reader with
  | .read _ =>
    if err = .lostConn then none
    else some { s with
      errs := s.errs ++ readErrs err
      reader := .closeConn }
  | _ => none

/-- `ErrLostConn` out of `connect` is the caller's own shutdown. -/
def connectErr (err : Err) : List Err := if err = .lostConn then [] else [err]

def dialStep (cfg : Cfg) (s : St) (err : Option Err) : Option St :=
  match s.reader, err with
  | .dial, none =>
    some { s.setConnAt s.nconn {} with
      nconn := s.nconn + 1
      reader := if cfg.wantExceptions then .optionReq s.nconn else .setConn s.nconn }
  | .dial, some err => some { s with errs := s.errs ++ connectErr err, reader := .exit }
  | _, _ => none

def optionRequest : Request :=
  { call := none, dataType := dtOptionReq, body := optionExceptions }

def optionReqStep (s : St) (err : Option Err) : Option St :=
  match s.reader, err with
  | .optionReq c, none => some { s.write c optionRequest with reader := .storePending c }
  | .optionReq c, some err =>
    some { s.shut c with errs := s.errs ++ connectErr err, reader := .exit }
  | _, _ => none

/-- `processLoop` before its `switch`: the marker and the answer to `OPTION_REQ`. -/
def gotStep (s : St) (p : Packet) : St :=
  if p.resp.dataType = dtOptionSent then { s with optionPending := true, proc := .recv }
  else if s.optionPending then
    if p.resp.dataType = dtOptionRes then
      { s with optionPending := false, exceptionsState := .on, proc := .recv }
    else
      { s with
        optionPending := false
        exceptionsState := .refused
        proc := if p.resp.dataType = dtError then .recv else .dispatch p }
  else { s with proc := .dispatch p }

def isProgress (dataType : UInt32) : Bool :=
  dataType = dtWorkData || dataType = dtWorkWarning || dataType = dtWorkStatus

def isFinal (dataType : UInt32) : Bool :=
  dataType = dtWorkComplete || dataType = dtWorkFail || dataType = dtWorkException

def jobPacket (s : St) (p : Packet) : St :=
  match s.rhandlers.lookup p.resp.handle with
  | none => { s with proc := .recv }
  | some cb =>
    { s with
      callbacks := s.callbacks ++ [(cb, p)]
      rhandlers := if isFinal p.resp.dataType then s.rhandlers.erase p.resp.handle else s.rhandlers
      proc := .recv }

def dispatchStep (s : St) (p : Packet) : St :=
  let dataType := p.resp.dataType
  if dataType = dtError then
    { s with errs := s.errs ++ [getError (p.resp.data.getD [])], proc := .recv }
  else if dataType = dtOptionRes then { s with proc := .recv }
  else if dataType = dtStatusRes then
    let (status, h) := s.handlers.status.take p.resp.handle
    { s with handlers := { s.handlers with status }, proc := .deliver h p }
  else if dataType = dtJobCreated then
    let (created, h) := s.handlers.created.take s.now
    { s with handlers := { s.handlers with created }, proc := .deliver h p }
  else if dataType = dtEchoRes then
    let (echo, h) := s.handlers.echo.take s.now
    { s with handlers := { s.handlers with echo }, proc := .deliver h p }
  else if isProgress dataType || isFinal dataType then jobPacket s p
  else { s with proc := .recv }

/-- The handler map only follows replies to `SUBMIT_JOB`. -/
def retain (s : St) (h : HandledResponse ℕ ℕ) (p : Packet) : AList (fun _ : Bytes => ℕ) :=
  match h.external with
  | none => s.rhandlers
  | some cb => if p.resp.handle = [] then s.rhandlers else s.rhandlers.insert p.resp.handle cb

def deliverStep (s : St) (h : HandledResponse ℕ ℕ) (p : Packet) : Option St :=
  match h.internal with
  | none => some { s with proc := .recv }
  | some j => do
    let call ← s.calls j
    if call.result.isSome then none
    else some { s with
      rhandlers := retain s h p
      calls := Function.update s.calls j (some { call with result := some p })
      proc := .recv }

def processStep (s : St) : Option St :=
  match s.proc with
  | .recv =>
    match s.inChan with
    | p :: rest => some { s with inChan := rest, proc := .got p }
    | [] => if s.inClosed then some { s with proc := .exited } else none
  | .got p => some (gotStep s p)
  | .dispatch p => some (dispatchStep s p)
  | .deliver h p => deliverStep s h p
  | .exited => none

def answerStep (s : St) (c k : ℕ) (dataType : UInt32) (body : Bytes) : Option St := do
  let r ← (s.conns c).reqs[k]?
  if c < s.nconn ∧ body.length ≤ maxPacketLength then
    some { s.setConnAt c { s.conns c with
        reqs := (s.conns c).reqs.set k { r with answered := true }
        wire := (s.conns c).wire ++ [⟨dataType, body, r.call⟩] } with
      answers := s.answers ++ (r.call.toList.map (fun j => (j, dataType, body))) }
  else none

def pushStep (s : St) (c : ℕ) (dataType : UInt32) (body : Bytes) : Option St :=
  if c < s.nconn ∧ body.length ≤ maxPacketLength then
    some (s.setConnAt c { s.conns c with
      wire := (s.conns c).wire ++ [⟨dataType, body, none⟩] })
  else none

def step (cfg : Cfg) (s : St) : Act → Option St
  | .call i op =>
    if (s.calls i).isSome then none
    else some { s with calls := Function.update s.calls i (some { op, pc := op.entry }) }
  | .caller i => (s.calls i).bind (callerStep cfg s i)
  | .write i err => (s.calls i).bind (writeStep cfg s i err)
  | .timeout i => (s.calls i).bind (timeoutStep s i)
  | .reader => readerStep cfg s
  | .readPacket => readPacketStep s
  | .readErr err => readErrStep s err
  | .dial err => dialStep cfg s err
  | .optionReq err => optionReqStep s err
  | .process => processStep s
  | .answer c k dataType body => answerStep s c k dataType body
  | .push c dataType body => pushStep s c dataType body
  | .tick n => some { s with now := s.now + n }

/-- What `New` hands out: `connect` has run on the zero client, the loops have not. -/
def new (cfg : Cfg) : St where
  conn := some 0
  rw := some 0
  reader := .loop
  inChan := if cfg.wantExceptions then [optionMarker 0] else []
  conns := Function.update (fun _ => {}) 0
    { reqs := if cfg.wantExceptions then [optionRequest] else [] }
  nconn := 1

def connectActs (cfg : Cfg) : List Act :=
  if cfg.wantExceptions then
    [.reader, .dial none, .optionReq none, .reader, .reader, .reader]
  else [.reader, .dial none, .reader]

theorem new_connects (cfg : Cfg) : run (step cfg) always {} (connectActs cfg) = some (new cfg) := by
  obtain ⟨want, timeout⟩ := cfg
  cases want with
  | false =>
    simp [connectActs, run, always, step, readerStep, dialStep, new, St.setConnAt]
  | true =>
    simp [connectActs, run, always, step, readerStep, dialStep, optionReqStep, new, St.setConnAt,
      St.write, St.send, queueSize]

end Gearman.Client
