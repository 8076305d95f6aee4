import Gearman.ClientMachine

/-!
# What one step of the client can do

`Move` lists the atomic steps with their guards and the exact state each of them
leaves. Every invariant of the client is proved by cases on it.
-/

namespace Gearman.Client
open Bytes Wire

/-- Steps of a call that change nothing but its program counter. -/
inductive Local (s : St) (call : Call) : Pc → Prop
  | startLost (hpc : call.pc = .start) (hmu : s.connMu = none) (hc : s.conn = none) :
      Local s call (.returned (.err .lostConn))
  | startOk {c : ℕ} (hpc : call.pc = .start) (hmu : s.connMu = none) (hc : s.conn = some c) :
      Local s call .enter
  | invalidId (hpc : call.pc = .enter) (hid : call.op.emptyId = true) :
      Local s call (.returned (.err .invalidId))
  | enterLost (hpc : call.pc = .enter) (hid : call.op.emptyId = false) (hmu : s.connMu = none)
      (hc : s.conn = none) : Local s call (.returned (.err .lostConn))
  | enterOk {c : ℕ} (hpc : call.pc = .enter) (hid : call.op.emptyId = false)
      (hmu : s.connMu = none) (hc : s.conn = some c) : Local s call .lock
  | noRW {token : UInt64} (hpc : call.pc = .getRW token) (hmu : s.connMu = none)
      (hrw : s.rw = none) : Local s call (.cancel token .lostConn)
  | someRW {token : UInt64} {c : ℕ} (hpc : call.pc = .getRW token) (hmu : s.connMu = none)
      (hrw : s.rw = some c) : Local s call (.write token c)
  | writeFailed {token : UInt64} {c : ℕ} (hpc : call.pc = .write token c) (err : Err) :
      Local s call (.cancel token err)
  | replied {token : UInt64} {deadline : ℕ} {p : Packet} (hpc : call.pc = .wait token deadline)
      (hr : call.result = some p) : Local s call (.unlock (call.op.reply p.resp))
  | timedOut {token : UInt64} {deadline : ℕ} (hpc : call.pc = .wait token deadline)
      (hd : deadline ≤ s.now) : Local s call (.abandon token)
  | noConn (hpc : call.pc = .closeConn) (hmu : s.connMu = none) (hc : s.conn = none) :
      Local s call call.op.afterClose

inductive ReaderLocal (s : St) : ReadPc → Prop
  | closed (hpc : s.reader = .loop ∨ s.reader = .afterErr ∨ s.reader = .connect)
      (hmu : s.connMu = none) (hc : s.closed = true) : ReaderLocal s .exit
  | loop (hpc : s.reader = .loop) (hmu : s.connMu = none) (hc : s.closed = false) :
      ReaderLocal s .getRW
  | noRW (hpc : s.reader = .getRW) (hmu : s.connMu = none) (hrw : s.rw = none) :
      ReaderLocal s .afterErr
  | someRW {c : ℕ} (hpc : s.reader = .getRW) (hmu : s.connMu = none) (hrw : s.rw = some c) :
      ReaderLocal s (.read c)
  | noConn (hpc : s.reader = .closeConn) (hmu : s.connMu = none) (hc : s.conn = none) :
      ReaderLocal s .afterErr
  | afterErr (hpc : s.reader = .afterErr) (hmu : s.connMu = none) (hc : s.closed = false) :
      ReaderLocal s .connect
  | connect (hpc : s.reader = .connect) (hmu : s.connMu = none) (hc : s.closed = false) :
      ReaderLocal s .dial

/-- The packet `readLoop` is about to send on `in`. -/
def ReadPc.sending : ReadPc → Option Packet
  | .send p => some p
  | .marker c => some (optionMarker c)
  | _ => none

def ProcPc.delivers (i : ℕ) : ProcPc → Bool
  | .deliver h _ => h.internal = some i
  | _ => false

inductive Which
  | created
  | echo
deriving DecidableEq

def Handlers.slot (hs : Handlers) : Which → HandlerSlot ℕ ℕ
  | .created => hs.created
  | .echo => hs.echo

def Handlers.setSlot (hs : Handlers) (slot : HandlerSlot ℕ ℕ) : Which → Handlers
  | .created => { hs with created := slot }
  | .echo => { hs with echo := slot }

def Which.replyType : Which → UInt32
  | .created => dtJobCreated
  | .echo => dtEchoRes

inductive Move (cfg : Cfg) (s : St) : Act → St → Prop
  | begin (i : ℕ) (op : Op) (h : s.calls i = none) :
      Move cfg s (.call i op)
        { s with calls := Function.update s.calls i (some { op, pc := op.entry }) }
  | pc {a : Act} {i : ℕ} {call : Call} {pc : Pc} (h : s.calls i = some call)
      (hl : Local s call pc) : Move cfg s a (s.setPc i call pc)
  | lock {i : ℕ} {call : Call} (h : s.calls i = some call) (hpc : call.pc = .lock)
      (hm : s.mutex = none) :
      Move cfg s (.caller i) { s.setPc i call .register with mutex := some i }
  | register {i : ℕ} {call : Call} (h : s.calls i = some call) (hpc : call.pc = .register) :
      Move cfg s (.caller i)
        { s.setPc i call (.getRW (s.handlers.register call.op i).2) with
          handlers := (s.handlers.register call.op i).1 }
  | written {i : ℕ} {call : Call} {token : UInt64} {c : ℕ} (h : s.calls i = some call)
      (hpc : call.pc = .write token c) (hopen : (s.conns c).closed = false) :
      Move cfg s (.write i none) ((s.write c (call.op.request i)).setPc i call
        (.wait token (s.now + cfg.responseTimeout)))
  | cancel {i : ℕ} {call : Call} {token : UInt64} {err : Err} (h : s.calls i = some call)
      (hpc : call.pc = .cancel token err) :
      Move cfg s (.caller i)
        { s.setPc i call (.unlock (.err err)) with handlers := s.handlers.cancel call.op token }
  | abandon {i : ℕ} {call : Call} {token : UInt64} (h : s.calls i = some call)
      (hpc : call.pc = .abandon token) :
      Move cfg s (.caller i)
        { s.setPc i call call.op.afterAbandon with
          handlers := s.handlers.giveUp call.op token (s.now + cfg.responseTimeout) }
  | setClosed {i : ℕ} {call : Call} (h : s.calls i = some call) (hpc : call.pc = .setClosed)
      (hmu : s.connMu = none) :
      Move cfg s (.caller i) { s.setPc i call .closeConn with closed := true }
  | drop {i : ℕ} {call : Call} {c : ℕ} (h : s.calls i = some call) (hpc : call.pc = .closeConn)
      (hmu : s.connMu = none) (hc : s.conn = some c) :
      Move cfg s (.caller i) ((s.dropConn (.caller i) c).setPc i call .resetCreated)
  | resetCreated {i : ℕ} {call : Call} (h : s.calls i = some call)
      (hpc : call.pc = .resetCreated) :
      Move cfg s (.caller i) (s.resetCreated.setPc i call .resetEcho)
  | resetEcho {i : ℕ} {call : Call} (h : s.calls i = some call) (hpc : call.pc = .resetEcho) :
      Move cfg s (.caller i) (s.resetEcho.setPc i call call.op.afterClose)
  | unlock {i : ℕ} {call : Call} {ret : Ret} (h : s.calls i = some call)
      (hpc : call.pc = .unlock ret) :
      Move cfg s (.caller i) { s.setPc i call (.returned ret) with mutex := none }
  | reader {pc : ReadPc} (hl : ReaderLocal s pc) : Move cfg s .reader { s with reader := pc }
  | send {p : Packet} (hpc : s.reader.sending = some p) (hin : s.inClosed = false)
      (hfull : s.inChan.length < queueSize) :
      Move cfg s .reader { s with inChan := s.inChan ++ [p], reader := .loop }
  | sendClosed {p : Packet} (hpc : s.reader.sending = some p) (hin : s.inClosed = true) :
      Move cfg s .reader { s with panicked := true }
  | readerDrop {c : ℕ} (hpc : s.reader = .closeConn) (hmu : s.connMu = none)
      (hc : s.conn = some c) :
      Move cfg s .reader { s.dropConn .reader c with reader := .resetCreated }
  | readerResetCreated (hpc : s.reader = .resetCreated) :
      Move cfg s .reader { s.resetCreated with reader := .resetEcho }
  | readerResetEcho (hpc : s.reader = .resetEcho) :
      Move cfg s .reader { s.resetEcho with reader := .afterErr }
  | storePending {c : ℕ} (hpc : s.reader = .storePending c) :
      Move cfg s .reader { s with exceptionsState := .pending, reader := .setConn c }
  | refuse {c : ℕ} (hpc : s.reader = .setConn c) (hmu : s.connMu = none)
      (hc : s.closed = true) : Move cfg s .reader { s.shut c with reader := .exit }
  | publish {c : ℕ} (hpc : s.reader = .setConn c) (hmu : s.connMu = none)
      (hc : s.closed = false) :
      Move cfg s .reader { s with
        conn := some c
        rw := some c
        reader := if cfg.wantExceptions then .marker c else .loop }
  | exit (hpc : s.reader = .exit) :
      Move cfg s .reader { s with inClosed := true, reader := .exited }
  | packet {c : ℕ} {f : Frame} {rest : List Frame} {resp : Response} {n : ℕ}
      (hpc : s.reader = .read c) (hw : (s.conns c).wire = f :: rest)
      (hd : decodeResponse (frame res f.dataType f.body) = some (.ok (resp, n))) :
      Move cfg s .readPacket { s.setConnAt c { s.conns c with wire := rest } with
        reader := .send ⟨resp, c, f.answers⟩ }
  | badPacket {c : ℕ} {f : Frame} {rest : List Frame} {err : Err}
      (hpc : s.reader = .read c) (hw : (s.conns c).wire = f :: rest)
      (hd : decodeResponse (frame res f.dataType f.body) = some (.error err)) :
      Move cfg s .readPacket { s.setConnAt c { s.conns c with wire := rest } with
        errs := s.errs ++ [err]
        reader := .loop }
  | readErr {c : ℕ} {err : Err} (hpc : s.reader = .read c) (he : err ≠ .lostConn) :
      Move cfg s (.readErr err) { s with errs := s.errs ++ readErrs err, reader := .closeConn }
  | dialled (hpc : s.reader = .dial) :
      Move cfg s (.dial none) { s.setConnAt s.nconn {} with
        nconn := s.nconn + 1
        reader := if cfg.wantExceptions then .optionReq s.nconn else .setConn s.nconn }
  | dialFailed {err : Err} (hpc : s.reader = .dial) :
      Move cfg s (.dial (some err)) { s with errs := s.errs ++ connectErr err, reader := .exit }
  | optionSent {c : ℕ} (hpc : s.reader = .optionReq c) :
      Move cfg s (.optionReq none) { s.write c optionRequest with reader := .storePending c }
  | optionFailed {c : ℕ} {err : Err} (hpc : s.reader = .optionReq c) :
      Move cfg s (.optionReq (some err)) { s.shut c with
        errs := s.errs ++ connectErr err
        reader := .exit }
  | recv {p : Packet} {rest : List Packet} (hpc : s.proc = .recv) (hin : s.inChan = p :: rest) :
      Move cfg s .process { s with inChan := rest, proc := .got p }
  | procExit (hpc : s.proc = .recv) (hin : s.inChan = []) (hc : s.inClosed = true) :
      Move cfg s .process { s with proc := .exited }
  | got {p : Packet} {pending : Bool} {state : Exceptions} {pc : ProcPc} (hpc : s.proc = .got p)
      (heq : gotStep s p =
        { s with optionPending := pending, exceptionsState := state, proc := pc })
      (hnext : pc = .recv ∨ pc = .dispatch p) :
      Move cfg s .process
        { s with optionPending := pending, exceptionsState := state, proc := pc }
  | dispatched {p : Packet} {errs : List Err} {callbacks : List (ℕ × Packet)}
      {rhandlers : AList (fun _ : Bytes => ℕ)} (hpc : s.proc = .dispatch p)
      (htype : ∀ k : Which, p.resp.dataType ≠ k.replyType)
      (heq : dispatchStep s p = { s with errs, callbacks, rhandlers, proc := .recv }) :
      Move cfg s .process { s with errs, callbacks, rhandlers, proc := .recv }
  | takeStatus {p : Packet} (hpc : s.proc = .dispatch p) (htype : p.resp.dataType = dtStatusRes) :
      Move cfg s .process { s with
        handlers := { s.handlers with status := s.handlers.status.cancel p.resp.handle }
        proc := .deliver { internal := s.handlers.status.lookup p.resp.handle } p }
  | take {p : Packet} (k : Which) (hpc : s.proc = .dispatch p)
      (htype : p.resp.dataType = k.replyType) :
      Move cfg s .process { s with
        handlers := s.handlers.setSlot ((s.handlers.slot k).take s.now).1 k
        proc := .deliver ((s.handlers.slot k).take s.now).2 p }
  | dropReply {h : HandledResponse ℕ ℕ} {p : Packet} (hpc : s.proc = .deliver h p)
      (hi : h.internal = none) : Move cfg s .process { s with proc := .recv }
  | deliver {h : HandledResponse ℕ ℕ} {p : Packet} {j : ℕ} {call : Call}
      (hpc : s.proc = .deliver h p) (hi : h.internal = some j) (hcall : s.calls j = some call)
      (hr : call.result = none) :
      Move cfg s .process { s with
        rhandlers := retain s h p
        calls := Function.update s.calls j (some { call with result := some p })
        proc := .recv }
  | answer {c k : ℕ} {dataType : UInt32} {body : Bytes} {r : Request}
      (hr : (s.conns c).reqs[k]? = some r) (hc : c < s.nconn)
      (hlen : body.length ≤ maxPacketLength) :
      Move cfg s (.answer c k dataType body)
        { s.setConnAt c { s.conns c with
            reqs := (s.conns c).reqs.set k { r with answered := true }
            wire := (s.conns c).wire ++ [⟨dataType, body, r.call⟩] } with
          answers := s.answers ++ (r.call.toList.map (fun j => (j, dataType, body))) }
  | push {c : ℕ} {dataType : UInt32} {body : Bytes} (hc : c < s.nconn)
      (hlen : body.length ≤ maxPacketLength) :
      Move cfg s (.push c dataType body) (s.setConnAt c { s.conns c with
        wire := (s.conns c).wire ++ [⟨dataType, body, none⟩] })
  | tick (n : ℕ) : Move cfg s (.tick n) { s with now := s.now + n }

variable {cfg : Cfg} {s t : St}

theorem callerStep_move {i : ℕ} {call : Call} (hcall : s.calls i = some call)
    (h : callerStep cfg s i call = some t) : Move cfg s (.caller i) t := by
  cases hpc : call.pc with
  | start =>
    simp only [callerStep, hpc, lostOr] at h
    split_ifs at h with hmu hc
    · cases h
      exact .pc hcall (.startLost hpc (by simpa using hmu) (by simpa using hc))
    · cases h
      obtain ⟨c, hc⟩ := Option.ne_none_iff_exists'.mp (by simpa using hc)
      exact .pc hcall (.startOk hpc (by simpa using hmu) hc)
  | enter =>
    simp only [callerStep, hpc, lostOr] at h
    split_ifs at h with hid hmu hc
    · cases h
      exact .pc hcall (.invalidId hpc hid)
    · cases h
      exact .pc hcall (.enterLost hpc (by simpa using hid) (by simpa using hmu) (by simpa using hc))
    · cases h
      obtain ⟨c, hc⟩ := Option.ne_none_iff_exists'.mp (by simpa using hc)
      exact .pc hcall (.enterOk hpc (by simpa using hid) (by simpa using hmu) hc)
  | lock =>
    simp only [callerStep, hpc] at h
    split_ifs at h with hm
    cases h
    exact .lock hcall hpc (by simpa using hm)
  | register =>
    simp only [callerStep, hpc] at h
    cases h
    exact .register hcall hpc
  | getRW token =>
    simp only [callerStep, hpc] at h
    split_ifs at h with hmu
    have hmu : s.connMu = none := by simpa using hmu
    cases hrw : s.rw with
    | none =>
      simp only [hrw] at h
      cases h
      exact .pc hcall (.noRW hpc hmu hrw)
    | some c =>
      simp only [hrw] at h
      cases h
      exact .pc hcall (.someRW hpc hmu hrw)
  | cancel token err =>
    simp only [callerStep, hpc] at h
    cases h
    exact .cancel hcall hpc
  | wait token deadline =>
    simp only [callerStep, hpc] at h
    obtain ⟨p, hp, rfl⟩ := Option.map_eq_some_iff.mp h
    exact .pc hcall (.replied hpc hp)
  | abandon token =>
    simp only [callerStep, hpc] at h
    cases h
    exact .abandon hcall hpc
  | setClosed =>
    simp only [callerStep, hpc] at h
    split_ifs at h with hmu
    cases h
    exact .setClosed hcall hpc (by simpa using hmu)
  | closeConn =>
    simp only [callerStep, hpc] at h
    split_ifs at h with hmu
    have hmu : s.connMu = none := by simpa using hmu
    cases hc : s.conn with
    | none =>
      simp only [hc] at h
      cases h
      exact .pc hcall (.noConn hpc hmu hc)
    | some c =>
      simp only [hc] at h
      cases h
      exact .drop hcall hpc hmu hc
  | resetCreated =>
    simp only [callerStep, hpc] at h
    cases h
    exact .resetCreated hcall hpc
  | resetEcho =>
    simp only [callerStep, hpc] at h
    cases h
    exact .resetEcho hcall hpc
  | unlock ret =>
    simp only [callerStep, hpc] at h
    cases h
    exact .unlock hcall hpc
  | write token c => simp [callerStep, hpc] at h
  | returned ret => simp [callerStep, hpc] at h

theorem writeStep_move {i : ℕ} {err : Option Err} {call : Call} (hcall : s.calls i = some call)
    (h : writeStep cfg s i err call = some t) : Move cfg s (.write i err) t := by
  cases hpc : call.pc with
  | write token c =>
    cases err with
    | some err =>
      simp only [writeStep, hpc] at h
      cases h
      exact .pc hcall (.writeFailed hpc err)
    | none =>
      simp only [writeStep, hpc] at h
      split_ifs at h with hopen
      cases h
      exact .written hcall hpc (by simpa using hopen)
  | _ => simp [writeStep, hpc] at h

theorem timeoutStep_move {i : ℕ} {call : Call} (hcall : s.calls i = some call)
    (h : timeoutStep s i call = some t) : Move cfg s (.timeout i) t := by
  cases hpc : call.pc with
  | wait token deadline =>
    simp only [timeoutStep, hpc] at h
    split_ifs at h with hd
    cases h
    exact .pc hcall (.timedOut hpc hd)
  | _ => simp [timeoutStep, hpc] at h

theorem send_move {p : Packet} (hpc : s.reader.sending = some p) (h : s.send p = some t) :
    Move cfg s .reader t := by
  simp only [St.send] at h
  split_ifs at h with hin hfull
  · cases h
    exact .sendClosed hpc hin
  · cases h
    exact .send hpc (by simpa using hin) hfull

theorem readerStep_move (h : readerStep cfg s = some t) : Move cfg s .reader t := by
  cases hpc : s.reader with
  | loop =>
    simp only [readerStep, hpc] at h
    split_ifs at h with hmu hc
    · cases h
      exact .reader (.closed (.inl hpc) (by simpa using hmu) hc)
    · cases h
      exact .reader (.loop hpc (by simpa using hmu) (by simpa using hc))
  | getRW =>
    simp only [readerStep, hpc] at h
    split_ifs at h with hmu
    have hmu : s.connMu = none := by simpa using hmu
    split at h
    · cases h
      exact .reader (.noRW hpc hmu ‹_›)
    · cases h
      exact .reader (.someRW hpc hmu ‹_›)
  | send p =>
    simp only [readerStep, hpc] at h
    exact send_move (by rw [hpc]; rfl) h
  | closeConn =>
    simp only [readerStep, hpc] at h
    split_ifs at h with hmu
    have hmu : s.connMu = none := by simpa using hmu
    split at h
    · cases h
      exact .reader (.noConn hpc hmu ‹_›)
    · cases h
      exact .readerDrop hpc hmu ‹_›
  | resetCreated =>
    simp only [readerStep, hpc] at h
    cases h
    exact .readerResetCreated hpc
  | resetEcho =>
    simp only [readerStep, hpc] at h
    cases h
    exact .readerResetEcho hpc
  | afterErr =>
    simp only [readerStep, hpc] at h
    split_ifs at h with hmu hc
    · cases h
      exact .reader (.closed (.inr (.inl hpc)) (by simpa using hmu) hc)
    · cases h
      exact .reader (.afterErr hpc (by simpa using hmu) (by simpa using hc))
  | connect =>
    simp only [readerStep, hpc] at h
    split_ifs at h with hmu hc
    · cases h
      exact .reader (.closed (.inr (.inr hpc)) (by simpa using hmu) hc)
    · cases h
      exact .reader (.connect hpc (by simpa using hmu) (by simpa using hc))
  | storePending c =>
    simp only [readerStep, hpc] at h
    cases h
    exact .storePending hpc
  | setConn c =>
    simp only [readerStep, hpc] at h
    split_ifs at h with hmu hc
    · cases h
      exact .refuse hpc (by simpa using hmu) hc
    all_goals
      cases h
      have hp : Move cfg s .reader _ := .publish hpc (by simpa using hmu) (by simpa using hc)
      simp_all
  | marker c =>
    simp only [readerStep, hpc] at h
    exact send_move (by rw [hpc]; rfl) h
  | exit =>
    simp only [readerStep, hpc] at h
    cases h
    exact .exit hpc
  | _ => simp [readerStep, hpc] at h

theorem readPacketStep_move (h : readPacketStep s = some t) : Move cfg s .readPacket t := by
  cases hpc : s.reader with
  | read c =>
    cases hw : (s.conns c).wire with
    | nil => simp [readPacketStep, hpc, hw] at h
    | cons f rest =>
      simp only [readPacketStep, hpc, hw] at h
      generalize hd : decodeResponse (frame res f.dataType f.body) = decoded at h
      cases decoded with
      | none => cases h
      | some result =>
        cases result with
        | error err =>
          cases h
          exact .badPacket hpc hw hd
        | ok result =>
          cases h
          exact .packet hpc hw hd
  | _ => simp [readPacketStep, hpc] at h

theorem readErrStep_move {err : Err} (h : readErrStep s err = some t) :
    Move cfg s (.readErr err) t := by
  cases hpc : s.reader with
  | read c =>
    simp only [readErrStep, hpc] at h
    split_ifs at h with he
    cases h
    exact .readErr hpc he
  | _ => simp [readErrStep, hpc] at h

theorem dialStep_move {err : Option Err} (h : dialStep cfg s err = some t) :
    Move cfg s (.dial err) t := by
  cases hpc : s.reader with
  | dial =>
    cases err with
    | none =>
      simp only [dialStep, hpc] at h
      cases h
      exact .dialled hpc
    | some err =>
      simp only [dialStep, hpc] at h
      cases h
      exact .dialFailed hpc
  | _ => simp [dialStep, hpc] at h

theorem optionReqStep_move {err : Option Err} (h : optionReqStep s err = some t) :
    Move cfg s (.optionReq err) t := by
  cases hpc : s.reader with
  | optionReq c =>
    cases err with
    | none =>
      simp only [optionReqStep, hpc] at h
      cases h
      exact .optionSent hpc
    | some err =>
      simp only [optionReqStep, hpc] at h
      cases h
      exact .optionFailed hpc
  | _ => simp [optionReqStep, hpc] at h

theorem gotStep_move {p : Packet} (hpc : s.proc = .got p) :
    Move cfg s .process (gotStep s p) := by
  have key : ∃ pending state pc, gotStep s p =
      { s with optionPending := pending, exceptionsState := state, proc := pc } ∧
      (pc = .recv ∨ pc = .dispatch p) := by
    simp only [gotStep]
    split_ifs with hsent hpend hres herr
    · exact ⟨true, s.exceptionsState, .recv, rfl, .inl rfl⟩
    · exact ⟨false, .on, .recv, rfl, .inl rfl⟩
    · exact ⟨false, .refused, .recv, rfl, .inl rfl⟩
    · exact ⟨false, .refused, .dispatch p, rfl, .inr rfl⟩
    · exact ⟨s.optionPending, s.exceptionsState, .dispatch p, rfl, .inr rfl⟩
  obtain ⟨pending, state, pc, heq, hnext⟩ := key
  rw [heq]
  exact .got hpc heq hnext

theorem jobPacket_eq (s : St) (p : Packet) :
    ∃ callbacks rhandlers, jobPacket s p = { s with callbacks, rhandlers, proc := .recv } := by
  simp only [jobPacket]
  cases s.rhandlers.lookup p.resp.handle with
  | none => exact ⟨s.callbacks, s.rhandlers, rfl⟩
  | some cb => exact ⟨_, _, rfl⟩

theorem dispatchStep_move {p : Packet} (hpc : s.proc = .dispatch p) :
    Move cfg s .process (dispatchStep s p) := by
  by_cases hst : p.resp.dataType = dtStatusRes
  · have heq : dispatchStep s p = { s with
        handlers := { s.handlers with status := s.handlers.status.cancel p.resp.handle }
        proc := .deliver { internal := s.handlers.status.lookup p.resp.handle } p } := by
      simp [dispatchStep, hst, dtStatusRes, dtError, dtOptionRes, StatusHandlers.take,
        StatusHandlers.cancel]
    rw [heq]
    exact .takeStatus hpc hst
  by_cases hcr : p.resp.dataType = dtJobCreated
  · have heq : dispatchStep s p = { s with
        handlers := s.handlers.setSlot ((s.handlers.slot .created).take s.now).1 .created
        proc := .deliver ((s.handlers.slot .created).take s.now).2 p } := by
      simp [dispatchStep, hcr, dtStatusRes, dtError, dtOptionRes, dtJobCreated, Handlers.slot,
        Handlers.setSlot]
    rw [heq]
    exact .take .created hpc hcr
  by_cases hec : p.resp.dataType = dtEchoRes
  · have heq : dispatchStep s p = { s with
        handlers := s.handlers.setSlot ((s.handlers.slot .echo).take s.now).1 .echo
        proc := .deliver ((s.handlers.slot .echo).take s.now).2 p } := by
      simp [dispatchStep, hec, dtStatusRes, dtError, dtOptionRes, dtJobCreated, dtEchoRes,
        Handlers.slot, Handlers.setSlot]
    rw [heq]
    exact .take .echo hpc hec
  have key : ∃ errs callbacks rhandlers,
      dispatchStep s p = { s with errs, callbacks, rhandlers, proc := .recv } := by
    simp only [dispatchStep, hst, hcr, hec, if_false]
    split_ifs with herr hres hjob
    · exact ⟨_, s.callbacks, s.rhandlers, rfl⟩
    · exact ⟨s.errs, s.callbacks, s.rhandlers, rfl⟩
    · obtain ⟨callbacks, rhandlers, heq⟩ := jobPacket_eq s p
      exact ⟨s.errs, callbacks, rhandlers, heq⟩
    · exact ⟨s.errs, s.callbacks, s.rhandlers, rfl⟩
  obtain ⟨errs, callbacks, rhandlers, heq⟩ := key
  have htype : ∀ k : Which, p.resp.dataType ≠ k.replyType := by
    intro k
    cases k with
    | created => exact hcr
    | echo => exact hec
  rw [heq]
  exact .dispatched hpc htype heq

theorem deliverStep_move {h : HandledResponse ℕ ℕ} {p : Packet} (hpc : s.proc = .deliver h p)
    (hs : deliverStep s h p = some t) : Move cfg s .process t := by
  cases hi : h.internal with
  | none =>
    simp only [deliverStep, hi] at hs
    cases hs
    exact .dropReply hpc hi
  | some j =>
    simp only [deliverStep, hi] at hs
    obtain ⟨call, hcall, hrest⟩ := Option.bind_eq_some_iff.mp hs
    split_ifs at hrest with hr
    cases hrest
    exact .deliver hpc hi hcall (by simpa using hr)

theorem processStep_move (h : processStep s = some t) : Move cfg s .process t := by
  cases hpc : s.proc with
  | recv =>
    simp only [processStep, hpc] at h
    split at h
    · cases h
      exact .recv hpc ‹_›
    · split_ifs at h with hc
      cases h
      exact .procExit hpc ‹_› hc
  | got p =>
    simp only [processStep, hpc] at h
    cases h
    exact gotStep_move hpc
  | dispatch p =>
    simp only [processStep, hpc] at h
    cases h
    exact dispatchStep_move hpc
  | deliver hr p =>
    simp only [processStep, hpc] at h
    exact deliverStep_move hpc h
  | exited => simp [processStep, hpc] at h

theorem step_move {a : Act} (h : step cfg s a = some t) : Move cfg s a t := by
  cases a with
  | call i op =>
    simp only [step] at h
    split_ifs at h with hi
    cases h
    exact .begin i op (by simpa using hi)
  | caller i =>
    obtain ⟨call, hcall, hs⟩ := Option.bind_eq_some_iff.mp h
    exact callerStep_move hcall hs
  | write i err =>
    obtain ⟨call, hcall, hs⟩ := Option.bind_eq_some_iff.mp h
    exact writeStep_move hcall hs
  | timeout i =>
    obtain ⟨call, hcall, hs⟩ := Option.bind_eq_some_iff.mp h
    exact timeoutStep_move hcall hs
  | reader => exact readerStep_move h
  | readPacket => exact readPacketStep_move h
  | readErr err => exact readErrStep_move h
  | dial err => exact dialStep_move h
  | optionReq err => exact optionReqStep_move h
  | process => exact processStep_move h
  | answer c k dataType body =>
    obtain ⟨r, hr, hs⟩ := Option.bind_eq_some_iff.mp h
    split_ifs at hs with hc
    cases hs
    exact .answer hr hc.1 hc.2
  | push c dataType body =>
    simp only [step, pushStep] at h
    split_ifs at h with hc
    cases h
    exact .push hc.1 hc.2
  | tick n =>
    cases h
    exact .tick n

end Gearman.Client
