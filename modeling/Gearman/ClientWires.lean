import Gearman.BufioWriter
import Gearman.ClientLifecycle
import Gearman.Framing

/-!
# The bytes behind the packets of a client

In the machine a write is one step that takes a packet or fails. Here each connection
has the buffered writer of `connect`, and a step writes its packet through `writeTo`;
the run is held to the error this returns. What the machine counts as written is then
what the peer can read: the packets whole and in order, and after the first failed write
a front of that packet and nothing more.
-/

namespace Gearman.Client
open Bytes Wire Bufio Framing Transition

def writeTo (rw : Bufio.Writer UInt8 Err) (buf : Bytes) : Option Err × Bufio.Writer UInt8 Err :=
  rw.writeAll buf

/-- `Close` writes nothing; its packet is the placeholder of `Op.request`. -/
def Op.encode : Op → Option Bytes
  | .submit bg funcname data flag _ id => encodeJob (submitType bg flag) funcname id data
  | .echo data => encodeRequest dtEchoReq data
  | .status handle => encodeRequestString dtGetStatus handle
  | .close => encodeRequest 0 []

def Request.packet (r : Request) : Bytes := frame req r.dataType r.body

theorem Op.encode_eq (op : Op) (i : ℕ) : op.encode = some (op.request i).packet := by
  cases op with
  | submit bg funcname data flag h id => exact encodeJob_eq _ _ _ _
  | echo data => exact encodeRequest_eq _ _
  | status handle => exact encodeRequest_eq _ _
  | close => exact encodeRequest_eq _ _

/-- The connection a step writes on, the packet, and the error the step comes back with. -/
def outgoing (s : St) : Act → Option (ℕ × Bytes × Option Err)
  | .write i err => do
    let call ← s.calls i
    let packet ← call.op.encode
    match call.pc with
    | .write _ c => some (c, packet, err)
    | _ => none
  | .optionReq err => do
    let packet ← encodeRequestString dtOptionReq optionExceptions
    match s.reader with
    | .optionReq c => some (c, packet, err)
    | _ => none
  | _ => none

abbrev Lines := ℕ → Line UInt8 Err

variable (fates : ℕ → List (Bufio.Outcome Err))

def newLines : Lines := fun c => newLine defaultBufSize (fates c)

def Lines.note (lines : Lines) (s : St) (a : Act) (t : St) : Lines :=
  match outgoing s a with
  | some (c, packet, _) =>
    Function.update lines c ((lines c).push packet (writeTo (lines c).writer packet).2)
  | none =>
    if s.nconn < t.nconn then Function.update lines s.nconn (newLines fates s.nconn) else lines

/-- A step that writes comes back with what its writer returns. -/
def writesTrue (x : St × Lines) (a : Act) : Bool :=
  match outgoing x.1 a with
  | some (c, packet, err) => (writeTo (x.2 c).writer packet).1 = err
  | none => true

def St.packets (s : St) (c : ℕ) : List Bytes := (s.conns c).reqs.map Request.packet

variable {cfg : Cfg} {s t : St} {i c : ℕ} {call : Call} {token : UInt64}

theorem outgoing_write {err : Option Err} (hcall : s.calls i = some call)
    (hpc : call.pc = .write token c) :
    outgoing s (.write i err) = some (c, (call.op.request i).packet, err) := by
  simp [outgoing, hcall, hpc, call.op.encode_eq i]

theorem outgoing_optionReq {err : Option Err} (hpc : s.reader = .optionReq c) :
    outgoing s (.optionReq err) = some (c, optionRequest.packet, err) := by
  simp [outgoing, hpc, encodeRequestString, encodeRequest_eq, Request.packet, optionRequest]

theorem packets_setConnAt {conn : Conn} (h : conn.reqs.map Request.packet = s.packets c) (d : ℕ) :
    (s.setConnAt c conn).packets d = s.packets d := by
  by_cases hd : d = c
  · subst hd
    simpa [St.packets, St.setConnAt] using h
  · simp [St.packets, St.setConnAt, hd]

theorem packets_shut (s : St) (c d : ℕ) : (s.shut c).packets d = s.packets d :=
  packets_setConnAt (by rfl) d

theorem packets_write (s : St) (c : ℕ) (r : Request) :
    (s.write c r).packets = Function.update s.packets c (s.packets c ++ [r.packet]) := by
  funext d
  by_cases hd : d = c
  · subst hd
    simp [St.packets, St.write, St.setConnAt]
  · simp [St.packets, St.write, St.setConnAt, hd]

/-- What a step adds to the packets that were written: its own, if it is not an error. -/
inductive Adds (s : St) (a : Act) (t : St) : Prop
  | written {c : ℕ} {packet : Bytes} (ho : outgoing s a = some (c, packet, none))
      (ht : t.packets = Function.update s.packets c (s.packets c ++ [packet]))
  | failed {c : ℕ} {packet : Bytes} {err : Err} (ho : outgoing s a = some (c, packet, some err))
      (ht : t.packets = s.packets)
  | dialled (ho : outgoing s a = none) (hn : s.nconn < t.nconn)
      (ht : t.packets = Function.update s.packets s.nconn [])
  | silent (ho : outgoing s a = none) (hn : ¬ s.nconn < t.nconn) (ht : t.packets = s.packets)

theorem adds_writeStep {err : Option Err} (hcall : s.calls i = some call)
    (h : writeStep cfg s i err call = some t) : Adds s (.write i err) t := by
  cases hpc : call.pc with
  | write token c =>
    cases err with
    | some err =>
      simp only [writeStep, hpc] at h
      cases h
      exact .failed (outgoing_write hcall hpc) rfl
    | none =>
      simp only [writeStep, hpc] at h
      split_ifs at h
      cases h
      exact .written (outgoing_write hcall hpc) (packets_write s c _)
  | _ => simp [writeStep, hpc] at h

theorem adds_optionReqStep {err : Option Err} (h : optionReqStep s err = some t) :
    Adds s (.optionReq err) t := by
  cases hpc : s.reader with
  | optionReq c =>
    cases err with
    | some err =>
      simp only [optionReqStep, hpc] at h
      cases h
      exact .failed (outgoing_optionReq hpc) (funext (packets_shut s c))
    | none =>
      simp only [optionReqStep, hpc] at h
      cases h
      exact .written (outgoing_optionReq hpc) (packets_write s c _)
  | _ => simp [optionReqStep, hpc] at h

theorem set_answered {reqs : List Request} {k : ℕ} {r : Request} (hr : reqs[k]? = some r) :
    (reqs.set k { r with answered := true }).map Request.packet = reqs.map Request.packet := by
  induction reqs generalizing k with
  | nil => rfl
  | cons r' reqs ih =>
    cases k with
    | zero =>
      cases hr
      rfl
    | succ k =>
      simp only [List.set_cons_succ, List.map_cons]
      rw [ih hr]

theorem Move.adds {a : Act} (h : Move cfg s a t) (ho : outgoing s a = none) : Adds s a t := by
  cases h with
  | written hcall hpc hopen =>
    rw [outgoing_write hcall hpc] at ho
    cases ho
  | optionSent hpc =>
    rw [outgoing_optionReq hpc] at ho
    cases ho
  | optionFailed hpc =>
    rw [outgoing_optionReq hpc] at ho
    cases ho
  | drop hcall hpc hmu hc => exact .silent ho (Nat.lt_irrefl _) (funext (packets_shut s _))
  | readerDrop hpc hmu hc => exact .silent ho (Nat.lt_irrefl _) (funext (packets_shut s _))
  | refuse hpc hmu hc => exact .silent ho (Nat.lt_irrefl _) (funext (packets_shut s _))
  | packet hpc hw hd => exact .silent ho (Nat.lt_irrefl _) (funext (packets_setConnAt rfl))
  | badPacket hpc hw hd => exact .silent ho (Nat.lt_irrefl _) (funext (packets_setConnAt rfl))
  | push hc hlen => exact .silent ho (Nat.lt_irrefl _) (funext (packets_setConnAt rfl))
  | answer hr hc hlen =>
    exact .silent ho (Nat.lt_irrefl _) (funext (packets_setConnAt (set_answered hr)))
  | dialled hpc =>
    refine .dialled ho (Nat.lt_succ_self _) ?_
    funext d
    by_cases hd : d = s.nconn
    · subst hd
      simp [St.packets, St.setConnAt]
    · simp [St.packets, St.setConnAt, hd]
  | _ => exact .silent ho (Nat.lt_irrefl _) rfl

theorem step_adds {a : Act} (h : step cfg s a = some t) : Adds s a t := by
  cases a with
  | write i err =>
    obtain ⟨call, hcall, ht⟩ := Option.bind_eq_some_iff.mp h
    exact adds_writeStep hcall ht
  | optionReq err => exact adds_optionReqStep h
  | _ => exact (step_move h).adds rfl

def Consistent (x : St × Lines) : Prop := ∀ c, Carried (x.2 c) (x.1.packets c)

theorem Consistent.step {x y : St × Lines} {a : Act} (hx : Consistent x)
    (hw : writesTrue x a = true) (h : traced (step cfg) (Lines.note fates) x a = some y) :
    Consistent y := by
  obtain ⟨hstep, hnote⟩ := traced_eq_some.mp h
  intro c
  cases step_adds hstep with
  | written ho ht =>
    have hok := hw
    simp only [writesTrue, ho, decide_eq_true_eq] at hok
    simp only [hnote, Lines.note, ho, ht]
    exact carried_update hx ((hx _).push_ok hok) c
  | @failed d packet err ho ht =>
    have hfail := hw
    simp only [writesTrue, ho, decide_eq_true_eq] at hfail
    simp only [hnote, Lines.note, ho, ht]
    have h := carried_update (c := d) hx ((hx d).push_err hfail) c
    rwa [Function.update_eq_self] at h
  | dialled ho hn ht =>
    simp only [hnote, Lines.note, ho, if_pos hn, ht]
    exact carried_update hx (carried_newLine _ _) c
  | silent ho hn ht =>
    simp only [hnote, Lines.note, ho, if_neg hn, ht]
    exact hx c

theorem requests_on_the_wire (cfg : Cfg) (as : List Act) (s : St) (lines : Lines)
    (h : run (traced (step cfg) (Lines.note fates)) writesTrue ({}, newLines fates) as =
      some (s, lines)) (c : ℕ) :
    Carried (lines c) ((s.conns c).reqs.map Request.packet) :=
  run_invariant (I := Consistent) (fun _ _ _ hx hw hy => hx.step fates hw hy) h
    (fun _ => carried_newLine _ _) c

/-- The connection breaks five bytes into the first request. -/
def cutShort : ℕ → List (Bufio.Outcome Err) := fun _ => [.failed 5 (.op false)]

def cutActs : List Act :=
  connectActs demoCfg ++ [.call 0 (.echo [1]), .caller 0, .caller 0, .caller 0, .caller 0,
    .write 0 (some (.op false)), .caller 0]

theorem requests_on_the_wire_cut_short :
    ∃ s lines, run (traced (step demoCfg) (Lines.note cutShort)) writesTrue
        ({}, newLines cutShort) cutActs = some (s, lines) ∧
      (lines 0).writer.conn.out = [0, 82, 69, 81, 0] ∧
      Carried (lines 0) ((s.conns 0).reqs.map Request.packet) := by
  have hrun : (run (traced (step demoCfg) (Lines.note cutShort)) writesTrue
      ({}, newLines cutShort) cutActs).map (fun x => (x.2 0).writer.conn.out) =
      some [0, 82, 69, 81, 0] := by decide +kernel
  obtain ⟨x, hx, hout⟩ := Option.map_eq_some_iff.mp hrun
  exact ⟨x.1, x.2, hx, hout, requests_on_the_wire cutShort demoCfg cutActs x.1 x.2 hx 0⟩

end Gearman.Client
