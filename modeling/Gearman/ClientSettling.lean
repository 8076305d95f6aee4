import Gearman.ClientProgress
import Gearman.ClientStatus

/-!
# The loops of the client

`processLoop` sends a reply on a channel of capacity one, so it could wait for a caller
that has gone. It never does: a handler is taken out of its queue or map before it is
called, and a call registers once, so the channel is empty when the reply comes.

After `Close` has returned, `readLoop` has a bounded number of steps left and
`processLoop` four for each packet, and neither can get stuck before its end.
-/

namespace Gearman.Client
open Bytes Wire Transition

variable {cfg : Cfg} {s t : St} {a : Act} {i j : ℕ}

def Unanswered (s : St) : Prop :=
  ∀ j, s.proc.delivers j = true → ∃ call, s.calls j = some call ∧ call.result = none

theorem Unanswered.stay (hm : Move cfg s a t) (hd : t.proc.delivers j = true) {call : Call}
    (hcall : s.calls j = some call) (hres : call.result = none) :
    ∃ call, t.calls j = some call ∧ call.result = none := by
  have key : ∀ {l : ℕ} {old : Call} {pc : Pc}, s.calls l = some old →
      ∃ call, Function.update s.calls l (some { old with pc }) j = some call ∧
        call.result = none := by
    intro l old pc hold
    by_cases hjl : j = l
    · subst hjl
      cases Option.some.inj (hcall.symm.trans hold)
      exact ⟨{ call with pc }, Function.update_self .., hres⟩
    · exact ⟨call, by rw [Function.update_of_ne hjl, hcall], hres⟩
  cases hm with
  | begin l op h =>
    refine ⟨call, (Function.update_of_ne ?_ _ _).trans hcall, hres⟩
    rintro rfl
    simp [h] at hcall
  | deliver hpc hint h hr => cases hd
  | _ => first
    | exact ⟨call, hcall, hres⟩
    | exact key (by assumption)

theorem Unanswered.move (hi : Unanswered s) (hr : Rounds s) (hreg : Registered s)
    (hm : Move cfg s a t) : Unanswered t := by
  intro j hd
  obtain ⟨h, p, hpc, hint⟩ := delivers_iff.mp hd
  rcases hm.delivering hpc with hold | ⟨-, -, ⟨hs, rfl⟩, hl | ⟨k, -, rfl⟩⟩
  · obtain ⟨call, hcall, hres⟩ := hi j (delivers_iff.mpr ⟨h, p, hold, hint⟩)
    exact Unanswered.stay hm hd hcall hres
  · obtain ⟨call, hq⟩ := hreg _ j (hl.symm.trans hint)
    exact ⟨call, hq.active, hq.result⟩
  · obtain ⟨call, e, ho, -⟩ := (hr.queue k).take hint
    exact ⟨call, ho.active, ho.result⟩

structure Answering (s : St) : Prop where
  rounds : Rounds s
  registered : Registered s
  unanswered : Unanswered s

theorem answering_run (h : Reachable (step cfg) always (new cfg) s) : Answering s := by
  refine h.invariant (I := Answering)
    ⟨rounds_new cfg, (fun handle i h => by cases h), (fun j h => by cases h)⟩ ?_
  intro s a t hi _ hstep
  have hm := step_move hstep
  exact ⟨hi.rounds.move hm, hi.registered.move hi.rounds hm,
    hi.unanswered.move hi.rounds hi.registered hm⟩

theorem Answering.process (hi : Answering s) (cfg : Cfg) :
    s.proc = .exited ∨ (s.proc = .recv ∧ s.inChan = [] ∧ s.inClosed = false) ∨
      ∃ t, step cfg s .process = some t := by
  cases hpc : s.proc with
  | recv =>
    cases hin : s.inChan with
    | cons p rest => exact Or.inr (Or.inr (by simp [step, processStep, hpc, hin]))
    | nil =>
      cases hc : s.inClosed with
      | false => exact Or.inr (Or.inl ⟨rfl, rfl, rfl⟩)
      | true => exact Or.inr (Or.inr (by simp [step, processStep, hpc, hin, hc]))
  | got p => exact Or.inr (Or.inr (by simp [step, processStep, hpc]))
  | dispatch p => exact Or.inr (Or.inr (by simp [step, processStep, hpc]))
  | deliver h p =>
    cases hint : h.internal with
    | none => exact Or.inr (Or.inr (by simp [step, processStep, hpc, deliverStep, hint]))
    | some j =>
      obtain ⟨call, hcall, hres⟩ := hi.unanswered j (delivers_iff.mpr ⟨h, p, hpc, hint⟩)
      exact Or.inr (Or.inr (by simp [step, processStep, hpc, deliverStep, hint, hcall, hres]))
  | exited => exact Or.inl rfl

/-- `processLoop` waits for nothing but the next packet: whenever it has one, its next step is
possible, the send of a reply to the call that waits for it among them. -/
theorem process_never_blocks (cfg : Cfg) (s : St)
    (hs : Reachable (step cfg) always (new cfg) s) :
    s.proc = .exited ∨ (s.proc = .recv ∧ s.inChan = [] ∧ s.inClosed = false) ∨
      ∃ t, step cfg s .process = some t := (answering_run hs).process cfg

def echoReplyActs : List Act :=
  echoActs ++ [.answer 0 0 dtEchoRes [1], .reader, .reader, .readPacket, .reader, .process,
    .process, .process]

theorem process_never_blocks_on_reply :
    ∃ s, Reachable (step demoCfg) always (new demoCfg) s ∧ s.proc.delivers 0 = true ∧
      (s.proc = .exited ∨ (s.proc = .recv ∧ s.inChan = [] ∧ s.inClosed = false) ∨
        ∃ t, step demoCfg s .process = some t) :=
  ⟨_, ⟨echoReplyActs, rfl⟩, rfl, process_never_blocks demoCfg _ ⟨echoReplyActs, rfl⟩⟩

theorem Answering.status (hi : Answering s) {handle : Bytes}
    (h : s.handlers.status.lookup handle = some i) :
    s.mutex = some i ∧ ∃ call, s.calls i = some call ∧ call.op = .status handle := by
  obtain ⟨call, hq⟩ := hi.registered handle i h
  exact ⟨hi.rounds.locks.mutex i call hq.active hq.holds, call, hq.active, hq.op⟩

theorem Answering.status_key (hi : Answering s) {handle : Bytes}
    (h : handle ∈ s.handlers.status.keys) :
    ∃ i, s.mutex = some i ∧ ∃ call, s.calls i = some call ∧ call.op = .status handle := by
  obtain ⟨i, hl⟩ := Option.isSome_iff_exists.mp (AList.lookup_isSome.mpr (AList.mem_keys.mpr h))
  exact ⟨i, hi.status hl⟩

theorem status_handlers_bounded (cfg : Cfg) (s : St)
    (hs : Reachable (step cfg) always (new cfg) s) :
    s.handlers.status.keys.length ≤ 1 ∧
    ∀ handle i, s.handlers.status.lookup handle = some i →
      s.mutex = some i ∧ ∃ call, s.calls i = some call ∧ call.op = .status handle := by
  have hi := answering_run hs
  refine ⟨?_, fun handle i h => hi.status h⟩
  have hone : ∀ x ∈ s.handlers.status.keys, ∀ y ∈ s.handlers.status.keys, x = y := by
    intro x hx y hy
    obtain ⟨i, hmx, call, hcall, hop⟩ := hi.status_key hx
    obtain ⟨j, hmy, call', hcall', hop'⟩ := hi.status_key hy
    cases Option.some.inj (hmx.symm.trans hmy)
    cases Option.some.inj (hcall.symm.trans hcall')
    cases hop.symm.trans hop'
    rfl
  have hnd := s.handlers.status.keys_nodup
  rcases hk : s.handlers.status.keys with _ | ⟨x, _ | ⟨y, rest⟩⟩
  · simp
  · simp
  · rw [hk] at hone hnd
    have hxy := hone x (by simp) y (by simp)
    simp [hxy] at hnd

theorem status_handlers_in_query :
    ∃ s, Reachable (step demoCfg) always (new demoCfg) s ∧
      s.handlers.status.keys.length = 1 ∧ s.mutex = some 0 := by
  refine ⟨_, ⟨statusActs 0, rfl⟩, rfl, ?_⟩
  exact ((status_handlers_bounded demoCfg _ ⟨statusActs 0, rfl⟩).2 [72] 0 rfl).1

def ReadPc.rank : ReadPc → ℕ
  | .getRW => 7
  | .read _ => 6
  | .closeConn => 5
  | .dial => 5
  | .resetCreated => 4
  | .optionReq _ => 4
  | .resetEcho => 3
  | .storePending _ => 3
  | .send _ => 3
  | .marker _ => 3
  | .loop => 2
  | .afterErr => 2
  | .connect => 2
  | .setConn _ => 2
  | .exit => 1
  | .exited => 0

def ProcPc.rank : ProcPc → ℕ
  | .got _ => 4
  | .dispatch _ => 3
  | .deliver _ _ => 2
  | .recv => 1
  | .exited => 0

def St.toSettle (s : St) : ℕ := 5 * s.reader.rank + 4 * s.inChan.length + s.proc.rank

theorem toSettle_le (s : St) : s.toSettle ≤ 39 + 4 * s.inChan.length := by
  have hr : s.reader.rank ≤ 7 := by cases s.reader <;> simp [ReadPc.rank]
  have hp : s.proc.rank ≤ 4 := by cases s.proc <;> simp [ProcPc.rank]
  simp only [St.toSettle]
  omega

def Act.loop : Act → Bool
  | .reader => true
  | .readPacket => true
  | .readErr _ => true
  | .dial _ => true
  | .optionReq _ => true
  | .process => true
  | _ => false

theorem toSettle_lt_of_reader (hr : t.reader.rank < s.reader.rank) (hin : t.inChan = s.inChan)
    (hp : t.proc = s.proc) : t.toSettle < s.toSettle := by
  simp only [St.toSettle, hin, hp]
  omega

theorem send_settles {p : Packet} (hr : s.reader.rank = 3) (hin : s.inClosed = false)
    (h : s.send p = some t) : t.toSettle < s.toSettle := by
  simp only [St.send, hin, Bool.false_eq_true, if_false] at h
  split_ifs at h
  cases h
  have hloop : ReadPc.loop.rank = 2 := rfl
  simp only [St.toSettle, hr, hloop, List.length_append, List.length_singleton]
  omega

theorem readerStep_settles (hc : s.closed = true) (hin : s.inClosed = true → s.reader = .exited)
    (h : readerStep cfg s = some t) : t.toSettle < s.toSettle := by
  cases hpc : s.reader with
  | getRW =>
    simp only [readerStep, hpc] at h
    split_ifs at h
    cases hrw : s.rw <;> simp only [hrw] at h <;> cases h <;>
      exact toSettle_lt_of_reader (by simp [hpc, ReadPc.rank]) rfl rfl
  | closeConn =>
    simp only [readerStep, hpc] at h
    split_ifs at h
    cases hcn : s.conn <;> simp only [hcn] at h <;> cases h <;>
      exact toSettle_lt_of_reader (by simp [hpc, ReadPc.rank]) rfl rfl
  | send p =>
    have hopen : s.inClosed = false := by simpa [hpc] using hin
    simp only [readerStep, hpc] at h
    exact send_settles (by simp [hpc, ReadPc.rank]) hopen h
  | marker c =>
    have hopen : s.inClosed = false := by simpa [hpc] using hin
    simp only [readerStep, hpc] at h
    exact send_settles (by simp [hpc, ReadPc.rank]) hopen h
  | setConn c =>
    simp only [readerStep, hpc, hc] at h
    split_ifs at h
    cases h
    exact toSettle_lt_of_reader (by simp [hpc, ReadPc.rank]) rfl rfl
  | read c => simp [readerStep, hpc] at h
  | dial => simp [readerStep, hpc] at h
  | optionReq c => simp [readerStep, hpc] at h
  | exited => simp [readerStep, hpc] at h
  | _ =>
    simp only [readerStep, hpc, hc] at h
    try split_ifs at h
    cases h
    exact toSettle_lt_of_reader (by simp [hpc, ReadPc.rank]) rfl rfl

theorem received_settles {c : ℕ} {answers : Option ℕ}
    {read : Option (Except Err (Response × ℕ))} (h : received s c answers read = some t) :
    t.reader.rank ≤ 3 ∧ t.inChan = s.inChan ∧ t.proc = s.proc := by
  rcases read with _ | err | ⟨resp, n⟩ <;> cases h <;> exact ⟨by simp [ReadPc.rank], rfl, rfl⟩

theorem readPacketStep_settles (h : readPacketStep s = some t) : t.toSettle < s.toSettle := by
  cases hpc : s.reader with
  | read c =>
    simp only [readPacketStep, hpc] at h
    cases hw : (s.conns c).wire with
    | nil => simp [hw] at h
    | cons f rest =>
      simp only [hw] at h
      obtain ⟨hrank, hin, hp⟩ := received_settles h
      exact toSettle_lt_of_reader (hrank.trans_lt (by simp [hpc, ReadPc.rank])) hin hp
  | _ => simp [readPacketStep, hpc] at h

theorem readErrStep_settles {err : Err} (h : readErrStep s err = some t) :
    t.toSettle < s.toSettle := by
  cases hpc : s.reader with
  | read c =>
    simp only [readErrStep, hpc] at h
    split_ifs at h
    cases h
    exact toSettle_lt_of_reader (by simp [hpc, ReadPc.rank]) rfl rfl
  | _ => simp [readErrStep, hpc] at h

theorem dialStep_settles {err : Option Err} (h : dialStep cfg s err = some t) :
    t.toSettle < s.toSettle := by
  cases hpc : s.reader with
  | dial =>
    cases err <;> simp only [dialStep, hpc] at h <;> cases h <;>
      refine toSettle_lt_of_reader ?_ rfl rfl
    · cases cfg.wantExceptions <;> simp [hpc, ReadPc.rank]
    · simp [hpc, ReadPc.rank]
  | _ => simp [dialStep, hpc] at h

theorem optionReqStep_settles {err : Option Err} (h : optionReqStep s err = some t) :
    t.toSettle < s.toSettle := by
  cases hpc : s.reader with
  | optionReq c =>
    cases err <;> simp only [optionReqStep, hpc] at h <;> cases h <;>
      exact toSettle_lt_of_reader (by simp [hpc, ReadPc.rank]) rfl rfl
  | _ => simp [optionReqStep, hpc] at h

theorem gotStep_settles (s : St) (p : Packet) :
    (gotStep s p).reader = s.reader ∧ (gotStep s p).inChan = s.inChan ∧
      (gotStep s p).proc.rank ≤ 3 := by
  unfold gotStep
  split_ifs <;> exact ⟨rfl, rfl, by simp [ProcPc.rank]⟩

theorem jobPacket_settles (s : St) (p : Packet) :
    (jobPacket s p).reader = s.reader ∧ (jobPacket s p).inChan = s.inChan ∧
      (jobPacket s p).proc.rank ≤ 2 := by
  unfold jobPacket
  cases s.rhandlers.lookup p.resp.handle <;> exact ⟨rfl, rfl, by simp [ProcPc.rank]⟩

theorem dispatchStep_settles (s : St) (p : Packet) :
    (dispatchStep s p).reader = s.reader ∧ (dispatchStep s p).inChan = s.inChan ∧
      (dispatchStep s p).proc.rank ≤ 2 := by
  unfold dispatchStep
  dsimp only
  split_ifs <;> first
    | exact jobPacket_settles s p
    | exact ⟨rfl, rfl, by simp [ProcPc.rank]⟩

theorem toSettle_lt_of_proc (h : t.reader = s.reader ∧ t.inChan = s.inChan ∧
    t.proc.rank < s.proc.rank) : t.toSettle < s.toSettle := by
  simp only [St.toSettle, h.1, h.2.1]
  have := h.2.2
  omega

theorem deliverStep_settles {h : HandledResponse ℕ ℕ} {p : Packet}
    (hstep : deliverStep s h p = some t) :
    t.reader = s.reader ∧ t.inChan = s.inChan ∧ t.proc = .recv := by
  cases hint : h.internal with
  | none =>
    simp only [deliverStep, hint] at hstep
    cases hstep
    exact ⟨rfl, rfl, rfl⟩
  | some j =>
    simp only [deliverStep, hint] at hstep
    obtain ⟨call, -, hstep⟩ := Option.bind_eq_some_iff.mp hstep
    split_ifs at hstep
    cases hstep
    exact ⟨rfl, rfl, rfl⟩

theorem processStep_settles (h : processStep s = some t) : t.toSettle < s.toSettle := by
  cases hpc : s.proc with
  | recv =>
    simp only [processStep, hpc] at h
    cases hin : s.inChan with
    | nil =>
      simp only [hin] at h
      split_ifs at h
      cases h
      exact toSettle_lt_of_proc ⟨rfl, hin.symm, by simp [hpc, ProcPc.rank]⟩
    | cons p rest =>
      simp only [hin] at h
      cases h
      simp only [St.toSettle, hpc, hin, List.length_cons]
      have hgot : (ProcPc.got p).rank = 4 := rfl
      have hrecv : ProcPc.recv.rank = 1 := rfl
      omega
  | got p =>
    simp only [processStep, hpc] at h
    cases h
    obtain ⟨hr, hin, hp⟩ := gotStep_settles s p
    exact toSettle_lt_of_proc ⟨hr, hin, hp.trans_lt (by simp [hpc, ProcPc.rank])⟩
  | dispatch p =>
    simp only [processStep, hpc] at h
    cases h
    obtain ⟨hr, hin, hp⟩ := dispatchStep_settles s p
    exact toSettle_lt_of_proc ⟨hr, hin, hp.trans_lt (by simp [hpc, ProcPc.rank])⟩
  | deliver hd p =>
    simp only [processStep, hpc] at h
    obtain ⟨hr, hin, hp⟩ := deliverStep_settles h
    exact toSettle_lt_of_proc ⟨hr, hin, by simp [hpc, hp, ProcPc.rank]⟩
  | exited => simp [processStep, hpc] at h

theorem step_settles (hc : s.closed = true) (hin : s.inClosed = true → s.reader = .exited)
    (h : step cfg s a = some t) (ha : a.loop = true) : t.toSettle < s.toSettle := by
  cases a with
  | reader => exact readerStep_settles hc hin h
  | readPacket => exact readPacketStep_settles h
  | readErr err => exact readErrStep_settles h
  | dial err => exact dialStep_settles h
  | optionReq err => exact optionReqStep_settles h
  | process => exact processStep_settles h
  | _ => cases ha

theorem Move.toSettle_eq (hm : Move cfg s a t) (ha : a.loop = false) :
    t.toSettle = s.toSettle := by
  cases hm <;> first | rfl | cases ha

/-- What the loops have left behind when they end, and the connection `readLoop` reads. -/
structure Ending (s : St) : Prop where
  proc : s.proc = .exited → s.inChan = [] ∧ s.inClosed = true
  reader : s.reader = .exited → s.inClosed = true
  reads : ∀ c, s.reader = .read c → c < s.nconn

theorem ending_new (cfg : Cfg) : Ending (new cfg) where
  proc := fun h => by cases h
  reader := fun h => by cases h
  reads := fun c h => by cases h

theorem ReaderLocal.ending (hw : Wired s) {pc : ReadPc} (hl : ReaderLocal s pc) :
    pc ≠ .exited ∧ ∀ c, pc = .read c → c < s.nconn := by
  cases hl with
  | @someRW c hpc hmu hrw =>
    refine ⟨by simp, ?_⟩
    intro c' hc
    cases hc
    exact (hw.conn_open c (hw.rw_eq.symm.trans hrw)).1
  | _ => exact ⟨by simp, by simp⟩

theorem Ending.proc_move (hi : Ending s) (hm : Move cfg s a t) (h : t.proc = .exited) :
    t.inChan = [] ∧ t.inClosed = true := by
  cases hm with
  | send hpc hin hfull =>
    have hc := (hi.proc h).2
    simp [hin] at hc
  | exit hpc => exact ⟨(hi.proc h).1, rfl⟩
  | got hpc heq hnext => rcases hnext with rfl | rfl <;> cases h
  | procExit hpc hin hc => exact ⟨hin, hc⟩
  | _ => first
    | exact hi.proc h
    | cases h

theorem Ending.reader_move (hi : Ending s) (hw : Wired s) (hm : Move cfg s a t)
    (h : t.reader = .exited) : t.inClosed = true := by
  cases hm with
  | reader hl => exact absurd h (hl.ending hw).1
  | exit hpc => rfl
  | publish hpc hmu hc => cases hw : cfg.wantExceptions <;> simp [hw] at h
  | dialled hpc => cases hw : cfg.wantExceptions <;> simp [hw] at h
  | _ => first
    | exact hi.reader h
    | cases h

theorem Ending.reads_move (hi : Ending s) (hw : Wired s) (hm : Move cfg s a t) {c : ℕ}
    (h : t.reader = .read c) : c < t.nconn := by
  cases hm with
  | reader hl => exact (hl.ending hw).2 c h
  | publish hpc hmu hc => cases hw : cfg.wantExceptions <;> simp [hw] at h
  | dialled hpc => cases hw : cfg.wantExceptions <;> simp [hw] at h
  | _ => first
    | exact hi.reads c h
    | cases h

theorem Ending.move (hi : Ending s) (hw : Wired s) (hm : Move cfg s a t) : Ending t :=
  ⟨hi.proc_move hm, hi.reader_move hw hm, fun _ => hi.reads_move hw hm⟩

structure Winding (s : St) : Prop where
  answering : Answering s
  sealed : Sealed s
  ending : Ending s
  shut : Shut s

theorem Winding.move (hi : Winding s) (hm : Move cfg s a t) : Winding t where
  answering :=
    ⟨hi.answering.rounds.move hm, hi.answering.registered.move hi.answering.rounds hm,
      hi.answering.unanswered.move hi.answering.rounds hi.answering.registered hm⟩
  sealed := hi.sealed.move hm
  ending := hi.ending.move hi.answering.rounds.wired hm
  shut := hi.shut.move hm

theorem winding_of_closed (h : Reachable (step cfg) always (new cfg) s)
    (hret : CloseReturned s) : Winding s := by
  have horderly := (orderly_new cfg).run h
  have hending : Ending s ∧ Wired s := h.invariant (I := fun s => Ending s ∧ Wired s)
    ⟨ending_new cfg, wired_new cfg⟩
    (fun _ _ _ hi _ hs => ⟨hi.1.move hi.2 (step_move hs), hi.2.move (step_move hs)⟩)
  exact ⟨answering_run h, horderly.sealed, hending.1, horderly.shut hret⟩

/-- The steps of the loops, with the read of a closed connection failing and that of an open
one without an end. -/
def settling (s : St) : Act → Bool
  | .readErr _ =>
    match s.reader with
    | .read c => (s.conns c).closed
    | _ => false
  | a => a.loop

theorem Winding.process (hi : Winding s) (cfg : Cfg) (h : s.inClosed = true ∨ s.inChan ≠ []) :
    s.proc = .exited ∨ ∃ a t, settling s a = true ∧ step cfg s a = some t := by
  rcases hi.answering.process cfg with hp | ⟨-, hin, hc⟩ | ⟨t, ht⟩
  · exact Or.inl hp
  · rcases h with h | h
    · simp [hc] at h
    · exact absurd hin h
  · exact Or.inr ⟨.process, t, rfl, ht⟩

theorem Winding.send (hi : Winding s) {p : Packet} (hr : s.reader.sending = some p)
    (hstep : readerStep cfg s = s.send p) :
    ∃ a t, settling s a = true ∧ step cfg s a = some t := by
  have hopen : s.inClosed = false := by
    by_contra hne
    have hex := hi.sealed.exited (by simpa using hne)
    simp [hex, ReadPc.sending] at hr
  by_cases hfull : s.inChan.length < queueSize
  · refine ⟨.reader, { s with inChan := s.inChan ++ [p], reader := .loop }, rfl, ?_⟩
    simp [step, hstep, St.send, hopen, hfull]
  · have hne : s.inChan ≠ [] := by
      intro hnil
      simp [hnil, queueSize] at hfull
    rcases hi.process cfg (Or.inr hne) with hp | hstep
    · exact absurd (hi.ending.proc hp).1 hne
    · exact hstep

theorem Winding.exists_step (hi : Winding s) :
    (s.reader = .exited ∧ s.proc = .exited ∧ s.inChan = []) ∨
      ∃ a t, settling s a = true ∧ step cfg s a = some t := by
  have hmu := hi.shut.connMu
  have hc := hi.shut.closed
  have hconn := hi.shut.conn
  have hrw : s.rw = none := hi.answering.rounds.wired.rw_eq.trans hconn
  cases hpc : s.reader with
  | exited =>
    rcases hi.process cfg (Or.inl (hi.ending.reader hpc)) with hp | hstep
    · exact Or.inl ⟨rfl, hp, (hi.ending.proc hp).1⟩
    · exact Or.inr hstep
  | read c =>
    -- the connection is known and not the published one, so it has been closed
    have hclosed : (s.conns c).closed = true := by
      rcases hi.answering.rounds.wired.known c (hi.ending.reads c hpc) with h | h | h
      · simp [hconn] at h
      · exact h
      · simp [hpc, ReadPc.setup] at h
    exact Or.inr ⟨.readErr (.op false), _, by simp [settling, hpc, hclosed],
      by simp [step, readErrStep, hpc]; rfl⟩
  | dial => exact Or.inr ⟨.dial none, _, rfl, by simp [step, dialStep, hpc]; rfl⟩
  | optionReq c => exact Or.inr ⟨.optionReq none, _, rfl, by simp [step, optionReqStep, hpc]; rfl⟩
  | send p => exact Or.inr (hi.send (by rw [hpc]; rfl) (by simp [readerStep, hpc]))
  | marker c => exact Or.inr (hi.send (by rw [hpc]; rfl) (by simp [readerStep, hpc]))
  | _ =>
    exact Or.inr ⟨.reader, _, rfl, by simp [step, readerStep, hpc, hmu, hc, hconn, hrw]; rfl⟩

/-- Once a `Close` has returned the loops take a bounded number of further steps, whatever
order the parties run in, and they cannot get stuck: until both have ended and `in` is empty, one
of them has a next step. -/
theorem loops_end (cfg : Cfg) (s : St) (hs : Reachable (step cfg) always (new cfg) s)
    (hret : CloseReturned s) :
    (∀ acts t, run (step cfg) always s acts = some t →
      acts.countP Act.loop ≤ 39 + 4 * s.inChan.length) ∧
    (∀ t, Reachable (step cfg) always s t →
      (t.reader = .exited ∧ t.proc = .exited ∧ t.inChan = []) ∨
        ∃ a u, settling t a = true ∧ step cfg t a = some u) := by
  have hi := winding_of_closed hs hret
  constructor
  · intro acts t hrun
    have hcount := Ranking.count_add_rank_le (I := Winding) St.toSettle Act.loop ?_ hi hrun
    · have hle := toSettle_le s
      omega
    · intro s a t hi _ hstep
      have hm := step_move hstep
      refine ⟨hi.move hm, ?_, step_settles hi.shut.closed hi.sealed.exited hstep⟩
      cases ha : a.loop with
      | false => exact (hm.toSettle_eq ha).le
      | true => exact (step_settles hi.shut.closed hi.sealed.exited hstep ha).le
  · intro t ht
    have hwind : Winding t := ht.invariant hi (fun _ _ _ hi _ hs => hi.move (step_move hs))
    exact hwind.exists_step

theorem loops_end_in_redial :
    ∃ s, Reachable (step demoCfg) always (new demoCfg) s ∧ CloseReturned s ∧
      ∃ a u, settling s a = true ∧ step demoCfg s a = some u := by
  refine ⟨_, ⟨closeActs, rfl⟩, ⟨0, _, _, rfl, rfl, rfl⟩, ?_⟩
  have h := (loops_end demoCfg _ ⟨closeActs, rfl⟩ ⟨0, _, _, rfl, rfl, rfl⟩).2 _ (.refl _)
  refine h.resolve_left ?_
  rintro ⟨hr, -⟩
  cases hr

end Gearman.Client
