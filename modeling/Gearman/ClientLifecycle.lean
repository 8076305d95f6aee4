import Gearman.ClientMoves

/-!
# The connection of a client, from `New` to `Close`

Only `readLoop` publishes a connection and only after it has seen none published,
so `conn` stays nil from the moment `readLoop` gives up on a connection until it
publishes the next. A closed client publishes nothing, which makes the state that
`Close` leaves behind final.
-/

namespace Gearman.Client
open Transition

/-- The connection `connect` has dialled and not yet published or closed. -/
def ReadPc.setup : ReadPc → Option ℕ
  | .optionReq c => some c
  | .storePending c => some c
  | .setConn c => some c
  | _ => none

def ReadPc.apart : ReadPc → Bool
  | .resetCreated => true
  | .resetEcho => true
  | .afterErr => true
  | .connect => true
  | .dial => true
  | .optionReq _ => true
  | .storePending _ => true
  | .setConn _ => true
  | _ => false

def ReadPc.leaving : ReadPc → Bool
  | .exit => true
  | .exited => true
  | _ => false

structure Wired (s : St) : Prop where
  rw_eq : s.rw = s.conn
  conn_open : ∀ c, s.conn = some c → c < s.nconn ∧ (s.conns c).closed = false
  setup_open : ∀ c, s.reader.setup = some c → c < s.nconn ∧ (s.conns c).closed = false
  known : ∀ c, c < s.nconn →
    s.conn = some c ∨ (s.conns c).closed = true ∨ s.reader.setup = some c
  apart : s.reader.apart = true → s.conn = none
  leaving : s.reader.leaving = true → s.closed = true ∨ s.conn = none

theorem wired_new (cfg : Cfg) : Wired (new cfg) where
  rw_eq := rfl
  conn_open := by
    intro c hc
    cases hc
    exact ⟨Nat.zero_lt_one, rfl⟩
  setup_open := by
    intro c hc
    cases hc
  known := by
    intro c hc
    exact Or.inl (congrArg some (Nat.lt_one_iff.mp hc).symm)
  apart := by
    intro h
    cases h
  leaving := by
    intro h
    cases h

variable {cfg : Cfg} {s t : St} {a : Act}

theorem Wired.frame (hi : Wired s) (hrw : t.rw = s.rw) (hconn : t.conn = s.conn)
    (hn : t.nconn = s.nconn) (hcl : s.closed = true → t.closed = true)
    (hcs : ∀ c, (t.conns c).closed = (s.conns c).closed)
    (hset : t.reader.setup = s.reader.setup)
    (hap : t.reader.apart = true → s.reader.apart = true ∨ s.conn = none)
    (hlv : t.reader.leaving = true → s.reader.leaving = true ∨ s.closed = true ∨ s.conn = none) :
    Wired t where
  rw_eq := by rw [hrw, hconn, hi.rw_eq]
  conn_open := by
    intro c hc
    rw [hn, hcs]
    exact hi.conn_open c (hconn ▸ hc)
  setup_open := by
    intro c hc
    rw [hn, hcs]
    exact hi.setup_open c (hset ▸ hc)
  known := by
    intro c hc
    rw [hconn, hcs, hset]
    exact hi.known c (hn ▸ hc)
  apart := by
    intro h
    rw [hconn]
    rcases hap h with h | h
    · exact hi.apart h
    · exact h
  leaving := by
    intro h
    rw [hconn]
    rcases hlv h with h | h | h
    · exact (hi.leaving h).imp_left hcl
    · exact Or.inl (hcl h)
    · exact Or.inr h

theorem Wired.keep (hi : Wired s) (hrw : t.rw = s.rw) (hconn : t.conn = s.conn)
    (hn : t.nconn = s.nconn) (hcl : s.closed = true → t.closed = true)
    (hcs : ∀ c, (t.conns c).closed = (s.conns c).closed) (hr : t.reader = s.reader) : Wired t :=
  hi.frame hrw hconn hn hcl hcs (by rw [hr]) (fun h => .inl (hr ▸ h)) (fun h => .inl (hr ▸ h))

theorem setConnAt_closed {c : ℕ} {conn : Conn} (h : conn.closed = (s.conns c).closed) (d : ℕ) :
    ((s.setConnAt c conn).conns d).closed = (s.conns d).closed := by
  by_cases hd : d = c
  · subst hd
    simp [St.setConnAt, h]
  · simp [St.setConnAt, hd]

theorem shut_closed (s : St) (c d : ℕ) :
    ((s.shut c).conns d).closed = (decide (d = c) || (s.conns d).closed) := by
  by_cases hd : d = c
  · subst hd
    simp [St.shut, St.setConnAt]
  · simp [St.shut, St.setConnAt, hd]

theorem Wired.drop (hi : Wired s) {c : ℕ} (hc : s.conn = some c)
    (hconn : t.conn = none) (hrw : t.rw = none) (hn : t.nconn = s.nconn)
    (hcs : t.conns = (s.shut c).conns) (hset : t.reader.setup = s.reader.setup)
    (hs : s.reader.setup = none) : Wired t where
  rw_eq := by rw [hrw, hconn]
  conn_open := by simp [hconn]
  setup_open := by simp [hset, hs]
  known := by
    intro d hd
    rw [hcs, shut_closed]
    refine Or.inr (Or.inl ?_)
    rcases hi.known d (hn ▸ hd) with h | h | h
    · simp [Option.some.inj (hc.symm.trans h)]
    · simp [h]
    · simp [hs] at h
  apart := fun _ => hconn
  leaving := fun _ => Or.inr hconn

theorem Wired.setup_none (hi : Wired s) {c : ℕ} (hc : s.conn = some c) :
    s.reader.setup = none := by
  cases hr : s.reader with
  | optionReq d => simpa [hc] using hi.apart (by simp [hr, ReadPc.apart])
  | storePending d => simpa [hc] using hi.apart (by simp [hr, ReadPc.apart])
  | setConn d => simpa [hc] using hi.apart (by simp [hr, ReadPc.apart])
  | _ => rfl

theorem Wired.giveUp (hi : Wired s) {c : ℕ} (hs : s.reader.setup = some c)
    (hap : s.reader.apart = true) (hconn : t.conn = s.conn) (hrw : t.rw = s.rw)
    (hn : t.nconn = s.nconn) (hcs : t.conns = (s.shut c).conns) (hr : t.reader = .exit) :
    Wired t where
  rw_eq := by rw [hrw, hconn, hi.rw_eq]
  conn_open := by simp [hconn, hi.apart hap]
  setup_open := by simp [hr, ReadPc.setup]
  known := by
    intro d hd
    rw [hcs, shut_closed]
    rcases hi.known d (hn ▸ hd) with h | h | h
    · exact Or.inl (hconn.trans h)
    · simp [h]
    · simp [Option.some.inj (hs.symm.trans h)]
  apart := by simp [hr, ReadPc.apart]
  leaving := fun _ => Or.inr (hconn.trans (hi.apart hap))

theorem Wired.publish (hi : Wired s) {c : ℕ} (hs : s.reader = .setConn c)
    (hconn : t.conn = some c) (hrw : t.rw = some c) (hn : t.nconn = s.nconn)
    (hcs : t.conns = s.conns) (hr : t.reader = .marker c ∨ t.reader = .loop) : Wired t where
  rw_eq := by rw [hrw, hconn]
  conn_open := by
    intro d hd
    rw [hn, hcs]
    have hset : s.reader.setup = some c := by simp [hs, ReadPc.setup]
    exact hi.setup_open d (hset.trans (hconn.symm.trans hd))
  setup_open := by
    intro d hd
    rcases hr with hr | hr <;> simp [hr, ReadPc.setup] at hd
  known := by
    intro d hd
    rw [hconn, hcs]
    rcases hi.known d (hn ▸ hd) with h | h | h
    · have hnone := hi.apart (by simp [hs, ReadPc.apart])
      simp [hnone] at h
    · exact Or.inr (Or.inl h)
    · exact Or.inl (by simpa [hs, ReadPc.setup] using h)
  apart := by
    intro h
    rcases hr with hr | hr <;> simp [hr, ReadPc.apart] at h
  leaving := by
    intro h
    rcases hr with hr | hr <;> simp [hr, ReadPc.leaving] at h

theorem Wired.dialled (hi : Wired s) (hs : s.reader = .dial) (hconn : t.conn = s.conn)
    (hrw : t.rw = s.rw) (hn : t.nconn = s.nconn + 1)
    (hcs : t.conns = (s.setConnAt s.nconn {}).conns)
    (hset : t.reader.setup = some s.nconn) (hlv : t.reader.leaving = false) : Wired t := by
  have hnone : t.conn = none := hconn.trans (hi.apart (by simp [hs, ReadPc.apart]))
  have hnew : (t.conns s.nconn).closed = false := by simp [hcs, St.setConnAt]
  have hold : ∀ d, d < s.nconn → (t.conns d).closed = (s.conns d).closed := by
    intro d hd
    simp [hcs, St.setConnAt, Nat.ne_of_lt hd]
  refine ⟨by rw [hrw, hconn, hi.rw_eq], by simp [hnone], ?_, ?_, fun _ => hnone, by simp [hlv]⟩
  · intro d hd
    cases Option.some.inj (hset.symm.trans hd)
    exact ⟨by omega, hnew⟩
  · intro d hd
    rcases Nat.lt_succ_iff_lt_or_eq.mp (hn ▸ hd) with h | rfl
    · rw [hold d h, hconn]
      rcases hi.known d h with hk | hk | hk
      · exact Or.inl hk
      · exact Or.inr (Or.inl hk)
      · simp [hs, ReadPc.setup] at hk
    · exact Or.inr (Or.inr hset)

theorem Wired.readerLocal (hi : Wired s) {pc : ReadPc} (hl : ReaderLocal s pc) :
    Wired { s with reader := pc } := by
  cases hl with
  | closed hpc hmu hc =>
    refine hi.frame rfl rfl rfl id (fun _ => rfl) ?_ (by simp [ReadPc.apart])
      (fun _ => .inr (.inl hc))
    rcases hpc with hpc | hpc | hpc <;> simp [hpc, ReadPc.setup]
  | loop hpc hmu hc =>
    exact hi.frame rfl rfl rfl id (fun _ => rfl) (by simp [hpc, ReadPc.setup])
      (by simp [ReadPc.apart]) (by simp [ReadPc.leaving])
  | noRW hpc hmu hrw =>
    exact hi.frame rfl rfl rfl id (fun _ => rfl) (by simp [hpc, ReadPc.setup])
      (fun _ => .inr (hi.rw_eq ▸ hrw)) (by simp [ReadPc.leaving])
  | someRW hpc hmu hrw =>
    exact hi.frame rfl rfl rfl id (fun _ => rfl) (by simp [hpc, ReadPc.setup])
      (by simp [ReadPc.apart]) (by simp [ReadPc.leaving])
  | noConn hpc hmu hc =>
    exact hi.frame rfl rfl rfl id (fun _ => rfl) (by simp [hpc, ReadPc.setup])
      (fun _ => .inr hc) (by simp [ReadPc.leaving])
  | afterErr hpc hmu hc =>
    exact hi.frame rfl rfl rfl id (fun _ => rfl) (by simp [hpc, ReadPc.setup])
      (fun _ => .inl (by simp [hpc, ReadPc.apart])) (by simp [ReadPc.leaving])
  | connect hpc hmu hc =>
    exact hi.frame rfl rfl rfl id (fun _ => rfl) (by simp [hpc, ReadPc.setup])
      (fun _ => .inl (by simp [hpc, ReadPc.apart])) (by simp [ReadPc.leaving])

theorem sending_setup {pc : ReadPc} {p : Packet} (h : pc.sending = some p) : pc.setup = none := by
  cases pc <;> simp [ReadPc.sending, ReadPc.setup] at h ⊢

theorem Wired.move (hi : Wired s) (hm : Move cfg s a t) : Wired t := by
  cases hm with
  | drop h hpc hmu hc =>
    exact hi.drop hc rfl rfl rfl rfl rfl (hi.setup_none hc)
  | reader hl => exact hi.readerLocal hl
  | send hpc hin hfull =>
    exact hi.frame rfl rfl rfl id (fun _ => rfl) (sending_setup hpc).symm
      (by simp [ReadPc.apart]) (by simp [ReadPc.leaving])
  | readerDrop hpc hmu hc =>
    exact hi.drop hc rfl rfl rfl rfl (by simp [hpc, ReadPc.setup]) (by simp [hpc, ReadPc.setup])
  | readerResetCreated hpc =>
    exact hi.frame rfl rfl rfl id (fun _ => rfl) (by simp [hpc, ReadPc.setup])
      (fun _ => .inl (by simp [hpc, ReadPc.apart])) (by simp [ReadPc.leaving])
  | readerResetEcho hpc =>
    exact hi.frame rfl rfl rfl id (fun _ => rfl) (by simp [hpc, ReadPc.setup])
      (fun _ => .inl (by simp [hpc, ReadPc.apart])) (by simp [ReadPc.leaving])
  | storePending hpc =>
    exact hi.frame rfl rfl rfl id (fun _ => rfl) (by simp [hpc, ReadPc.setup])
      (fun _ => .inl (by simp [hpc, ReadPc.apart])) (by simp [ReadPc.leaving])
  | refuse hpc hmu hc =>
    exact hi.giveUp (by simp [hpc, ReadPc.setup]) (by simp [hpc, ReadPc.apart]) rfl rfl rfl rfl rfl
  | publish hpc hmu hc =>
    refine hi.publish hpc rfl rfl rfl rfl ?_
    cases cfg.wantExceptions with
    | true => exact Or.inl rfl
    | false => exact Or.inr rfl
  | exit hpc =>
    exact hi.frame rfl rfl rfl id (fun _ => rfl) (by simp [hpc, ReadPc.setup])
      (by simp [ReadPc.apart]) (fun _ => .inl (by simp [hpc, ReadPc.leaving]))
  | packet hpc hw hd =>
    exact hi.frame rfl rfl rfl id (setConnAt_closed rfl) (by simp [hpc, ReadPc.setup])
      (by simp [ReadPc.apart]) (by simp [ReadPc.leaving])
  | badPacket hpc hw hd =>
    exact hi.frame rfl rfl rfl id (setConnAt_closed rfl) (by simp [hpc, ReadPc.setup])
      (by simp [ReadPc.apart]) (by simp [ReadPc.leaving])
  | readErr hpc he =>
    exact hi.frame rfl rfl rfl id (fun _ => rfl) (by simp [hpc, ReadPc.setup])
      (by simp [ReadPc.apart]) (by simp [ReadPc.leaving])
  | dialled hpc =>
    refine hi.dialled hpc rfl rfl rfl rfl ?_ ?_
    · cases cfg.wantExceptions <;> rfl
    · cases cfg.wantExceptions <;> rfl
  | dialFailed hpc =>
    exact hi.frame rfl rfl rfl id (fun _ => rfl) (by simp [hpc, ReadPc.setup])
      (by simp [ReadPc.apart]) (fun _ => .inr (.inr (hi.apart (by simp [hpc, ReadPc.apart]))))
  | optionSent hpc =>
    exact hi.frame rfl rfl rfl id (setConnAt_closed rfl) (by simp [hpc, ReadPc.setup])
      (fun _ => .inl (by simp [hpc, ReadPc.apart])) (by simp [ReadPc.leaving])
  | optionFailed hpc =>
    exact hi.giveUp (by simp [hpc, ReadPc.setup]) (by simp [hpc, ReadPc.apart]) rfl rfl rfl rfl rfl
  | setClosed h hpc hmu => exact hi.keep rfl rfl rfl (fun _ => rfl) (fun _ => rfl) rfl
  | written h hpc hopen => exact hi.keep rfl rfl rfl id (setConnAt_closed rfl) rfl
  | answer hr hc hlen => exact hi.keep rfl rfl rfl id (setConnAt_closed rfl) rfl
  | push hc hlen => exact hi.keep rfl rfl rfl id (setConnAt_closed rfl) rfl
  | _ => exact hi.keep rfl rfl rfl id (fun _ => rfl) rfl

theorem wired_run (h : Reachable (step cfg) always (new cfg) t) : Wired t :=
  h.invariant (wired_new cfg) (fun _ _ _ hi _ hs => hi.move (step_move hs))

/-- `conn` and `rw` are of one dial; a dialled connection is being set up, published or
closed; a published one has a reader until the client is closed. -/
theorem connection_lifecycle (cfg : Cfg) (t : St)
    (h : Reachable (step cfg) always (new cfg) t) :
    t.rw = t.conn ∧
    (∀ c, c < t.nconn → t.reader.setup ≠ some c →
      t.conn = some c ∨ (t.conns c).closed = true) ∧
    (t.conn ≠ none → t.closed = false → t.reader ≠ .exit ∧ t.reader ≠ .exited) := by
  have hi := wired_run h
  refine ⟨hi.rw_eq, ?_, ?_⟩
  · intro c hc hset
    rcases hi.known c hc with hk | hk | hk
    · exact Or.inl hk
    · exact Or.inr hk
    · exact absurd hk hset
  · intro hconn hcl
    have hlv : t.reader.leaving ≠ true := by
      intro hlv
      rcases hi.leaving hlv with hc | hc
      · simp [hcl] at hc
      · exact hconn hc
    constructor
    · intro hr
      exact hlv (by simp [hr, ReadPc.leaving])
    · intro hr
      exact hlv (by simp [hr, ReadPc.leaving])

def demoCfg : Cfg := { wantExceptions := false, responseTimeout := 5 }

/-- A read error, `closeConn`, and a dial that is about to be published. -/
def redialActs : List Act :=
  [.reader, .reader, .readErr (.read .eof), .reader, .reader, .reader, .reader, .reader, .dial none]

theorem lifecycle_in_redial :
    ∃ t, Reachable (step demoCfg) always (new demoCfg) t ∧ t.reader = .setConn 1 ∧
      (t.conn = some 0 ∨ (t.conns 0).closed = true) := by
  refine ⟨_, ⟨redialActs, rfl⟩, rfl, ?_⟩
  exact (connection_lifecycle demoCfg _ ⟨redialActs, rfl⟩).2.1 0 (by decide) (by decide)

structure Shut (s : St) : Prop where
  closed : s.closed = true
  conn : s.conn = none
  connMu : s.connMu = none

theorem Move.closed_stays (hm : Move cfg s a t) (hc : s.closed = true) : t.closed = true := by
  cases hm with
  | setClosed h hpc hmu => rfl
  | _ => exact hc

theorem Move.conn_stays (hm : Move cfg s a t) (hc : s.closed = true) (hn : s.conn = none) :
    t.conn = none := by
  cases hm with
  | drop h hpc hmu hc => rfl
  | readerDrop hpc hmu hc => rfl
  | publish hpc hmu hopen => simp [hc] at hopen
  | _ => exact hn

theorem Shut.move (hi : Shut s) (hm : Move cfg s a t) : Shut t := by
  refine ⟨hm.closed_stays hi.closed, hm.conn_stays hi.closed hi.conn, ?_⟩
  cases hm with
  | drop h hpc hmu hc => simp [hi.conn] at hc
  | readerDrop hpc hmu hc => simp [hi.conn] at hc
  | resetEcho h hpc => rfl
  | readerResetEcho hpc => rfl
  | _ => exact hi.connMu

def CloseAt (s : St) : Pc → Prop
  | .setClosed => True
  | .closeConn => s.closed = true
  | .resetCreated => s.closed = true ∧ s.conn = none
  | .resetEcho => s.closed = true ∧ s.conn = none
  | .returned _ => Shut s
  | _ => False

theorem CloseAt.move {pc : Pc} (hi : CloseAt s pc) (hm : Move cfg s a t) : CloseAt t pc := by
  cases pc with
  | setClosed => trivial
  | closeConn => exact hm.closed_stays hi
  | resetCreated => exact ⟨hm.closed_stays hi.1, hm.conn_stays hi.1 hi.2⟩
  | resetEcho => exact ⟨hm.closed_stays hi.1, hm.conn_stays hi.1 hi.2⟩
  | returned ret => exact Shut.move hi hm
  | _ => exact hi

theorem CloseAt.local {call : Call} {pc : Pc} (hop : call.op = .close)
    (hi : CloseAt s call.pc) (hl : Local s call pc) : CloseAt s pc := by
  cases hl with
  | noConn hpc hmu hc =>
    rw [hop]
    rw [hpc] at hi
    exact ⟨hi, hc, hmu⟩
  | _ =>
    simp_all [CloseAt]

def ClosesAt (s : St) : Prop :=
  ∀ i call, s.calls i = some call → call.op = .close → CloseAt s call.pc

theorem ClosesAt.update (hi : ClosesAt s) (hm : Move cfg s a t) {i : ℕ} {call : Call}
    (hcalls : t.calls = Function.update s.calls i (some call))
    (hnew : call.op = .close → CloseAt t call.pc) : ClosesAt t := by
  rw [ClosesAt, hcalls]
  exact forall_update hnew (fun j call' hj hop => (hi j call' hj hop).move hm)

theorem ClosesAt.move (hi : ClosesAt s) (hm : Move cfg s a t) : ClosesAt t := by
  have hm' := hm
  cases hm with
  | begin i op h =>
    refine hi.update hm' rfl ?_
    rintro rfl
    trivial
  | pc h hl =>
    exact hi.update hm' rfl
      (fun hop => (CloseAt.local (by exact hop) (hi _ _ h hop) hl).move hm')
  | setClosed h hpc hmu => exact hi.update hm' rfl (fun _ => rfl)
  | drop h hpc hmu hc =>
    refine hi.update hm' rfl (fun hop => ?_)
    have hat := hi _ _ h hop
    rw [hpc] at hat
    exact ⟨hat, rfl⟩
  | resetCreated h hpc =>
    refine hi.update hm' rfl (fun hop => ?_)
    have hat := hi _ _ h hop
    rw [hpc] at hat
    exact hat
  | resetEcho h hpc =>
    refine hi.update hm' rfl (fun hop => ?_)
    have hat := hi _ _ h hop
    rw [hpc] at hat
    rw [show _ = Op.close from hop]
    exact ⟨hat.1, hat.2, rfl⟩
  | deliver hpc hint hcall hr =>
    exact hi.update hm' rfl (fun hop => (hi _ _ hcall hop).move hm')
  | lock h hpc hmx =>
    exact hi.update hm' rfl (fun hop => by simpa [hpc, CloseAt] using hi _ _ h hop)
  | register h hpc =>
    exact hi.update hm' rfl (fun hop => by simpa [hpc, CloseAt] using hi _ _ h hop)
  | written h hpc hopen =>
    exact hi.update hm' rfl (fun hop => by simpa [hpc, CloseAt] using hi _ _ h hop)
  | cancel h hpc =>
    exact hi.update hm' rfl (fun hop => by simpa [hpc, CloseAt] using hi _ _ h hop)
  | abandon h hpc =>
    refine hi.update hm' rfl (fun hop => ?_)
    have hat := hi _ _ h hop
    simp [hpc, CloseAt] at hat
  | unlock h hpc =>
    refine hi.update hm' rfl (fun hop => ?_)
    have hat := hi _ _ h hop
    simp [hpc, CloseAt] at hat
  | _ => exact fun j call hj hop => (hi j call hj hop).move hm'

/-- `readLoop` closes `in` as its last act, and is the only sender on it. -/
structure Sealed (s : St) : Prop where
  exited : s.inClosed = true → s.reader = .exited
  quiet : s.panicked = false

theorem Move.exited_stays (hm : Move cfg s a t) (hr : s.reader = .exited) :
    t.reader = .exited := by
  cases hm with
  | reader hl => cases hl <;> simp_all
  | send hpc hin hfull => simp [hr, ReadPc.sending] at hpc
  | _ => first | exact hr | simp_all

theorem Sealed.move (hi : Sealed s) (hm : Move cfg s a t) : Sealed t := by
  constructor
  · intro hin
    cases hs : s.inClosed with
    | true => exact hm.exited_stays (hi.exited hs)
    | false =>
      cases hm with
      | exit hpc => rfl
      | _ => exact absurd (hs.symm.trans hin) Bool.false_ne_true
  · cases hm with
    | sendClosed hpc hin =>
      rw [hi.exited hin] at hpc
      cases hpc
    | _ => exact hi.quiet

theorem Move.inClosed_stays (hm : Move cfg s a t) (hin : s.inClosed = true) :
    t.inClosed = true ∧ t.inChan <:+ s.inChan := by
  cases hm with
  | send hpc hopen hfull => simp [hin] at hopen
  | exit hpc => exact ⟨rfl, List.suffix_rfl⟩
  | recv hpc hcons => exact ⟨hin, hcons ▸ List.suffix_cons _ _⟩
  | _ => exact ⟨hin, List.suffix_rfl⟩

theorem inChan_shrinks (h : Reachable (step cfg) always s t) (hin : s.inClosed = true) :
    t.inChan <:+ s.inChan := by
  have key : t.inClosed = true ∧ t.inChan <:+ s.inChan := by
    apply h.invariant (I := fun u => u.inClosed = true ∧ u.inChan <:+ s.inChan)
      ⟨hin, List.suffix_rfl⟩
    intro u a v hu _ hs
    have hv := (step_move hs).inClosed_stays hu.1
    exact ⟨hv.1, hv.2.trans hu.2⟩
  exact key.2

def Handlers.Names (hs : Handlers) (j : ℕ) : Prop :=
  (∃ k, j ∈ (hs.slot k).live) ∨ ∃ handle, hs.status.lookup handle = some j

namespace Handlers
variable {hs : Handlers} {op : Op} {i j : ℕ}

theorem lookup_erase_some {m : StatusHandlers ℕ} {handle name : Bytes}
    (h : (m.erase handle).lookup name = some j) : m.lookup name = some j := by
  by_cases hne : name = handle
  · subst hne
    simp at h
  · rwa [AList.lookup_erase_ne hne] at h

theorem Names.of_sub {Q : Prop} {hs' : Handlers} (h : hs'.Names j)
    (hc : j ∈ hs'.created.live → Q ∨ j ∈ hs.created.live)
    (he : j ∈ hs'.echo.live → Q ∨ j ∈ hs.echo.live)
    (hst : ∀ handle, hs'.status.lookup handle = some j →
      Q ∨ hs.status.lookup handle = some j) : Q ∨ hs.Names j := by
  rcases h with ⟨k, hk⟩ | ⟨handle, hh⟩
  · cases k with
    | created => exact (hc hk).imp_right (fun h => .inl ⟨.created, h⟩)
    | echo => exact (he hk).imp_right (fun h => .inl ⟨.echo, h⟩)
  · exact (hst handle hh).imp_right (fun h => .inr ⟨handle, h⟩)

theorem Names.mono {hs' : Handlers} (h : hs'.Names j)
    (hc : j ∈ hs'.created.live → j ∈ hs.created.live)
    (he : j ∈ hs'.echo.live → j ∈ hs.echo.live)
    (hst : ∀ handle, hs'.status.lookup handle = some j → hs.status.lookup handle = some j) :
    hs.Names j := by
  have hor := h.of_sub (Q := False) (fun h => .inr (hc h)) (fun h => .inr (he h))
    (fun handle h => .inr (hst handle h))
  exact hor.resolve_left id

theorem Names.of_register (h : (hs.register op i).1.Names j) : j = i ∨ hs.Names j := by
  cases op with
  | submit bg funcname data flag cb id =>
    exact h.of_sub HandlerSlot.mem_live_set .inr (fun _ => .inr)
  | echo data => exact h.of_sub .inr HandlerSlot.mem_live_set (fun _ => .inr)
  | status handle =>
    refine h.of_sub .inr .inr ?_
    intro name hname
    by_cases hne : name = handle
    · subst hne
      rw [register, StatusHandlers.set, AList.lookup_insert] at hname
      exact .inl (Option.some.inj hname).symm
    · rw [register, StatusHandlers.set, AList.lookup_insert_ne hne] at hname
      exact .inr hname
  | close => exact .inr h

theorem Names.of_cancel {token : UInt64} (h : (hs.cancel op token).Names j) : hs.Names j := by
  cases op with
  | submit bg funcname data flag cb uid => exact h.mono HandlerSlot.mem_live_cancel id (fun _ => id)
  | echo data => exact h.mono id HandlerSlot.mem_live_cancel (fun _ => id)
  | status handle => exact h.mono id id (fun _ => lookup_erase_some)
  | close => exact h

theorem Names.of_giveUp {token : UInt64} {expires : ℕ}
    (h : (hs.giveUp op token expires).Names j) : hs.Names j := by
  cases op with
  | submit bg funcname data flag cb uid =>
    exact h.mono HandlerSlot.mem_live_abandon id (fun _ => id)
  | echo data => exact h.mono id HandlerSlot.mem_live_abandon (fun _ => id)
  | status handle => exact h.mono id id (fun _ => lookup_erase_some)
  | close => exact h

theorem Names.of_take {k : Which} {now : ℕ}
    (h : (hs.setSlot ((hs.slot k).take now).1 k).Names j) : hs.Names j := by
  cases k with
  | created => exact h.mono HandlerSlot.mem_live_take id (fun _ => id)
  | echo => exact h.mono id HandlerSlot.mem_live_take (fun _ => id)

end Handlers

theorem Move.names (hm : Move cfg s a t) {j : ℕ} (hj : t.handlers.Names j) :
    s.handlers.Names j ∨ ∃ call, s.calls j = some call ∧ call.pc = .register := by
  cases hm with
  | register h hpc =>
    rcases hj.of_register with rfl | hj
    · exact .inr ⟨_, h, hpc⟩
    · exact .inl hj
  | cancel h hpc => exact .inl hj.of_cancel
  | abandon h hpc => exact .inl hj.of_giveUp
  | resetCreated h hpc =>
    exact .inl (hj.mono (fun h => absurd h List.not_mem_nil) id (fun _ => id))
  | resetEcho h hpc =>
    exact .inl (hj.mono id (fun h => absurd h List.not_mem_nil) (fun _ => id))
  | readerResetCreated hpc =>
    exact .inl (hj.mono (fun h => absurd h List.not_mem_nil) id (fun _ => id))
  | readerResetEcho hpc =>
    exact .inl (hj.mono id (fun h => absurd h List.not_mem_nil) (fun _ => id))
  | takeStatus hpc htype =>
    exact .inl (hj.mono id id (fun _ => Handlers.lookup_erase_some))
  | take k hpc htype => exact .inl hj.of_take
  | _ => exact .inl hj

theorem Move.calls_stay (hm : Move cfg s a t) {j : ℕ} (hj : t.calls j = none) :
    s.calls j = none := by
  have key : ∀ {i : ℕ} {call : Call}, Function.update s.calls i (some call) j = none →
      s.calls j = none := by
    intro i call h
    by_cases hne : j = i
    · subst hne
      simp at h
    · rwa [Function.update_of_ne hne] at h
  cases hm <;> first | exact hj | exact key hj

def Begun (s : St) : Prop := ∀ j, s.calls j = none → ¬ s.handlers.Names j

theorem Begun.move (hi : Begun s) (hm : Move cfg s a t) : Begun t := by
  intro j hj hn
  have hs := hm.calls_stay hj
  rcases hm.names hn with hn | ⟨call, hc, _⟩
  · exact hi j hs hn
  · simp [hs] at hc

/-- A call that began on a shut client and has not got past its first checks. -/
structure Late (s : St) (i : ℕ) : Prop where
  shut : Shut s
  unnamed : ¬ s.handlers.Names i
  call : ∃ call, s.calls i = some call ∧ call.op.emptyId = false ∧
    (call.pc = .start ∨ call.pc = .enter ∨ call.pc = .returned (.err .lostConn))

inductive Shared (t : St) (call : Call) : Pc → Prop
  | lock (hpc : call.pc = .lock) : Shared t call .register
  | register {token : UInt64} (hpc : call.pc = .register) : Shared t call (.getRW token)
  | written {token : UInt64} {c deadline : ℕ} (hpc : call.pc = .write token c) :
      Shared t call (.wait token deadline)
  | cancel {token : UInt64} {err : Err} (hpc : call.pc = .cancel token err) :
      Shared t call (.unlock (.err err))
  | abandon {token : UInt64} (hpc : call.pc = .abandon token) : Shared t call call.op.afterAbandon
  | setClosed (hpc : call.pc = .setClosed) : Shared t call .closeConn
  | drop (hpc : call.pc = .closeConn) (hc : t.conn = none) : Shared t call .resetCreated
  | resetCreated (hpc : call.pc = .resetCreated) : Shared t call .resetEcho
  | resetEcho (hpc : call.pc = .resetEcho) : Shared t call call.op.afterClose
  | unlock {ret : Ret} (hpc : call.pc = .unlock ret) : Shared t call (.returned ret)

def Pc.early : Pc → Bool
  | .start => true
  | .enter => true
  | .lock => true
  | .register => true
  | _ => false

def Pc.unsent : Pc → Bool
  | .getRW _ => true
  | .write _ _ => true
  | pc => pc.early

structure Forward (pc pc' : Pc) : Prop where
  early : pc'.early = true → pc.early = true
  unsent : pc'.unsent = true → pc.unsent = true
  setClosed : pc' = .setClosed → pc = .setClosed

theorem Forward.to {pc pc' : Pc} (hu : pc'.unsent = false) (hc : pc' ≠ .setClosed) :
    Forward pc pc' := by
  refine ⟨?_, by simp [hu], fun h => absurd h hc⟩
  cases pc' <;> simp_all [Pc.early, Pc.unsent]

theorem Forward.afterClose {pc : Pc} (op : Op) : Forward pc op.afterClose := by
  cases op <;> exact .to rfl (by simp [Op.afterClose])

theorem Forward.afterAbandon {pc : Pc} (op : Op) : Forward pc op.afterAbandon := by
  cases op <;> exact .to rfl (by simp [Op.afterAbandon])

theorem Local.forward {call : Call} {pc : Pc} (hl : Local s call pc) : Forward call.pc pc := by
  cases hl with
  | startOk hpc hmu hc => exact hpc ▸ ⟨fun _ => rfl, fun _ => rfl, by simp⟩
  | enterOk hpc hid hmu hc => exact hpc ▸ ⟨fun _ => rfl, fun _ => rfl, by simp⟩
  | someRW hpc hmu hrw => exact hpc ▸ ⟨by simp [Pc.early], fun _ => rfl, by simp⟩
  | noConn hpc hmu hc => exact .afterClose call.op
  | _ => exact .to rfl (by simp)

theorem Shared.forward {call : Call} {pc : Pc} (hs : Shared t call pc) : Forward call.pc pc := by
  cases hs with
  | lock hpc => exact hpc ▸ ⟨fun _ => rfl, fun _ => rfl, by simp⟩
  | register hpc => exact hpc ▸ ⟨by simp [Pc.early], fun _ => rfl, by simp⟩
  | abandon hpc => exact .afterAbandon call.op
  | resetEcho hpc => exact .afterClose call.op
  | _ => exact .to rfl (by simp)

structure Advance (s t : St) (i : ℕ) (call call' : Call) : Prop where
  op : call'.op = call.op
  result : call'.result = call.result ∨
    ∃ h p, s.proc = .deliver h p ∧ h.internal = some i ∧ call'.result = some p
  pc : call'.pc = call.pc ∨ Local s call call'.pc ∨ Shared t call call'.pc

theorem Advance.refl (s t : St) (i : ℕ) (call : Call) : Advance s t i call call :=
  ⟨rfl, Or.inl rfl, Or.inl rfl⟩

theorem Advance.forward {i : ℕ} {call call' : Call} (h : Advance s t i call call') :
    Forward call.pc call'.pc := by
  rcases h.pc with hpc | hl | hs
  · exact hpc ▸ ⟨id, id, id⟩
  · exact hl.forward
  · exact hs.forward

theorem Advance.unserved {i : ℕ} {call call' : Call} (h : Advance s t i call call')
    (hd : s.proc.delivers i = false) : call'.result = call.result := by
  rcases h.result with hr | ⟨hnd, p, hpc, hint, _⟩
  · exact hr
  · simp [hpc, ProcPc.delivers, hint] at hd

/-- Whose step it was that a call has seen: another party's, that of `processLoop` for it,
or its own. -/
inductive Turn (s : St) (a : Act) (t : St) (i : ℕ) (call : Call) : Call → Prop
  | other : Turn s a t i call call
  | served {h : HandledResponse ℕ ℕ} {p : Packet} (hpc : s.proc = .deliver h p)
      (hint : h.internal = some i) : Turn s a t i call { call with result := some p }
  | pc {pc : Pc} (hl : Local s call pc) : Turn s a t i call { call with pc }
  | written {token : UInt64} {c deadline : ℕ} (hpc : call.pc = .write token c)
      (hconn : t.conns c = { s.conns c with reqs := (s.conns c).reqs ++ [call.op.request i] }) :
      Turn s a t i call { call with pc := .wait token deadline }
  | own {pc : Pc} (hs : Shared t call pc) (hw : ∀ token c, call.pc ≠ .write token c)
      (ha : a = .caller i) : Turn s a t i call { call with pc }

theorem Move.turn (hm : Move cfg s a t) {i : ℕ} {call : Call} (hcall : s.calls i = some call) :
    ∃ call', t.calls i = some call' ∧ Turn s a t i call call' := by
  have key : ∀ {j : ℕ} {old new : Call}, s.calls j = some old → Turn s a t j old new →
      ∃ call', Function.update s.calls j (some new) i = some call' ∧ Turn s a t i call call' := by
    intro j old new hold hturn
    by_cases hij : i = j
    · subst hij
      cases Option.some.inj (hold.symm.trans hcall)
      exact ⟨new, by simp, hturn⟩
    · exact ⟨call, by simp [hij, hcall], .other⟩
  cases hm with
  | begin j op h =>
    have hij : i ≠ j := by
      rintro rfl
      simp [h] at hcall
    exact ⟨call, by simp [hij, hcall], .other⟩
  | pc h hl => exact key h (.pc hl)
  | deliver hpc hint h hr => exact key h (.served hpc hint)
  | written h hpc hopen => exact key h (.written hpc (Function.update_self ..))
  | lock h hpc hmx => exact key h (.own (.lock hpc) (by simp [hpc]) rfl)
  | register h hpc => exact key h (.own (.register hpc) (by simp [hpc]) rfl)
  | cancel h hpc => exact key h (.own (.cancel hpc) (by simp [hpc]) rfl)
  | abandon h hpc => exact key h (.own (.abandon hpc) (by simp [hpc]) rfl)
  | setClosed h hpc hmu => exact key h (.own (.setClosed hpc) (by simp [hpc]) rfl)
  | drop h hpc hmu hc => exact key h (.own (.drop hpc rfl) (by simp [hpc]) rfl)
  | resetCreated h hpc => exact key h (.own (.resetCreated hpc) (by simp [hpc]) rfl)
  | resetEcho h hpc => exact key h (.own (.resetEcho hpc) (by simp [hpc]) rfl)
  | unlock h hpc => exact key h (.own (.unlock hpc) (by simp [hpc]) rfl)
  | _ => exact ⟨call, hcall, .other⟩

theorem Turn.advance {i : ℕ} {call call' : Call} (h : Turn s a t i call call') :
    Advance s t i call call' := by
  cases h with
  | other => exact .refl ..
  | served hpc hint => exact ⟨rfl, Or.inr ⟨_, _, hpc, hint, rfl⟩, Or.inl rfl⟩
  | pc hl => exact ⟨rfl, Or.inl rfl, Or.inr (Or.inl hl)⟩
  | written hpc hconn => exact ⟨rfl, Or.inl rfl, Or.inr (Or.inr (.written hpc))⟩
  | own hs hw ha => exact ⟨rfl, Or.inl rfl, Or.inr (Or.inr hs)⟩

theorem Move.call (hm : Move cfg s a t) {i : ℕ} {call : Call} (hcall : s.calls i = some call) :
    ∃ call', t.calls i = some call' ∧ Advance s t i call call' := by
  obtain ⟨call', hcall', hturn⟩ := hm.turn hcall
  exact ⟨call', hcall', hturn.advance⟩

theorem Move.call_origin (hm : Move cfg s a t) {i : ℕ} {call' : Call}
    (hcall' : t.calls i = some call') :
    (∃ call, s.calls i = some call ∧ Advance s t i call call') ∨
      (s.calls i = none ∧ call'.result = none ∧ call'.pc = call'.op.entry ∧
        t.handlers = s.handlers ∧ t.proc = s.proc ∧ a = .call i call'.op) := by
  cases hs : s.calls i with
  | some call =>
    obtain ⟨new, hnew, hadv⟩ := hm.call hs
    cases Option.some.inj (hnew.symm.trans hcall')
    exact Or.inl ⟨call, rfl, hadv⟩
  | none =>
    refine Or.inr ⟨rfl, ?_⟩
    have key : ∀ {j : ℕ} {old new : Call}, s.calls j = some old →
        Function.update s.calls j (some new) i ≠ some call' := by
      intro j old new hold hnew
      rcases update_eq_some hnew with ⟨rfl, _⟩ | ⟨_, hi⟩
      · simp [hs] at hold
      · simp [hs] at hi
    cases hm with
    | begin j op h =>
      rcases update_eq_some hcall' with ⟨rfl, rfl⟩ | ⟨_, hj⟩
      · exact ⟨rfl, rfl, rfl, rfl, rfl⟩
      · simp [hs] at hj
    | _ => first
      | exact absurd (hs.symm.trans hcall') (by simp)
      | exact absurd hcall' (key (by assumption))

theorem Late.local {i : ℕ} (hi : Late s i) {call : Call} {pc : Pc}
    (hid : call.op.emptyId = false)
    (hat : call.pc = .start ∨ call.pc = .enter ∨ call.pc = .returned (.err .lostConn))
    (hl : Local s call pc) : pc = .returned (.err .lostConn) := by
  cases hl with
  | startLost hpc hmu hc => rfl
  | enterLost hpc hid hmu hc => rfl
  | startOk hpc hmu hc => simp [hi.shut.conn] at hc
  | enterOk hpc hid hmu hc => simp [hi.shut.conn] at hc
  | invalidId hpc hid' => simp [hid] at hid'
  | _ => simp_all

theorem not_shared {call : Call} {pc : Pc}
    (hat : call.pc = .start ∨ call.pc = .enter ∨ call.pc = .returned (.err .lostConn)) :
    ¬ Shared t call pc := by
  intro h
  cases h <;> simp_all

theorem Late.move {i : ℕ} (hi : Late s i) (hm : Move cfg s a t) : Late t i := by
  obtain ⟨call, hcall, hid, hat⟩ := hi.call
  refine ⟨hi.shut.move hm, ?_, ?_⟩
  · intro hn
    rcases hm.names hn with hn | ⟨call', hc, hpc⟩
    · exact hi.unnamed hn
    · cases Option.some.inj (hcall.symm.trans hc)
      simp [hpc] at hat
  · obtain ⟨call', hcall', hadv⟩ := hm.call hcall
    refine ⟨call', hcall', by rw [hadv.op]; exact hid, ?_⟩
    rcases hadv.pc with hpc | hl | hsh
    · rwa [hpc]
    · exact Or.inr (Or.inr (hi.local hid hat hl))
    · exact absurd hsh (not_shared hat)

theorem Late.returns {i : ℕ} (hi : Late s i) :
    ∃ t, Reachable (step cfg) always s t ∧
      ∃ call, t.calls i = some call ∧ call.pc = .returned (.err .lostConn) := by
  obtain ⟨call, hcall, hid, hat⟩ := hi.call
  rcases hat with h | h | h
  · refine ⟨s.setPc i call (.returned (.err .lostConn)), .single rfl (a := .caller i) ?_, ?_⟩
    · simp [step, hcall, callerStep, h, hi.shut.connMu, hi.shut.conn, lostOr]
    · exact ⟨_, Function.update_self .., rfl⟩
  · refine ⟨s.setPc i call (.returned (.err .lostConn)), .single rfl (a := .caller i) ?_, ?_⟩
    · simp [step, hcall, callerStep, h, hid, hi.shut.connMu, hi.shut.conn, lostOr]
    · exact ⟨_, Function.update_self .., rfl⟩
  · exact ⟨s, .refl s, call, hcall, h⟩

def CloseReturned (s : St) : Prop :=
  ∃ i call ret, s.calls i = some call ∧ call.op = .close ∧ call.pc = .returned ret

structure Orderly (s : St) : Prop where
  closes : ClosesAt s
  sealed : Sealed s
  begun : Begun s

theorem orderly_new (cfg : Cfg) : Orderly (new cfg) where
  closes := by
    intro i call h
    cases h
  sealed := ⟨(by intro h; cases h), rfl⟩
  begun := by
    rintro j - (⟨k, hk⟩ | ⟨handle, hh⟩)
    · cases k <;> cases hk
    · cases hh

theorem Orderly.move (hi : Orderly s) (hm : Move cfg s a t) : Orderly t :=
  ⟨hi.closes.move hm, hi.sealed.move hm, hi.begun.move hm⟩

theorem Orderly.run (hi : Orderly s) (h : Reachable (step cfg) always s t) : Orderly t :=
  h.invariant hi (fun _ _ _ hi _ hs => hi.move (step_move hs))

theorem Orderly.shut (hi : Orderly s) (hret : CloseReturned s) : Shut s := by
  obtain ⟨i, call, ret, hcall, hop, hpc⟩ := hret
  have hat := hi.closes i call hcall hop
  rwa [hpc] at hat

theorem Orderly.late (hi : Orderly s) (hs : Shut s) {i : ℕ} {op : Op} (hnew : s.calls i = none)
    (hop : op ≠ .close) (hid : op.emptyId = false)
    (h : step cfg s (.call i op) = some t) : Late t i := by
  simp only [step, hnew, Option.isSome_none, Bool.false_eq_true, if_false, Option.some.injEq] at h
  subst h
  refine ⟨⟨hs.closed, hs.conn, hs.connMu⟩, hi.begun i hnew, ⟨op, op.entry, none⟩, by simp, hid, ?_⟩
  cases op with
  | submit bg funcname data flag cb uid =>
    cases bg with
    | true => exact Or.inl rfl
    | false => exact Or.inr (Or.inl rfl)
  | echo data => exact Or.inr (Or.inl rfl)
  | status handle => exact Or.inr (Or.inl rfl)
  | close => exact absurd rfl hop

/-- Once a call to `Close` has returned, no later state has a connection, nothing is sent
on the closed channel, and a call that begins returns `ErrLostConn` and never registers. -/
theorem close_final (cfg : Cfg) (s t : St) (hs : Reachable (step cfg) always (new cfg) s)
    (hret : CloseReturned s) (ht : Reachable (step cfg) always s t) :
    t.conn = none ∧
    t.panicked = false ∧
    (t.inClosed = true → ∀ u, Reachable (step cfg) always t u → u.inChan <:+ t.inChan) ∧
    ∀ i op u v, t.calls i = none → op ≠ .close → op.emptyId = false →
      step cfg t (.call i op) = some u → Reachable (step cfg) always u v →
        (∃ call, v.calls i = some call ∧
          ∀ ret, call.pc = .returned ret → ret = .err .lostConn) ∧
        ¬ v.handlers.Names i ∧
        ∃ w, Reachable (step cfg) always v w ∧
          ∃ call, w.calls i = some call ∧ call.pc = .returned (.err .lostConn) := by
  have his := (orderly_new cfg).run hs
  have hit := his.run ht
  have hshut : Shut t :=
    ht.invariant (his.shut hret) (fun _ _ _ hi _ h => hi.move (step_move h))
  refine ⟨hshut.conn, hit.sealed.quiet, fun hin u hu => inChan_shrinks hu hin, ?_⟩
  intro i op u v hnew hop hid hu hv
  have hlate : Late v i :=
    hv.invariant (I := fun u => Late u i) (hit.late hshut hnew hop hid hu)
      (fun _ _ _ hi _ h => hi.move (step_move h))
  obtain ⟨call, hcall, _, hat⟩ := hlate.call
  refine ⟨⟨call, hcall, ?_⟩, hlate.unnamed, hlate.returns⟩
  intro ret hpc
  rw [hpc] at hat
  rcases hat with h | h | h
  · cases h
  · cases h
  · cases h
    rfl

def closeActs : List Act :=
  redialActs ++ [.call 0 .close, .caller 0, .caller 0]

theorem close_final_in_redial :
    ∃ s t, Reachable (step demoCfg) always (new demoCfg) s ∧ CloseReturned s ∧
      step demoCfg s .reader = some t ∧ t.conn = none := by
  refine ⟨_, _, ⟨closeActs, rfl⟩, ⟨0, _, _, rfl, rfl, rfl⟩, rfl, ?_⟩
  exact (close_final demoCfg _ _ ⟨closeActs, rfl⟩ ⟨0, _, _, rfl, rfl, rfl⟩
    (.single rfl (a := .reader) rfl)).1

end Gearman.Client
