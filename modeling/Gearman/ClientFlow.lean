import Gearman.ClientHandshake
import Gearman.ClientSettling

/-!
# From the socket to processLoop

A packet the server puts on a connection is taken off it by `readLoop`, goes through
`in` and is received by `processLoop`. The history keeps what the server has sent on
each connection, what `readLoop` has taken from it and what `processLoop` has
received. Between the two loops nothing is lost, doubled or overtaken, whatever the
callers, the timeouts and the redials do meanwhile.
-/

namespace Gearman.Client
open Bytes Wire Transition

structure Flow where
  served : ℕ → List Frame := fun _ => []
  taken : ℕ → List Frame := fun _ => []
  handled : List Packet := []

def Flow.serve (x : Flow) (c : ℕ) (fs : List Frame) : Flow :=
  { x with served := Function.update x.served c (x.served c ++ fs) }

def Flow.take (x : Flow) (c : ℕ) (fs : List Frame) : Flow :=
  { x with taken := Function.update x.taken c (x.taken c ++ fs) }

def Flow.note (x : Flow) (s : St) (a : Act) (t : St) : Flow :=
  match a with
  | .answer c _ _ _ => x.serve c (t.conns c).wire.getLast?.toList
  | .push c dataType body => x.serve c [⟨dataType, body, none⟩]
  | .readPacket =>
    match s.reader with
    | .read c => x.take c (s.conns c).wire.head?.toList
    | _ => x
  | .process =>
    if s.proc = .recv then { x with handled := x.handled ++ s.inChan.head?.toList } else x
  | _ => x

def decoded (c : ℕ) (answers : Option ℕ) :
    Option (Except Err (Response × ℕ)) → Option Packet
  | some (.ok (resp, _)) => some ⟨resp, c, answers⟩
  | _ => none

/-- What `readLoop` makes of a packet of connection `c`; a malformed one is dropped. -/
def Frame.packet (c : ℕ) (f : Frame) : Option Packet :=
  decoded c f.answers (decodeResponse (frame res f.dataType f.body))

def opening (cfg : Cfg) (c : ℕ) : List Packet := if cfg.wantExceptions then [optionMarker c] else []

/-- All that has been received by `processLoop` or is on its way to it, oldest first. -/
def passed (s : St) (x : Flow) : List Packet :=
  x.handled ++ s.inChan ++ s.reader.sending.toList

def passedOf (s : St) (x : Flow) (c : ℕ) : List Packet :=
  (passed s x).filter (fun p => p.conn = c)

def Passing (cfg : Cfg) (s : St) (x : Flow) (c : ℕ) : Prop :=
  passedOf s x c = opening cfg c ++ (x.taken c).filterMap (Frame.packet c)

/-- The connections `readLoop` can read from or is about to publish. -/
def reads (s : St) (c : ℕ) : Prop := s.rw = some c ∨ s.reader = .read c

structure Flowing (cfg : Cfg) (s : St) (x : Flow) : Prop where
  wire : ∀ c, x.served c = x.taken c ++ (s.conns c).wire
  unserved : ∀ c, s.nconn ≤ c → x.served c = []
  dialled : ∀ p ∈ passed s x, p.conn < s.nconn
  ordered : (passed s x).Pairwise (fun p q => p.conn ≤ q.conn)
  pending : ∀ c, s.reader.setup = some c →
    c < s.nconn ∧ x.taken c = [] ∧ ∀ p ∈ passed s x, p.conn < c
  reading : ∀ c, reads s c → c < s.nconn ∧ Passing cfg s x c ∧ ∀ p ∈ passed s x, p.conn ≤ c
  single : ∀ c d, reads s c → reads s d → c = d
  packets : ∀ c, Passing cfg s x c ∨ (passedOf s x c = [] ∧ x.taken c = [])

variable {cfg : Cfg} {s t : St} {a : Act} {x y : Flow} {p : Packet} {c : ℕ}

theorem filter_of_ne {ps : List Packet} (h : ∀ p ∈ ps, p.conn ≠ c) :
    ps.filter (fun p => p.conn = c) = [] := by
  rw [List.filter_eq_nil_iff]
  intro p hp
  simpa using h p hp

theorem filter_of_conn {ps : List Packet} (h : ∀ p ∈ ps, p.conn = c) :
    ps.filter (fun p => p.conn = c) = ps := by
  rw [List.filter_eq_self]
  intro p hp
  simpa using h p hp

theorem opening_conn (hp : p ∈ opening cfg c) : p.conn = c := by
  unfold opening at hp
  split_ifs at hp
  · rw [List.mem_singleton.mp hp]
    rfl
  · cases hp

theorem decoded_conn {answers : Option ℕ} {r : Option (Except Err (Response × ℕ))}
    (h : decoded c answers r = some p) : p.conn = c := by
  unfold decoded at h
  split at h
  · cases h
    rfl
  · cases h

theorem passed_sending (hs : s.reader.sending = none) (ht : t.inChan = s.inChan)
    (hy : y.handled = x.handled) :
    passed t y = passed s x ++ t.reader.sending.toList := by
  rw [passed, passed, hs, ht, hy, Option.toList_none, List.append_nil]

theorem Flowing.frame (hi : Flowing cfg s x) (hp : passed t y = passed s x)
    (htaken : y.taken = x.taken) (hwire : ∀ c, y.served c = x.taken c ++ (t.conns c).wire)
    (hun : ∀ c, t.nconn ≤ c → y.served c = []) (hn : t.nconn = s.nconn)
    (hreads : ∀ c, reads t c → reads s c)
    (hset : ∀ c, t.reader.setup = some c → s.reader.setup = some c) : Flowing cfg t y where
  wire := fun c => htaken ▸ hwire c
  unserved := hun
  dialled := by
    rw [hp, hn]
    exact hi.dialled
  ordered := hp ▸ hi.ordered
  pending := by
    intro c hc
    rw [hp, hn, htaken]
    exact hi.pending c (hset c hc)
  reading := by
    intro c hc
    rw [Passing, passedOf, hp, hn, htaken]
    exact hi.reading c (hreads c hc)
  single := fun c d hc hd => hi.single c d (hreads c hc) (hreads d hd)
  packets := by
    intro c
    rw [Passing, passedOf, hp, htaken]
    exact hi.packets c

theorem Flowing.still (hi : Flowing cfg s x) (hp : passed t x = passed s x)
    (hwire : ∀ c, (t.conns c).wire = (s.conns c).wire) (hn : t.nconn = s.nconn)
    (hreads : ∀ c, reads t c → reads s c)
    (hset : ∀ c, t.reader.setup = some c → s.reader.setup = some c) : Flowing cfg t x :=
  hi.frame hp rfl (fun c => by rw [hwire]; exact hi.wire c) (hn ▸ hi.unserved) hn hreads hset

theorem Flowing.enter (hi : Flowing cfg s x) {ps : List Packet}
    (hp : passed t y = passed s x ++ ps) (hps : ∀ p ∈ ps, p.conn = c)
    (hwire : ∀ d, y.served d = y.taken d ++ (t.conns d).wire)
    (hserved : y.served = x.served) (hn : t.nconn = s.nconn)
    (htaken : ∀ d, d ≠ c → y.taken d = x.taken d) (hc : c < s.nconn)
    (hle : ∀ p ∈ passed s x, p.conn ≤ c) (hpass : Passing cfg t y c)
    (hreads : ∀ d, reads t d → d = c)
    (hset : t.reader.setup = none) : Flowing cfg t y where
  wire := hwire
  unserved := by
    rw [hserved, hn]
    exact hi.unserved
  dialled := by
    rw [hp, hn]
    intro p hmem
    rcases List.mem_append.mp hmem with hold | hnew
    · exact hi.dialled p hold
    · exact (hps p hnew).symm ▸ hc
  ordered := by
    rw [hp, List.pairwise_append]
    refine ⟨hi.ordered, ?_, fun p hold q hnew => (hps q hnew).symm ▸ hle p hold⟩
    exact List.pairwise_of_forall_mem_list fun p hp q hq => by rw [hps p hp, hps q hq]
  pending := by
    intro d hd
    rw [hset] at hd
    cases hd
  reading := by
    intro d hd
    obtain rfl := hreads d hd
    refine ⟨hn ▸ hc, hpass, ?_⟩
    rw [hp]
    intro p hmem
    rcases List.mem_append.mp hmem with hold | hnew
    · exact hle p hold
    · exact (hps p hnew).le
  single := fun d e hd he => (hreads d hd).trans (hreads e he).symm
  packets := by
    intro d
    by_cases hd : d = c
    · subst hd
      exact Or.inl hpass
    · have hof : passedOf t y d = passedOf s x d := by
        have hnone : ps.filter (fun p => p.conn = d) = [] :=
          filter_of_ne (fun p hnew => hps p hnew ▸ Ne.symm hd)
        rw [passedOf, hp, List.filter_append, hnone, List.append_nil]
        rfl
      rw [Passing, hof, htaken d hd]
      exact hi.packets d

theorem Flowing.publish (hi : Flowing cfg s x) (hpc : s.reader = .setConn c)
    (hrw : t.rw = some c) (hr : t.reader = if cfg.wantExceptions then .marker c else .loop)
    (hin : t.inChan = s.inChan) (hcs : t.conns = s.conns) (hn : t.nconn = s.nconn) :
    Flowing cfg t x := by
  obtain ⟨hc, htaken, hlt⟩ := hi.pending c (by rw [hpc]; rfl)
  have hsend : t.reader.sending.toList = opening cfg c := by
    rw [hr, opening]
    split_ifs <;> rfl
  have hp : passed t x = passed s x ++ opening cfg c :=
    hsend ▸ passed_sending (by rw [hpc]; rfl) hin rfl
  refine hi.enter hp (fun p => opening_conn) (by rw [hcs]; exact hi.wire) rfl hn (fun _ _ => rfl) hc
    (fun p hmem => (hlt p hmem).le) ?_ ?_ ?_
  · rw [Passing, passedOf, hp, List.filter_append, htaken,
      filter_of_ne (fun p hmem => (hlt p hmem).ne), filter_of_conn (fun p => opening_conn)]
    simp
  · rintro d (hd | hd)
    · exact Option.some.inj (hd.symm.trans hrw)
    · rw [hr] at hd
      split_ifs at hd
  · rw [hr]
    split_ifs <;> rfl

theorem Flowing.receive (hi : Flowing cfg s x) {f : Frame} {rest : List Frame}
    (hpc : s.reader = .read c) (hw : (s.conns c).wire = f :: rest)
    (hcs : ∀ d, (t.conns d).wire = if d = c then rest else (s.conns d).wire)
    (hin : t.inChan = s.inChan) (hn : t.nconn = s.nconn) (hrw : t.rw = s.rw)
    (hsend : t.reader.sending = f.packet c) (hread : ∀ d, t.reader ≠ .read d)
    (hset : t.reader.setup = none) : Flowing cfg t (x.take c [f]) := by
  obtain ⟨hc, hpass, hle⟩ := hi.reading c (Or.inr hpc)
  have hp : passed t (x.take c [f]) = passed s x ++ (f.packet c).toList :=
    hsend ▸ passed_sending (by rw [hpc]; rfl) hin rfl
  have hconn : ∀ p ∈ (f.packet c).toList, p.conn = c := by
    intro p hmem
    exact decoded_conn (Option.mem_toList.mp hmem)
  refine hi.enter hp hconn ?_ rfl hn (fun d hd => ?_) hc hle ?_ ?_ hset
  · intro d
    rw [hcs d, Flow.take]
    by_cases hd : d = c
    · subst hd
      simpa [hw] using hi.wire d
    · simpa [hd] using hi.wire d
  · exact Function.update_of_ne hd _ _
  · have htaken : (x.take c [f]).taken c = x.taken c ++ [f] := Function.update_self ..
    rw [Passing, passedOf, hp, List.filter_append, filter_of_conn hconn, htaken,
      List.filterMap_append, ← List.append_assoc, ← hpass]
    cases hpk : f.packet c with
    | none => simp [passedOf, hpk]
    | some p => simp [passedOf, hpk]
  · rintro d (hd | hd)
    · exact hi.single d c (Or.inl (hrw ▸ hd)) (Or.inr hpc)
    · exact absurd hd (hread d)

theorem wire_setConnAt {conn : Conn} (d : ℕ) :
    ((s.setConnAt c conn).conns d).wire = if d = c then conn.wire else (s.conns d).wire := by
  by_cases hd : d = c
  · subst hd
    simp [St.setConnAt]
  · simp [St.setConnAt, hd]

theorem Flowing.received (hi : Flowing cfg s x) {f : Frame} {rest : List Frame}
    {r : Option (Except Err (Response × ℕ))} (hpc : s.reader = .read c)
    (hw : (s.conns c).wire = f :: rest) (hr : f.packet c = decoded c f.answers r)
    (h : received (s.setConnAt c { s.conns c with wire := rest }) c f.answers r = some t) :
    Flowing cfg t (x.take c [f]) := by
  cases r with
  | none => cases h
  | some r =>
    cases r with
    | error err =>
      cases h
      exact hi.receive hpc hw wire_setConnAt rfl rfl rfl hr.symm (by simp) rfl
    | ok r =>
      cases h
      exact hi.receive hpc hw wire_setConnAt rfl rfl rfl hr.symm (by simp) rfl

theorem Flowing.readPacket (hi : Flowing cfg s x) (h : readPacketStep s = some t) :
    Flowing cfg t (x.note s .readPacket t) := by
  cases hpc : s.reader with
  | read c =>
    cases hw : (s.conns c).wire with
    | nil => simp [readPacketStep, hpc, hw] at h
    | cons f rest =>
      have hnote : x.note s .readPacket t = x.take c [f] := by simp [Flow.note, hpc, hw]
      simp only [readPacketStep, hpc, hw] at h
      rw [hnote]
      exact hi.received hpc hw rfl h
  | _ => simp [readPacketStep, hpc] at h

theorem Flowing.serve (hi : Flowing cfg s x) {fs : List Frame} (hc : c < s.nconn)
    (hp : passed t x = passed s x)
    (hcs : ∀ d, (t.conns d).wire = if d = c then (s.conns c).wire ++ fs else (s.conns d).wire)
    (hn : t.nconn = s.nconn) (hreads : ∀ c, reads t c → reads s c)
    (hset : ∀ c, t.reader.setup = some c → s.reader.setup = some c) :
    Flowing cfg t (x.serve c fs) := by
  refine hi.frame hp rfl ?_ ?_ hn hreads hset
  · intro d
    rw [hcs d, Flow.serve]
    by_cases hd : d = c
    · subst hd
      simp [hi.wire d]
    · simp [hd, hi.wire d]
  · intro d hd
    have hne : d ≠ c := by omega
    rw [Flow.serve]
    simpa [hne] using hi.unserved d (hn ▸ hd)

theorem Flowing.answer (hi : Flowing cfg s x) {k : ℕ} {dataType : UInt32} {body : Bytes}
    (h : answerStep s c k dataType body = some t) :
    Flowing cfg t (x.note s (.answer c k dataType body) t) := by
  obtain ⟨r, hr, h⟩ := Option.bind_eq_some_iff.mp h
  split_ifs at h with hc
  cases h
  have hlast : ((s.conns c).wire ++ [(⟨dataType, body, r.call⟩ : Frame)]).getLast?.toList =
      [⟨dataType, body, r.call⟩] := by simp
  simp only [Flow.note, setConnAt_self, hlast]
  exact hi.serve hc.1 rfl wire_setConnAt rfl (fun _ => id) (fun _ => id)

theorem Flowing.push (hi : Flowing cfg s x) {dataType : UInt32} {body : Bytes}
    (h : pushStep s c dataType body = some t) :
    Flowing cfg t (x.note s (.push c dataType body) t) := by
  unfold pushStep at h
  split_ifs at h with hc
  cases h
  exact hi.serve hc.1 rfl wire_setConnAt rfl (fun _ => id) (fun _ => id)

def Act.quiet (s : St) : Act → Bool
  | .answer _ _ _ _ => false
  | .push _ _ _ => false
  | .readPacket => false
  | .process => s.proc ≠ .recv
  | _ => true

theorem note_quiet (ha : a.quiet s = true) : x.note s a t = x := by
  cases a with
  | process =>
    have hne : s.proc ≠ .recv := by simpa [Act.quiet] using ha
    simp [Flow.note, hne]
  | answer c k dataType body => cases ha
  | push c dataType body => cases ha
  | readPacket => cases ha
  | _ => rfl

theorem wire_shut (s : St) (c d : ℕ) : ((s.shut c).conns d).wire = (s.conns d).wire := by
  rw [St.shut, wire_setConnAt]
  split_ifs with hd
  · rw [hd]
  · rfl

theorem wire_write (s : St) (c : ℕ) (r : Request) (d : ℕ) :
    ((s.write c r).conns d).wire = (s.conns d).wire := by
  rw [St.write, wire_setConnAt]
  split_ifs with hd
  · rw [hd]
  · rfl

theorem Flowing.rest (hi : Flowing cfg s x) (hin : t.inChan = s.inChan)
    (hs : t.reader.sending = s.reader.sending)
    (hwire : ∀ c, (t.conns c).wire = (s.conns c).wire) (hn : t.nconn = s.nconn)
    (hrw : t.rw = s.rw ∨ t.rw = none) (hread : ∀ c, t.reader = .read c → reads s c)
    (hset : ∀ c, t.reader.setup = some c → s.reader.setup = some c) : Flowing cfg t x := by
  refine hi.still (by rw [passed, passed, hin, hs]) hwire hn ?_ hset
  rintro c (hc | hc)
  · rcases hrw with hrw | hrw
    · exact Or.inl (hrw ▸ hc)
    · simp [hrw] at hc
  · exact hread c hc

theorem Flowing.dial (hi : Flowing cfg s x) (hs : s.reader.sending = none)
    (hs' : t.reader.sending = none) (hin : t.inChan = s.inChan)
    (hcs : t.conns = Function.update s.conns s.nconn {}) (hn : t.nconn = s.nconn + 1)
    (hrw : t.rw = s.rw) (hread : ∀ c, t.reader ≠ .read c) (hset : t.reader.setup = some s.nconn) :
    Flowing cfg t x := by
  have hp : passed t x = passed s x := by rw [passed, passed, hin, hs, hs']
  have hreads : ∀ c, reads t c → reads s c := by
    rintro c (hc | hc)
    · exact Or.inl (hrw ▸ hc)
    · exact absurd hc (hread c)
  have hnew : x.taken s.nconn = [] := by
    have h := hi.wire s.nconn
    rw [hi.unserved s.nconn le_rfl] at h
    exact (List.append_eq_nil_iff.mp h.symm).1
  refine ⟨?_, ?_, ?_, hp ▸ hi.ordered, ?_, ?_, ?_, ?_⟩
  · intro c
    rw [hcs]
    by_cases hc : c = s.nconn
    · subst hc
      simp [hnew, hi.unserved s.nconn le_rfl]
    · simpa [hc] using hi.wire c
  · intro c hc
    exact hi.unserved c (by omega)
  · rw [hp, hn]
    exact fun p hmem => Nat.lt_succ_of_lt (hi.dialled p hmem)
  · intro c hc
    rw [hset] at hc
    cases hc
    rw [hp, hn]
    exact ⟨Nat.lt_succ_self _, hnew, hi.dialled⟩
  · intro c hc
    obtain ⟨hlt, hpass, hle⟩ := hi.reading c (hreads c hc)
    rw [Passing, passedOf, hp, hn]
    exact ⟨Nat.lt_succ_of_lt hlt, hpass, hle⟩
  · exact fun c d hc hd => hi.single c d (hreads c hc) (hreads d hd)
  · intro c
    rw [Passing, passedOf, hp]
    exact hi.packets c

theorem Flowing.move (hi : Flowing cfg s x) (hm : Move cfg s a t) (ha : a.quiet s = true) :
    Flowing cfg t x := by
  cases hm with
  | reader hl =>
    obtain ⟨hs, hs', hsetup⟩ := hl.sending
    exact hi.rest rfl (hs'.trans hs.symm) (fun _ => rfl) rfl (Or.inl rfl)
      (fun c hc => Or.inl (hl.reads hc)) (fun c hc => by simp [hsetup] at hc)
  | send hpc hin hfull =>
    refine hi.still ?_ (fun _ => rfl) rfl ?_ (fun c hc => by cases hc)
    · rw [passed, passed, hpc]
      simp [ReadPc.sending]
    · rintro c (hc | hc)
      · exact Or.inl hc
      · cases hc
  | drop h hpc hmu hc =>
    exact hi.rest rfl rfl (wire_shut s _) rfl (Or.inr rfl) (fun c => Or.inr) (fun _ => id)
  | readerDrop hpc hmu hc =>
    exact hi.rest rfl (by rw [hpc]; rfl) (wire_shut s _) rfl (Or.inr rfl) (by simp)
      (fun c hc => by cases hc)
  | refuse hpc hmu hc =>
    exact hi.rest rfl (by rw [hpc]; rfl) (wire_shut s _) rfl (Or.inl rfl) (by simp)
      (fun c hc => by cases hc)
  | optionFailed hpc =>
    exact hi.rest rfl (by rw [hpc]; rfl) (wire_shut s _) rfl (Or.inl rfl) (by simp)
      (fun c hc => by cases hc)
  | publish hpc hmu hcl => exact hi.publish hpc rfl rfl rfl rfl rfl
  | dialled hpc =>
    refine hi.dial (by rw [hpc]; rfl) ?_ rfl rfl rfl rfl ?_ ?_
    · simp only
      split_ifs <;> rfl
    · intro c
      simp only
      split_ifs <;> simp
    · simp only
      split_ifs <;> rfl
  | storePending hpc =>
    exact hi.rest rfl (by rw [hpc]; rfl) (fun _ => rfl) rfl (Or.inl rfl) (by simp)
      (fun c hc => by rw [hpc]; exact hc)
  | written h hpc hopen =>
    exact hi.rest rfl rfl (wire_write s _ _) rfl (Or.inl rfl) (fun c => Or.inr) (fun _ => id)
  | optionSent hpc =>
    exact hi.rest rfl (by rw [hpc]; rfl) (wire_write s _ _) rfl (Or.inl rfl) (by simp)
      (fun c hc => by rw [hpc]; exact hc)
  | packet hpc hw hd => cases ha
  | badPacket hpc hw hd => cases ha
  | answer hr hc hlen => cases ha
  | push hc hlen => cases ha
  | recv hpc hin => simp [Act.quiet, hpc] at ha
  | procExit hpc hin hcl => simp [Act.quiet, hpc] at ha
  | _ => first
    | exact hi.rest rfl rfl (fun _ => rfl) rfl (Or.inl rfl) (fun c => Or.inr) (fun _ => id)
    | exact hi.rest rfl (by rw [‹s.reader = _›]; rfl) (fun _ => rfl) rfl (Or.inl rfl) (by simp)
        (fun c hc => by cases hc)

theorem Flowing.process (hi : Flowing cfg s x) (h : processStep s = some t) :
    Flowing cfg t (x.note s .process t) := by
  by_cases hpc : s.proc = .recv
  · have hnote : x.note s .process t = { x with handled := x.handled ++ s.inChan.head?.toList } :=
      if_pos hpc
    rw [hnote]
    simp only [processStep, hpc] at h
    cases hin : s.inChan with
    | nil =>
      simp only [hin] at h
      split_ifs at h
      cases h
      exact hi.frame (by simp [passed, hin]) rfl hi.wire hi.unserved rfl (fun _ => id) (fun _ => id)
    | cons p rest =>
      simp only [hin] at h
      cases h
      exact hi.frame (by simp [passed, hin]) rfl hi.wire hi.unserved rfl (fun _ => id) (fun _ => id)
  · have hq : Act.quiet s .process = true := by simpa [Act.quiet] using hpc
    rw [note_quiet hq]
    exact hi.move (step_move (show step cfg s .process = some t from h)) hq

theorem Flowing.step (hi : Flowing cfg s x) (h : step cfg s a = some t) :
    Flowing cfg t (x.note s a t) := by
  cases a with
  | answer c k dataType body => exact hi.answer h
  | push c dataType body => exact hi.push h
  | readPacket => exact hi.readPacket h
  | process => exact hi.process h
  | _ => exact hi.move (step_move h) rfl

theorem passed_new (cfg : Cfg) : passed (new cfg) {} = opening cfg 0 := by
  simp only [passed, new, opening, List.nil_append, ReadPc.sending, Option.toList_none,
    List.append_nil]

theorem reads_new (h : reads (new cfg) c) : c = 0 := by
  rcases h with h | h
  · exact (Option.some.inj h).symm
  · cases h

theorem flowing_new (cfg : Cfg) : Flowing cfg (new cfg) {} := by
  have hzero : Passing cfg (new cfg) {} 0 := by
    rw [Passing, passedOf, passed_new, filter_of_conn (fun p => opening_conn)]
    exact (List.append_nil _).symm
  refine ⟨?_, fun _ _ => rfl, ?_, ?_, (fun c hc => by cases hc), ?_, ?_, ?_⟩
  · intro c
    by_cases hc : c = 0
    · subst hc
      rfl
    · simp [new, hc]
  · rw [passed_new]
    intro p hp
    rw [opening_conn hp]
    exact Nat.one_pos
  · rw [passed_new]
    exact List.pairwise_of_forall_mem_list fun p hp q hq => by
      rw [opening_conn hp, opening_conn hq]
  · intro c hc
    obtain rfl := reads_new hc
    refine ⟨Nat.one_pos, hzero, ?_⟩
    rw [passed_new]
    exact fun p hp => (opening_conn hp).le
  · exact fun c d hc hd => (reads_new hc).trans (reads_new hd).symm
  · intro c
    by_cases hc : c = 0
    · subst hc
      exact Or.inl hzero
    · refine Or.inr ⟨?_, rfl⟩
      rw [passedOf, passed_new]
      exact filter_of_ne (fun p hp => opening_conn hp ▸ Ne.symm hc)

structure Conveyed (cfg : Cfg) (x : St × Flow) : Prop where
  flowing : Flowing cfg x.1 x.2
  ending : Ending x.1
  wired : Wired x.1
  sealing : Sealed x.1

theorem Conveyed.step {x y : St × Flow} (hi : Conveyed cfg x)
    (h : traced (step cfg) Flow.note x a = some y) : Conveyed cfg y := by
  obtain ⟨hstep, hnote⟩ := traced_eq_some.mp h
  have hm := step_move hstep
  exact ⟨hnote ▸ hi.flowing.step hstep, hi.ending.move hi.wired hm, hi.wired.move hm,
    hi.sealing.move hm⟩

theorem Conveyed.drained {x : St × Flow} (hi : Conveyed cfg x) (h : x.1.proc = .exited) :
    passed x.1 x.2 = x.2.handled := by
  obtain ⟨hin, hcl⟩ := hi.ending.proc h
  rw [passed, hin, hi.sealing.exited hcl]
  simp [ReadPc.sending]

/-- What `processLoop` gets from a connection, in the order it gets it, is the marker of the
connection and the well-formed packets of a front of what the server has sent there; and it has
had them all when it ends. -/
theorem packets_in_order (cfg : Cfg) (as : List Act) (s : St) (x : Flow)
    (h : run (traced (step cfg) Flow.note) always (new cfg, {}) as = some (s, x)) :
    (∀ c, x.served c = x.taken c ++ (s.conns c).wire) ∧
    (∀ c, passedOf s x c = opening cfg c ++ (x.taken c).filterMap (Frame.packet c) ∨
      (passedOf s x c = [] ∧ x.taken c = [])) ∧
    (passed s x).Pairwise (fun p q => p.conn ≤ q.conn) ∧
    (s.proc = .exited → passed s x = x.handled) := by
  have hi : Conveyed cfg (s, x) :=
    run_invariant (fun _ _ _ hx _ hy => hx.step hy) h
      ⟨flowing_new cfg, ending_new cfg, (rounds_new cfg).wired, (orderly_new cfg).sealed⟩
  exact ⟨hi.flowing.wire, hi.flowing.packets, hi.flowing.ordered, hi.drained⟩

def threeActs : List Act :=
  [.push 0 dtEchoRes [1], .push 0 dtWorkData [], .push 0 dtEchoRes [2],
    .reader, .reader, .readPacket, .reader, .process,
    .reader, .reader, .readPacket, .reader, .reader, .readPacket, .reader]

theorem packets_in_order_of_three :
    ∃ s x, run (traced (step demoCfg) Flow.note) always (new demoCfg, {}) threeActs = some (s, x) ∧
      (x.taken 0).length = 3 ∧ x.handled.length = 1 ∧ (passedOf s x 0).length = 2 ∧
      (passedOf s x 0 = opening demoCfg 0 ++ (x.taken 0).filterMap (Frame.packet 0) ∨
        (passedOf s x 0 = [] ∧ x.taken 0 = [])) := by
  have hrun : (run (traced (step demoCfg) Flow.note) always (new demoCfg, {}) threeActs).map
      (fun y => ((y.2.taken 0).length, y.2.handled.length, (passedOf y.1 y.2 0).length)) =
      some (3, 1, 2) := by decide +kernel
  obtain ⟨y, hy, hlen⟩ := Option.map_eq_some_iff.mp hrun
  simp only [Prod.mk.injEq] at hlen
  exact ⟨y.1, y.2, hy, hlen.1, hlen.2.1, hlen.2.2,
    (packets_in_order demoCfg threeActs y.1 y.2 hy).2.1 0⟩

end Gearman.Client
