import Gearman.ClientQueues

/-!
# Whose reply a call returns

`JOB_CREATED` and `ECHO_RES` name no request, so a call may be handed another call's
reply. On the published connection this cannot happen: at most one request there is
still to be answered or has its answer on the way, and it is that of the call which
holds `client.Mutex`. A reply that waits in `in` while its connection is replaced is
outside this argument: `processLoop` may give it to a call registered since.
-/

namespace Gearman.Client
open Bytes Wire Transition

def isSubmit (dataType : UInt32) : Bool :=
  dataType = dtSubmitJob || dataType = dtSubmitJobBg || dataType = dtSubmitJobHigh ||
    dataType = dtSubmitJobHighBg || dataType = dtSubmitJobLow || dataType = dtSubmitJobLowBg

/-- The queue the reply to a request goes through. -/
def requestSlot (dataType : UInt32) : Option Which :=
  if isSubmit dataType then some .created
  else if dataType = dtEchoReq then some .echo
  else none

def replySlot (dataType : UInt32) : Option Which :=
  if dataType = dtJobCreated then some .created
  else if dataType = dtEchoRes then some .echo
  else none

/-- A server that answers each `SUBMIT_JOB` and `ECHO_REQ` of a connection at most once
and in order, and sends `JOB_CREATED` and `ECHO_RES` for nothing else. -/
def honest (s : St) : Act → Bool
  | .answer c k dataType _ =>
    match (s.conns c).reqs[k]? with
    | none => true
    | some r =>
      !r.answered &&
      (replySlot dataType = none || replySlot dataType = requestSlot r.dataType) &&
      ((s.conns c).reqs.drop (k + 1)).all
        (fun later => (requestSlot later.dataType).isNone || !later.answered)
  | .push _ dataType _ => replySlot dataType = none
  | _ => true

/-- `processLoop` does not take a waiting handler for a reply that was read from a
connection other than the published one. -/
def current (s : St) : Act → Bool
  | .process =>
    match s.proc with
    | .dispatch p =>
      match replySlot p.resp.dataType with
      | none => true
      | some k => (s.handlers.slot k).live.isEmpty || decide (s.conn = some p.conn)
    | _ => true
  | _ => true

def Correlated (s : St) : Prop :=
  ∀ i call, s.calls i = some call →
    (∀ handle, call.pc = .returned (.handle handle) → (i, dtJobCreated, handle) ∈ s.answers) ∧
    (∀ data, call.pc = .returned (.echo data) →
      ∃ body, data = some body ∧ (i, dtEchoRes, body) ∈ s.answers)

def asked : List Request → Multiset (Option ℕ)
  | [] => 0
  | r :: rs =>
    (if (requestSlot r.dataType).isSome && !r.answered then {r.call} else 0) + asked rs

def sent : List Frame → Multiset (Option ℕ)
  | [] => 0
  | f :: fs => (if (replySlot f.dataType).isSome then {f.answers} else 0) + sent fs

def replies (c : ℕ) : List Packet → Multiset (Option ℕ)
  | [] => 0
  | p :: ps =>
    (if p.conn = c ∧ (replySlot p.resp.dataType).isSome then {p.answers} else 0) + replies c ps

def ProcPc.holding : ProcPc → List Packet
  | .got p => [p]
  | .dispatch p => [p]
  | _ => []

/-- The calls with a request or a reply under way on connection `c`. -/
def outstanding (s : St) (c : ℕ) : Multiset (Option ℕ) :=
  asked (s.conns c).reqs + sent (s.conns c).wire + replies c s.reader.sending.toList +
    replies c s.inChan + replies c s.proc.holding

theorem asked_append (rs : List Request) (r : Request) :
    asked (rs ++ [r]) = asked rs + asked [r] := by
  induction rs with
  | nil => simp [asked]
  | cons r' rs ih => simp only [List.cons_append, asked, ih, add_assoc]

theorem sent_append (fs : List Frame) (f : Frame) : sent (fs ++ [f]) = sent fs + sent [f] := by
  induction fs with
  | nil => simp [sent]
  | cons f' fs ih => simp only [List.cons_append, sent, ih, add_assoc]

theorem replies_append (c : ℕ) (ps : List Packet) (p : Packet) :
    replies c (ps ++ [p]) = replies c ps + replies c [p] := by
  induction ps with
  | nil => simp [replies]
  | cons p' ps ih => simp only [List.cons_append, replies, ih, add_assoc]

theorem replies_cons (c : ℕ) (p : Packet) (ps : List Packet) :
    replies c (p :: ps) = replies c [p] + replies c ps := by
  simp [replies]

theorem asked_answered {rs : List Request} {k : ℕ} {r : Request} (h : rs[k]? = some r)
    (hr : r.answered = false) :
    asked (rs.set k { r with answered := true }) + asked [r] = asked rs := by
  induction rs generalizing k with
  | nil => simp at h
  | cons r' rs ih =>
    cases k with
    | zero =>
      simp only [List.getElem?_cons_zero, Option.some.injEq] at h
      subst h
      simp [asked, hr, add_comm]
    | succ k =>
      simp only [List.getElem?_cons_succ] at h
      simp only [List.set_cons_succ, asked]
      rw [← ih h]
      simp only [asked, add_zero, add_assoc]

theorem asked_request (op : Op) (i : ℕ) :
    asked [op.request i] = if op.slot.isSome then {some i} else 0 := by
  cases op with
  | submit bg funcname data flag cb uid =>
    have hs : requestSlot (submitType bg flag) = some .created := by
      simp only [submitType]
      split_ifs <;> rfl
    simp [asked, Op.request, Op.slot, hs]
  | _ => rfl

theorem decodeBody_type {packet body : Bytes} {dataType : UInt32} {resp : Response}
    (h : decodeBody packet dataType body = some (.ok resp)) : resp.dataType = dataType := by
  simp only [decodeBody] at h
  split_ifs at h with hc hs hf
  · cases h
    rfl
  · split at h
    · cases h
    · obtain ⟨handle, _, h⟩ := Option.bind_eq_some_iff.mp h
      obtain ⟨data, _, h⟩ := Option.bind_eq_some_iff.mp h
      cases h
      rfl
  · split at h
    · obtain ⟨handle, _, h⟩ := Option.bind_eq_some_iff.mp h
      cases h
      rfl
    · cases h
      rfl
  · cases h
    rfl

theorem decodeResponse_ok {magic dataType : UInt32} {body : Bytes} {resp : Response} {n : ℕ}
    (hlen : body.length ≤ maxPacketLength)
    (h : decodeResponse (frame magic dataType body) = some (.ok (resp, n))) :
    decodeBody (frame magic dataType body) dataType body = some (.ok resp) := by
  have hb : body.length < lengthBound := lt_of_le_of_lt hlen (by decide)
  rw [decodeResponse_frame magic dataType hb] at h
  obtain ⟨r, hr, hmap⟩ := Option.map_eq_some_iff.mp h
  cases r with
  | error e => cases hmap
  | ok r =>
    cases hmap
    exact hr

def WireOk (s : St) : Prop :=
  ∀ c, ∀ f ∈ (s.conns c).wire, f.body.length ≤ maxPacketLength ∧
    ∀ j, f.answers = some j → (j, f.dataType, f.body) ∈ s.answers

variable {cfg : Cfg} {s t : St} {a : Act} {c : ℕ}

theorem outstanding_le (hreqs : asked (t.conns c).reqs ≤ asked (s.conns c).reqs)
    (hwire : sent (t.conns c).wire ≤ sent (s.conns c).wire)
    (hsend : replies c t.reader.sending.toList ≤ replies c s.reader.sending.toList)
    (hin : replies c t.inChan ≤ replies c s.inChan)
    (hproc : replies c t.proc.holding ≤ replies c s.proc.holding) :
    outstanding t c ≤ outstanding s c :=
  add_le_add (add_le_add (add_le_add (add_le_add hreqs hwire) hsend) hin) hproc

theorem outstanding_reader (hreqs : (t.conns c).reqs = (s.conns c).reqs)
    (hwire : (t.conns c).wire = (s.conns c).wire) (hsend : replies c t.reader.sending.toList = 0)
    (hin : t.inChan = s.inChan) (hproc : t.proc = s.proc) :
    outstanding t c ≤ outstanding s c :=
  outstanding_le (hreqs ▸ le_rfl) (hwire ▸ le_rfl) (hsend ▸ zero_le) (hin ▸ le_rfl)
    (hproc ▸ le_rfl)

theorem outstanding_proc (hconns : t.conns = s.conns) (hr : t.reader = s.reader)
    (hin : t.inChan = s.inChan) (hproc : t.proc.holding = []) :
    outstanding t c ≤ outstanding s c :=
  outstanding_le (hconns ▸ le_rfl) (hconns ▸ le_rfl) (hr ▸ le_rfl) (hin ▸ le_rfl)
    (by simp [hproc, replies])

theorem setConnAt_self {conn : Conn} : ((s.setConnAt c conn).conns c) = conn := by
  simp [St.setConnAt]

theorem setConnAt_ne {d : ℕ} {conn : Conn} (h : c ≠ d) :
    ((s.setConnAt d conn).conns c) = s.conns c := by
  simp [St.setConnAt, h]

theorem outstanding_conn (d : ℕ) (conn : Conn) (hconns : t.conns = (s.setConnAt d conn).conns)
    (hle : asked conn.reqs + sent conn.wire ≤ asked (s.conns d).reqs + sent (s.conns d).wire)
    (hsend : replies c t.reader.sending.toList ≤ replies c s.reader.sending.toList)
    (hin : t.inChan = s.inChan) (hproc : t.proc = s.proc) :
    outstanding t c ≤ outstanding s c := by
  have hc : asked (t.conns c).reqs + sent (t.conns c).wire ≤
      asked (s.conns c).reqs + sent (s.conns c).wire := by
    rw [hconns]
    by_cases hd : c = d
    · subst hd
      rw [setConnAt_self]
      exact hle
    · rw [setConnAt_ne hd]
  rw [outstanding, hin, hproc]
  exact add_le_add (add_le_add (add_le_add hc hsend) le_rfl) le_rfl

theorem outstanding_packet {d : ℕ} {f : Frame} {rest : List Frame} {resp : Response} {n : ℕ}
    (hw : WireOk s) (hpc : s.reader = .read d) (hwire : (s.conns d).wire = f :: rest)
    (hd : decodeResponse (frame res f.dataType f.body) = some (.ok (resp, n))) :
    outstanding { s.setConnAt d { s.conns d with wire := rest } with
      reader := .send ⟨resp, d, f.answers⟩ } c ≤ outstanding s c := by
  have hlen := (hw d f (by simp [hwire])).1
  have htype : resp.dataType = f.dataType := decodeBody_type (decodeResponse_ok hlen hd)
  have hreqs : ((s.setConnAt d { s.conns d with wire := rest }).conns c).reqs =
      (s.conns c).reqs := by
    by_cases hcd : c = d
    · subst hcd
      rw [setConnAt_self]
    · rw [setConnAt_ne hcd]
  have hsum : sent ((s.setConnAt d { s.conns d with wire := rest }).conns c).wire +
      replies c [⟨resp, d, f.answers⟩] = sent (s.conns c).wire := by
    by_cases hcd : c = d
    · subst hcd
      rw [setConnAt_self, hwire]
      simp [sent, replies, htype, add_comm]
    · rw [setConnAt_ne hcd]
      simp [replies, Ne.symm hcd]
  have hnone : replies c s.reader.sending.toList = 0 := by
    rw [hpc]
    rfl
  apply le_of_eq
  rw [outstanding, outstanding, hnone, add_zero, ← hsum, ← hreqs, ← add_assoc]
  rfl

theorem outstanding_send {p : Packet} (hpc : s.reader.sending = some p) :
    outstanding { s with inChan := s.inChan ++ [p], reader := .loop } c ≤ outstanding s c := by
  have hs : outstanding s c = asked (s.conns c).reqs + sent (s.conns c).wire + replies c [p] +
      replies c s.inChan + replies c s.proc.holding := by
    rw [outstanding, hpc]
    rfl
  apply le_of_eq
  rw [hs, outstanding, replies_append]
  simp only [ReadPc.sending, Option.toList_none, replies]
  abel

theorem outstanding_recv {p : Packet} {rest : List Packet} (hpc : s.proc = .recv)
    (hin : s.inChan = p :: rest) :
    outstanding { s with inChan := rest, proc := .got p } c ≤ outstanding s c := by
  apply le_of_eq
  simp only [outstanding, hpc, hin, ProcPc.holding, replies_cons c p rest, replies, add_zero]
  abel

theorem outstanding_answer {d k : ℕ} {dataType : UInt32} {body : Bytes} {r : Request}
    (hr : (s.conns d).reqs[k]? = some r) (hh : honest s (.answer d k dataType body) = true) :
    asked ((s.conns d).reqs.set k { r with answered := true }) +
      sent ((s.conns d).wire ++ [⟨dataType, body, r.call⟩]) ≤
    asked (s.conns d).reqs + sent (s.conns d).wire := by
  simp only [honest, hr, Bool.and_eq_true, Bool.not_eq_true', Bool.or_eq_true,
    decide_eq_true_eq] at hh
  obtain ⟨⟨hans, htype⟩, _⟩ := hh
  have hone : sent [⟨dataType, body, r.call⟩] ≤ asked [r] := by
    rcases htype with hn | hs
    · simp [sent, hn]
    · simp [sent, asked, hs, hans]
  calc asked ((s.conns d).reqs.set k { r with answered := true }) +
        sent ((s.conns d).wire ++ [⟨dataType, body, r.call⟩])
      = asked ((s.conns d).reqs.set k { r with answered := true }) +
          sent [⟨dataType, body, r.call⟩] + sent (s.conns d).wire := by
        rw [sent_append]
        abel
    _ ≤ asked ((s.conns d).reqs.set k { r with answered := true }) + asked [r] +
          sent (s.conns d).wire := by gcongr
    _ = asked (s.conns d).reqs + sent (s.conns d).wire := by rw [asked_answered hr hans]

theorem replies_marker (c d : ℕ) : replies c [optionMarker d] = 0 := by
  simp [replies, optionMarker, replySlot, dtOptionSent, dtJobCreated, dtEchoRes]

theorem Move.outstanding (hm : Move cfg s a t) (hh : honest s a = true) (hw : WireOk s) (c : ℕ) :
    outstanding t c ≤ outstanding s c ∨
    ∃ i call token, s.calls i = some call ∧ call.pc = .write token c ∧
      (s.conns c).closed = false ∧
      t = (s.write c (call.op.request i)).setPc i call
        (.wait token (s.now + cfg.responseTimeout)) := by
  cases hm with
  | @written i call token d h hpc hopen =>
    by_cases hcd : c = d
    · subst hcd
      exact Or.inr ⟨i, call, token, h, hpc, hopen, rfl⟩
    · refine Or.inl (outstanding_le ?_ ?_ le_rfl le_rfl le_rfl)
      · exact (congrArg (fun conn => asked conn.reqs) (setConnAt_ne hcd)).le
      · exact (congrArg (fun conn => sent conn.wire) (setConnAt_ne hcd)).le
  | drop h hpc hmu hc => exact Or.inl (outstanding_conn _ _ rfl le_rfl le_rfl rfl rfl)
  | reader hl =>
    exact Or.inl (outstanding_reader rfl rfl (by cases hl <;> rfl) rfl rfl)
  | send hpc hin hfull => exact Or.inl (outstanding_send hpc)
  | readerDrop hpc hmu hc => exact Or.inl (outstanding_conn _ _ rfl le_rfl zero_le rfl rfl)
  | refuse hpc hmu hc => exact Or.inl (outstanding_conn _ _ rfl le_rfl zero_le rfl rfl)
  | optionFailed hpc => exact Or.inl (outstanding_conn _ _ rfl le_rfl zero_le rfl rfl)
  | publish hpc hmu hc =>
    refine Or.inl (outstanding_reader rfl rfl ?_ rfl rfl)
    cases cfg.wantExceptions with
    | true => exact replies_marker _ _
    | false => rfl
  | packet hpc hwire hd => exact Or.inl (outstanding_packet hw hpc hwire hd)
  | badPacket hpc hwire hd =>
    refine Or.inl (outstanding_conn _ _ rfl (add_le_add le_rfl ?_) zero_le rfl rfl)
    rw [hwire]
    exact le_add_self
  | dialled hpc =>
    refine Or.inl (outstanding_conn _ _ rfl zero_le ?_ rfl rfl)
    cases cfg.wantExceptions <;> exact zero_le
  | optionSent hpc =>
    refine Or.inl (outstanding_conn _ _ rfl (add_le_add ?_ le_rfl) zero_le rfl rfl)
    rw [asked_append]
    exact (add_zero _).le
  | recv hpc hin => exact Or.inl (outstanding_recv hpc hin)
  | got hpc heq hnext =>
    rcases hnext with rfl | rfl
    · exact Or.inl (outstanding_proc rfl rfl rfl rfl)
    · exact Or.inl (outstanding_le le_rfl le_rfl le_rfl le_rfl (by rw [hpc]; exact le_rfl))
  | answer hr hc hlen =>
    exact Or.inl (outstanding_conn _ _ rfl (outstanding_answer hr hh) le_rfl rfl rfl)
  | push hc hlen =>
    refine Or.inl (outstanding_conn _ _ rfl (add_le_add le_rfl ?_) le_rfl rfl rfl)
    simp only [honest, decide_eq_true_eq] at hh
    rw [sent_append]
    simp [sent, hh]
  | _ => first
    | exact Or.inl le_rfl
    | exact Or.inl (outstanding_reader rfl rfl rfl rfl rfl)
    | exact Or.inl (outstanding_proc rfl rfl rfl rfl)

theorem Move.retired (hm : Move cfg s a t) (hw : Wired s) (hc : c < s.nconn)
    (h : s.conn = some c ∨ (s.conns c).closed = true) :
    c < t.nconn ∧ (t.conn = some c ∨ (t.conns c).closed = true) := by
  have drop : ∀ {d : ℕ}, s.conn = some d → ((s.shut d).conns c).closed = true := by
    intro d hd
    rw [shut_closed]
    rcases h with h | h
    · simp [Option.some.inj (h.symm.trans hd)]
    · simp [h]
  have keep : ∀ {d : ℕ} {conn : Conn}, conn.closed = (s.conns d).closed →
      s.conn = some c ∨ ((s.setConnAt d conn).conns c).closed = true := by
    intro d conn hcl
    rwa [setConnAt_closed hcl]
  have shut : ∀ d, s.conn = some c ∨ ((s.shut d).conns c).closed = true := by
    intro d
    rw [shut_closed]
    exact h.imp_right (fun h => by simp [h])
  cases hm with
  | written h hpc hopen => exact ⟨hc, keep rfl⟩
  | drop h hpc hmu hd => exact ⟨hc, Or.inr (drop hd)⟩
  | readerDrop hpc hmu hd => exact ⟨hc, Or.inr (drop hd)⟩
  | refuse hpc hmu hcl => exact ⟨hc, shut _⟩
  | optionFailed hpc => exact ⟨hc, shut _⟩
  | publish hpc hmu hcl =>
    have hnone := hw.apart (by simp [hpc, ReadPc.apart])
    exact ⟨hc, Or.inr (h.resolve_left (by simp [hnone]))⟩
  | packet hpc hwire hd => exact ⟨hc, keep rfl⟩
  | badPacket hpc hwire hd => exact ⟨hc, keep rfl⟩
  | dialled hpc =>
    refine ⟨Nat.lt_succ_of_lt hc, h.imp_right (fun h => ?_)⟩
    rw [setConnAt_ne (Nat.ne_of_lt hc)]
    exact h
  | optionSent hpc => exact ⟨hc, keep rfl⟩
  | answer hr hd hlen => exact ⟨hc, keep rfl⟩
  | push hd hlen => exact ⟨hc, keep rfl⟩
  | _ => exact ⟨hc, h⟩

theorem Move.conn_origin (hm : Move cfg s a t) (h : t.conn = some c) :
    s.conn = some c ∨ s.reader.setup = some c := by
  cases hm with
  | drop h' hpc hmu hd => cases h
  | readerDrop hpc hmu hd => cases h
  | publish hpc hmu hcl =>
    rw [hpc]
    exact Or.inr h
  | _ => exact Or.inl h

theorem Move.unopened (hm : Move cfg s a t) (h : t.nconn ≤ c ∨ t.reader.setup = some c) :
    s.nconn ≤ c ∨ s.reader.setup = some c := by
  cases hm with
  | reader hl => cases hl <;> exact h.imp_right nofun
  | storePending hpc =>
    rw [hpc]
    exact h
  | publish hpc hmu hc =>
    refine h.imp_right ?_
    cases cfg.wantExceptions <;> exact nofun
  | dialled hpc =>
    refine Or.inl ?_
    rcases h with h | h
    · exact Nat.le_of_succ_le h
    · cases hw : cfg.wantExceptions <;> simp only [hw] at h <;> exact (Option.some.inj h).le
  | optionSent hpc =>
    rw [hpc]
    exact h
  | _ => first | exact h | exact h.imp_right nofun

theorem Move.answers (hm : Move cfg s a t) {x : ℕ × UInt32 × Bytes} (h : x ∈ s.answers) :
    x ∈ t.answers := by
  cases hm with
  | answer hr hc hlen => exact List.mem_append_left _ h
  | _ => exact h

theorem setConnAt_wire {d : ℕ} {conn : Conn} (h : conn.wire ⊆ (s.conns d).wire) (c : ℕ) :
    ((s.setConnAt d conn).conns c).wire ⊆ (s.conns c).wire := by
  by_cases hd : c = d
  · subst hd
    rw [setConnAt_self]
    exact h
  · rw [setConnAt_ne hd]
    exact List.Subset.refl _

theorem setConnAt_concat {d : ℕ} {conn : Conn} {f g : Frame}
    (h : conn.wire = (s.conns d).wire ++ [g]) (hf : f ∈ ((s.setConnAt d conn).conns c).wire) :
    f ∈ (s.conns c).wire ∨ (c = d ∧ f = g) := by
  by_cases hd : c = d
  · subst hd
    rw [setConnAt_self, h] at hf
    rcases List.mem_append.mp hf with hf | hf
    · exact Or.inl hf
    · exact Or.inr ⟨rfl, List.mem_singleton.mp hf⟩
  · rw [setConnAt_ne hd] at hf
    exact Or.inl hf

inductive Served (s t : St) (c : ℕ) (f : Frame) : Act → Prop
  | answer {k : ℕ} {r : Request} (hr : (s.conns c).reqs[k]? = some r) (hf : f.answers = r.call)
      (hans : ∀ j, f.answers = some j → (j, f.dataType, f.body) ∈ t.answers) :
      Served s t c f (.answer c k f.dataType f.body)
  | push (hf : f.answers = none) : Served s t c f (.push c f.dataType f.body)

theorem Move.wire (hm : Move cfg s a t) {f : Frame} (hf : f ∈ (t.conns c).wire) :
    f ∈ (s.conns c).wire ∨ (f.body.length ≤ maxPacketLength ∧ Served s t c f a) := by
  cases hm with
  | answer hr hc hlen =>
    rcases setConnAt_concat rfl hf with hf | ⟨rfl, rfl⟩
    · exact Or.inl hf
    · refine Or.inr ⟨hlen, .answer hr rfl ?_⟩
      intro j hj
      refine List.mem_append_right _ (List.mem_map.mpr ⟨j, ?_, rfl⟩)
      exact Option.mem_toList.mpr hj
  | push hc hlen =>
    rcases setConnAt_concat rfl hf with hf | ⟨rfl, rfl⟩
    · exact Or.inl hf
    · exact Or.inr ⟨hlen, .push rfl⟩
  | packet hpc hw hd =>
    exact Or.inl (setConnAt_wire (by rw [hw]; exact List.subset_cons_self _ _) c hf)
  | badPacket hpc hw hd =>
    exact Or.inl (setConnAt_wire (by rw [hw]; exact List.subset_cons_self _ _) c hf)
  | dialled hpc =>
    refine Or.inl (setConnAt_wire ?_ c hf)
    exact List.nil_subset _
  | _ => first
    | exact Or.inl hf
    | (refine Or.inl (setConnAt_wire ?_ c hf)
       exact List.Subset.refl _)

theorem WireOk.move (hi : WireOk s) (hm : Move cfg s a t) : WireOk t := by
  intro c f hf
  rcases hm.wire hf with hold | ⟨hlen, hserved⟩
  · exact ⟨(hi c f hold).1, fun j hj => hm.answers ((hi c f hold).2 j hj)⟩
  · refine ⟨hlen, ?_⟩
    cases hserved with
    | answer hr hf hans => exact hans
    | push hf => simp [hf]

inductive Posted (s : St) (c : ℕ) (r : Request) : Prop
  | old (hr : r ∈ (s.conns c).reqs) : Posted s c r
  | answered {r' : Request} (hr' : r' ∈ (s.conns c).reqs) (hr : r = { r' with answered := true }) :
      Posted s c r
  | option (hr : r = optionRequest) : Posted s c r
  | written {i : ℕ} {call : Call} {token : UInt64} (hcall : s.calls i = some call)
      (hpc : call.pc = .write token c) (hopen : (s.conns c).closed = false)
      (hr : r = call.op.request i) : Posted s c r

theorem setConnAt_reqs {d : ℕ} {conn : Conn} {r : Request}
    (hr : r ∈ ((s.setConnAt d conn).conns c).reqs) :
    r ∈ (s.conns c).reqs ∨ (c = d ∧ r ∈ conn.reqs) := by
  by_cases hd : c = d
  · subst hd
    rw [setConnAt_self] at hr
    exact Or.inr ⟨rfl, hr⟩
  · rw [setConnAt_ne hd] at hr
    exact Or.inl hr

theorem Move.posted (hm : Move cfg s a t) {r : Request} (hr : r ∈ (t.conns c).reqs) :
    Posted s c r := by
  have same : ∀ {d : ℕ} {conn : Conn}, conn.reqs ⊆ (s.conns d).reqs →
      r ∈ ((s.setConnAt d conn).conns c).reqs → Posted s c r := by
    intro d conn hsub hr'
    rcases setConnAt_reqs hr' with hold | ⟨rfl, hnew⟩
    · exact .old hold
    · exact .old (hsub hnew)
  cases hm with
  | written hcall hpc hopen =>
    rcases setConnAt_reqs hr with hr | ⟨rfl, hr⟩
    · exact .old hr
    · rcases List.mem_append.mp hr with hr | hr
      · exact .old hr
      · exact .written hcall hpc hopen (List.mem_singleton.mp hr)
  | optionSent hpc =>
    rcases setConnAt_reqs hr with hr | ⟨rfl, hr⟩
    · exact .old hr
    · rcases List.mem_append.mp hr with hr | hr
      · exact .old hr
      · exact .option (List.mem_singleton.mp hr)
  | answer hk hc hlen =>
    rcases setConnAt_reqs hr with hr | ⟨rfl, hr⟩
    · exact .old hr
    · rcases List.mem_or_eq_of_mem_set hr with hr | hr
      · exact .old hr
      · exact .answered (List.mem_of_getElem? hk) hr
  | dialled hpc => exact same (List.nil_subset _) hr
  | _ => first
    | exact .old hr
    | (refine same ?_ hr
       exact List.Subset.refl _)

/-- A reply that says what the server has answered to the call it is for. -/
def Genuine (s : St) (p : Packet) : Prop :=
  ∀ j, p.answers = some j →
    (p.resp.dataType = dtJobCreated → (j, dtJobCreated, p.resp.handle) ∈ s.answers) ∧
    (p.resp.dataType = dtEchoRes →
      ∃ body, p.resp.data = some body ∧ (j, dtEchoRes, body) ∈ s.answers)

theorem Genuine.mono {p : Packet} (h : Genuine s p) (hans : ∀ x ∈ s.answers, x ∈ t.answers) :
    Genuine t p := by
  intro j hj
  obtain ⟨hc, he⟩ := h j hj
  refine ⟨fun htype => hans _ (hc htype), fun htype => ?_⟩
  obtain ⟨body, hdata, hb⟩ := he htype
  exact ⟨body, hdata, hans _ hb⟩

theorem genuine_decoded {d : ℕ} {f : Frame} {rest : List Frame} {resp : Response} {n : ℕ}
    (hi : WireOk s) (hwire : (s.conns d).wire = f :: rest)
    (hd : decodeResponse (frame res f.dataType f.body) = some (.ok (resp, n))) :
    Genuine s ⟨resp, d, f.answers⟩ := by
  obtain ⟨hlen, hans⟩ := hi d f (by simp [hwire])
  have hb := decodeResponse_ok hlen hd
  have htype := decodeBody_type hb
  intro j hfor
  have hj := hans j hfor
  constructor
  · intro hc
    have hf : f.dataType = dtJobCreated := htype.symm.trans hc
    rw [hf] at hb hj
    simp only [decodeBody, if_true] at hb
    cases hb
    exact hj
  · intro he
    have hf : f.dataType = dtEchoRes := htype.symm.trans he
    rw [hf] at hb hj
    simp only [decodeBody] at hb
    cases hb
    exact ⟨f.body, rfl, hj⟩

def InFlight (s : St) (p : Packet) : Prop :=
  s.reader.sending = some p ∨ p ∈ s.inChan ∨ p ∈ s.proc.holding

inductive Received (cfg : Cfg) (s : St) (p : Packet) : Prop
  | marker {c : ℕ} (hpc : s.reader = .setConn c) (hwant : cfg.wantExceptions = true)
      (hp : p = optionMarker c) : Received cfg s p
  | packet {c n : ℕ} {f : Frame} {rest : List Frame} {resp : Response} (hpc : s.reader = .read c)
      (hwire : (s.conns c).wire = f :: rest)
      (hd : decodeResponse (frame res f.dataType f.body) = some (.ok (resp, n)))
      (hp : p = ⟨resp, c, f.answers⟩) : Received cfg s p

theorem Move.inFlight (hm : Move cfg s a t) {p : Packet} (hp : InFlight t p) :
    InFlight s p ∨ Received cfg s p := by
  cases hm with
  | reader hl =>
    refine Or.inl (Or.inr (hp.resolve_left ?_))
    cases hl <;> exact nofun
  | send hpc hin hfull =>
    rcases hp with hp | hp | hp
    · cases hp
    · rcases List.mem_append.mp hp with hp | hp
      · exact Or.inl (Or.inr (Or.inl hp))
      · cases List.mem_singleton.mp hp
        exact Or.inl (Or.inl hpc)
    · exact Or.inl (Or.inr (Or.inr hp))
  | publish hpc hmu hc =>
    rcases hp with hp | hp
    · cases hw : cfg.wantExceptions <;> simp only [hw] at hp <;> cases hp
      exact Or.inr (.marker hpc hw rfl)
    · exact Or.inl (Or.inr hp)
  | packet hpc hwire hd =>
    rcases hp with hp | hp
    · cases hp
      exact Or.inr (.packet hpc hwire hd rfl)
    · exact Or.inl (Or.inr hp)
  | dialled hpc =>
    refine Or.inl (Or.inr (hp.resolve_left ?_))
    cases cfg.wantExceptions <;> exact nofun
  | recv hpc hin =>
    rcases hp with hp | hp | hp
    · exact Or.inl (Or.inl hp)
    · exact Or.inl (Or.inr (Or.inl (by rw [hin]; exact List.mem_cons_of_mem _ hp)))
    · cases List.mem_singleton.mp hp
      exact Or.inl (Or.inr (Or.inl (by rw [hin]; exact List.mem_cons_self)))
  | got hpc heq hnext =>
    rcases hp with hp | hp | hp
    · exact Or.inl (Or.inl hp)
    · exact Or.inl (Or.inr (Or.inl hp))
    · rcases hnext with rfl | rfl
      · cases hp
      · exact Or.inl (Or.inr (Or.inr (by rw [hpc]; exact hp)))
  | _ => first
    | exact Or.inl hp
    | exact Or.inl (Or.inr (hp.resolve_left nofun))
    | exact Or.inl (hp.imp_right (fun hp => Or.inl (hp.resolve_right nofun)))

theorem Move.genuine (hm : Move cfg s a t) (hi : WireOk s) (hs : ∀ p, InFlight s p → Genuine s p)
    {p : Packet} (hp : InFlight t p) : Genuine s p := by
  rcases hm.inFlight hp with hold | hnew
  · exact hs p hold
  · cases hnew with
    | marker hpc hwant hp =>
      rw [hp]
      exact nofun
    | packet hpc hwire hd hp =>
      rw [hp]
      exact genuine_decoded hi hwire hd

theorem outstanding_take {p : Packet} (hpc : s.proc = .dispatch p)
    (htype : (replySlot p.resp.dataType).isSome = true) (hs : Handlers)
    (h : HandledResponse ℕ ℕ) :
    outstanding { s with handlers := hs, proc := .deliver h p } p.conn + {p.answers} =
      outstanding s p.conn := by
  simp [outstanding, hpc, ProcPc.holding, replies, htype]

theorem outstanding_written {i : ℕ} {call : Call} {pc : Pc} (r : Request) :
    outstanding ((s.write c r).setPc i call pc) c = outstanding s c + asked [r] := by
  have hconn : ((s.write c r).setPc i call pc).conns c =
      { s.conns c with reqs := (s.conns c).reqs ++ [r] } := setConnAt_self
  rw [outstanding, hconn, asked_append, outstanding]
  simp only [St.setPc, St.write, St.setConnAt]
  abel

/-- From the write of the request until its reply or the loss of the connection. -/
def Pc.awaiting : Pc → Bool
  | .wait _ _ => true
  | .abandon _ => true
  | .closeConn => true
  | _ => false

structure Awaits (s : St) (i : ℕ) (call : Call) : Prop where
  active : s.calls i = some call
  op : call.op.slot ≠ none
  pc : call.pc.awaiting = true
  result : call.result = none
  unserved : s.proc.delivers i = false

theorem Awaits.holds {i : ℕ} {call : Call} (h : Awaits s i call) : call.holds = true := by
  have hop : call.op ≠ .close := by
    intro hop
    exact h.op (by rw [hop]; rfl)
  have hpc := h.pc
  cases hc : call.pc <;> simp_all [Call.holds, Pc.awaiting]

theorem Awaits.local {i : ℕ} {call : Call} {pc : Pc} (h : Awaits s i call) (hl : Local s call pc)
    (hconn : s.conn ≠ none) : pc.awaiting = true := by
  have hpc := h.pc
  cases hl with
  | replied hpc hr => simp [h.result] at hr
  | timedOut hpc hd => rfl
  | noConn hpc hmu hc => exact absurd hc hconn
  | _ => simp_all [Pc.awaiting]

theorem Awaits.shared {i : ℕ} {call : Call} {pc : Pc} (h : Awaits s i call) (hs : Shared t call pc)
    (hconn : t.conn ≠ none) : pc.awaiting = true := by
  have hpc := h.pc
  cases hs with
  | abandon hab =>
    obtain ⟨k, hk⟩ := Option.ne_none_iff_exists'.mp h.op
    rw [Op.afterAbandon_slot hk]
    rfl
  | drop hpc hc => exact absurd hc hconn
  | _ => simp_all [Pc.awaiting]

theorem Awaits.move {i : ℕ} {call : Call} (h : Awaits s i call) (hm : Move cfg s a t)
    (hs : s.conn ≠ none) (ht : t.conn ≠ none) (hd : t.proc.delivers i = false) :
    ∃ call', Awaits t i call' := by
  obtain ⟨call', hcall', hadv⟩ := hm.call h.active
  refine ⟨call', hcall', by rw [hadv.op]; exact h.op, ?_, ?_, hd⟩
  · rcases hadv.pc with hpc | hl | hsh
    · rw [hpc]
      exact h.pc
    · exact h.local hl hs
    · exact h.shared hsh ht
  · rw [hadv.unserved h.unserved]
    exact h.result

/-- At most one call is outstanding on `c`, and it waits for its reply. -/
structure Single (s : St) (c : ℕ) : Prop where
  card : (outstanding s c).card ≤ 1
  owner : ∀ o ∈ outstanding s c, ∃ i call, o = some i ∧ Awaits s i call

theorem Single.of_zero (h : outstanding s c = 0) : Single s c := by
  refine ⟨by simp [h], ?_⟩
  intro o ho
  simp [h] at ho

/-- The reply `p` is the one call `i` waits for in queue `k`. -/
structure Right (s : St) (k : Which) (i : ℕ) (p : Packet) : Prop where
  answers : p.answers = some i
  type : p.resp.dataType = k.replyType
  genuine : Genuine s p

def RetOk (s : St) (i : ℕ) : Ret → Prop
  | .handle handle => (i, dtJobCreated, handle) ∈ s.answers
  | .echo data => ∃ body, data = some body ∧ (i, dtEchoRes, body) ∈ s.answers
  | _ => True

def Pc.ret : Pc → Option Ret
  | .unlock ret => some ret
  | .returned ret => some ret
  | _ => none

def Ports (s : St) : Prop :=
  ∀ i call token c, s.calls i = some call → call.pc = .write token c →
    c < s.nconn ∧ (s.conn = some c ∨ (s.conns c).closed = true)

structure Corr (s : St) : Prop where
  rounds : Rounds s
  wire : WireOk s
  ports : ∀ i call token c, s.calls i = some call → call.pc = .write token c →
    c < s.nconn ∧ (s.conn = some c ∨ (s.conns c).closed = true)
  unopened : ∀ c, s.nconn ≤ c ∨ s.reader.setup = some c → outstanding s c = 0
  single : ∀ c, s.conn = some c → Single s c
  unsent : ∀ i call, s.calls i = some call → call.op.slot ≠ none → call.pc.unsent = true →
    call.result = none ∧ s.proc.delivers i = false
  flight : ∀ p, InFlight s p → Genuine s p
  served : ∀ i call k p, s.calls i = some call → call.op.slot = some k →
    (call.result = some p ∨ ∃ h, s.proc = .deliver h p ∧ h.internal = some i) → Right s k i p
  rets : ∀ i call ret, s.calls i = some call → call.pc.ret = some ret → RetOk s i ret

theorem replySlot_replyType (k : Which) : replySlot k.replyType = some k := by
  cases k <;> rfl

/-- The heart of the matter: a reply from the published connection is for the call whose
handler `take` returns. -/
theorem Corr.taken (hi : Corr s) {p : Packet} {k : Which} {i : ℕ} (hpc : s.proc = .dispatch p)
    (htype : p.resp.dataType = k.replyType) (hcur : current s .process = true)
    (h : ((s.handlers.slot k).take s.now).2.internal = some i) :
    Right s k i p ∧ (∃ call, Awaits s i call) ∧ s.conn = some p.conn ∧
      ∀ hs h', outstanding { s with handlers := hs, proc := .deliver h' p } p.conn = 0 := by
  have hslot : replySlot p.resp.dataType = some k := by rw [htype, replySlot_replyType]
  have hlive := HandlerSlot.take_internal_mem h
  have hconn : s.conn = some p.conn := by
    simp only [current, hpc, hslot, Bool.or_eq_true, List.isEmpty_iff, decide_eq_true_eq] at hcur
    exact hcur.resolve_left (List.ne_nil_of_mem hlive)
  have hsum := outstanding_take hpc (by rw [hslot]; rfl)
  have hone := hi.single p.conn hconn
  obtain ⟨j, call, hj, haw⟩ := hone.owner p.answers (by rw [← hsum s.handlers {}]; simp)
  obtain ⟨call', e, ho, heq⟩ := (hi.rounds.queue k).take h
  have hmine := hi.rounds.locks.owner haw.active haw.holds ho
  have hij : j = i := hmine.internal (by rw [heq, h])
  subst hij
  refine ⟨⟨hj, htype, hi.flight p (Or.inr (Or.inr ?_))⟩, ⟨call, haw⟩, hconn, fun hs h' => ?_⟩
  · rw [hpc]
    exact List.mem_singleton_self p
  · have hcard := hone.card
    rw [← hsum hs h', Multiset.card_add, Multiset.card_singleton] at hcard
    exact Multiset.card_eq_zero.mp (by omega)

theorem Move.delivering (hm : Move cfg s a t) {h : HandledResponse ℕ ℕ} {p : Packet}
    (hd : t.proc = .deliver h p) :
    s.proc = .deliver h p ∨
      (a = .process ∧ s.proc = .dispatch p ∧
        (∃ hs, t = { s with handlers := hs, proc := .deliver h p }) ∧
        (h.internal = s.handlers.status.lookup p.resp.handle ∨
          ∃ k : Which, p.resp.dataType = k.replyType ∧
            h = ((s.handlers.slot k).take s.now).2)) := by
  cases hm with
  | got hpc heq hnext => rcases hnext with rfl | rfl <;> cases hd
  | takeStatus hpc htype =>
    cases hd
    exact Or.inr ⟨rfl, hpc, ⟨_, rfl⟩, Or.inl rfl⟩
  | take k hpc htype =>
    cases hd
    exact Or.inr ⟨rfl, hpc, ⟨_, rfl⟩, Or.inr ⟨k, htype, rfl⟩⟩
  | _ => first | exact Or.inl hd | cases hd

/-- A call that is handed a reply waits for it, the reply is its own, and nothing else is
under way on the published connection. -/
theorem Corr.deliver (hi : Corr s) (hm : Move cfg s a t) (hcur : current s a = true) {i : ℕ}
    {call : Call} {k : Which} {h : HandledResponse ℕ ℕ} {p : Packet}
    (hcall : s.calls i = some call) (hop : call.op.slot = some k) (hd : t.proc = .deliver h p)
    (hint : h.internal = some i) :
    s.proc = .deliver h p ∨ (Right s k i p ∧ Awaits s i call ∧
      ∀ c, s.conn = some c → outstanding t c = 0) := by
  rcases hm.delivering hd with hold | ⟨rfl, hpc, ⟨hs, rfl⟩, hl | ⟨k', htype, rfl⟩⟩
  · exact Or.inl hold
  · obtain ⟨call', hcall', hnone, _⟩ := hi.rounds.status _ i (hl.symm.trans hint)
    cases Option.some.inj (hcall.symm.trans hcall')
    simp [hop] at hnone
  · obtain ⟨call', e, ho, _⟩ := (hi.rounds.queue k').take hint
    cases Option.some.inj (hcall.symm.trans ho.active)
    cases Option.some.inj (hop.symm.trans ho.op)
    obtain ⟨hright, ⟨call', haw⟩, hconn, hzero⟩ := hi.taken hpc htype hcur hint
    cases Option.some.inj (hcall.symm.trans haw.active)
    refine Or.inr ⟨hright, haw, ?_⟩
    intro c hc
    cases Option.some.inj (hconn.symm.trans hc)
    exact hzero hs _

theorem delivers_iff {pc : ProcPc} {i : ℕ} :
    pc.delivers i = true ↔ ∃ h p, pc = .deliver h p ∧ h.internal = some i := by
  cases pc <;> simp [ProcPc.delivers]

theorem Corr.unsent_move (hi : Corr s) (hm : Move cfg s a t) (hcur : current s a = true) {i : ℕ}
    {call' : Call} (hcall' : t.calls i = some call') (hop : call'.op.slot ≠ none)
    (hpc : call'.pc.unsent = true) : call'.result = none ∧ t.proc.delivers i = false := by
  rcases hm.call_origin hcall' with ⟨call, hcall, hadv⟩ | ⟨hnone, hres, _, _, hproc, _⟩
  · rw [hadv.op] at hop
    have hun := hadv.forward.unsent hpc
    obtain ⟨hr, hd⟩ := hi.unsent i call hcall hop hun
    refine ⟨by rw [hadv.unserved hd, hr], ?_⟩
    by_contra hne
    obtain ⟨h, p, hdel, hint⟩ := delivers_iff.mp (by simpa using hne)
    obtain ⟨k, hk⟩ := Option.ne_none_iff_exists'.mp hop
    rcases hi.deliver hm hcur hcall hk hdel hint with hold | ⟨_, haw, _⟩
    · rw [delivers_iff.mpr ⟨h, p, hold, hint⟩] at hd
      cases hd
    · have haw := haw.pc
      cases hc : call.pc <;> simp_all [Pc.unsent, Pc.awaiting, Pc.early]
  · exact ⟨hres, hproc ▸ hi.rounds.fresh.unbegun i hnone⟩

theorem Corr.served_move (hi : Corr s) (hm : Move cfg s a t) (hcur : current s a = true) {i : ℕ}
    {call' : Call} {k : Which} {p : Packet} (hcall' : t.calls i = some call')
    (hop : call'.op.slot = some k)
    (h : call'.result = some p ∨ ∃ h, t.proc = .deliver h p ∧ h.internal = some i) :
    Right s k i p := by
  rcases hm.call_origin hcall' with ⟨call, hcall, hadv⟩ | ⟨hnone, hres, _, _, hproc, _⟩
  · rw [hadv.op] at hop
    rcases h with hr | ⟨h, hdel, hint⟩
    · rcases hadv.result with heq | ⟨h, p', hpc, hint, hnew⟩
      · exact hi.served i call k p hcall hop (Or.inl (heq.symm.trans hr))
      · cases Option.some.inj (hnew.symm.trans hr)
        exact hi.served i call k p hcall hop (Or.inr ⟨h, hpc, hint⟩)
    · rcases hi.deliver hm hcur hcall hop hdel hint with hold | ⟨hright, _⟩
      · exact hi.served i call k p hcall hop (Or.inr ⟨h, hold, hint⟩)
      · exact hright
  · rcases h with hr | ⟨h, hdel, hint⟩
    · simp [hres] at hr
    · have hd := hi.rounds.fresh.unbegun i hnone
      rw [delivers_iff.mpr ⟨h, p, hproc ▸ hdel, hint⟩] at hd
      cases hd

theorem Corr.written (hi : Corr s) {i : ℕ} {call : Call} {token : UInt64}
    (hcall : s.calls i = some call) (hpc : call.pc = .write token c)
    (hopen : (s.conns c).closed = false) : s.conn = some c ∧ outstanding s c = 0 := by
  -- A request goes out only on the published connection, and only when nothing else is under way
  -- there.
  obtain ⟨_, hconn | hcl⟩ := hi.ports i call token c hcall hpc
  · refine ⟨hconn, Multiset.eq_zero_of_forall_notMem ?_⟩
    intro o ho
    obtain ⟨j, call', _, haw⟩ := (hi.single c hconn).owner o ho
    have hmine := hi.rounds.locks.mutex i call hcall (by simp [Call.holds, hpc])
    have hyours := hi.rounds.locks.mutex j call' haw.active haw.holds
    cases Option.some.inj (hmine.symm.trans hyours)
    cases Option.some.inj (hcall.symm.trans haw.active)
    simpa [hpc, Pc.awaiting] using haw.pc
  · simp [hopen] at hcl

theorem Corr.single_move (hi : Corr s) (hm : Move cfg s a t) (hh : honest s a = true)
    (hcur : current s a = true) (hc : t.conn = some c) : Single t c := by
  rcases hm.outstanding hh hi.wire c with hle | ⟨i, call, token, hcall, hpc, hopen, rfl⟩
  · rcases hm.conn_origin hc with hs | hs
    · have hone := hi.single c hs
      refine ⟨(Multiset.card_le_card hle).trans hone.card, ?_⟩
      intro o ho
      obtain ⟨i, call, rfl, haw⟩ := hone.owner o (Multiset.mem_of_le hle ho)
      have hd : t.proc.delivers i = false := by
        by_contra hne
        obtain ⟨h, p, hdel, hint⟩ := delivers_iff.mp (by simpa using hne)
        obtain ⟨k, hk⟩ := Option.ne_none_iff_exists'.mp haw.op
        rcases hi.deliver hm hcur haw.active hk hdel hint with hold | ⟨_, _, hzero⟩
        · have hun := haw.unserved
          rw [delivers_iff.mpr ⟨h, p, hold, hint⟩] at hun
          cases hun
        · simp [hzero c hs] at ho
      obtain ⟨call', haw'⟩ := haw.move hm (by simp [hs]) (by simp [hc]) hd
      exact ⟨i, call', rfl, haw'⟩
    · rw [hi.unopened c (Or.inr hs)] at hle
      exact .of_zero (nonpos_iff_eq_zero.mp hle)
  · have hsum : outstanding ((s.write c (call.op.request i)).setPc i call
        (.wait token (s.now + cfg.responseTimeout))) c =
        if call.op.slot.isSome then {some i} else 0 := by
      rw [outstanding_written, (hi.written hcall hpc hopen).2, zero_add, asked_request]
    by_cases hop : call.op.slot.isSome = true
    · rw [if_pos hop] at hsum
      refine ⟨by rw [hsum]; exact (Multiset.card_singleton _).le, ?_⟩
      intro o ho
      rw [hsum] at ho
      have hslot : call.op.slot ≠ none := Option.isSome_iff_ne_none.mp hop
      obtain ⟨hr, hd⟩ := hi.unsent i call hcall hslot (by rw [hpc]; rfl)
      exact ⟨i, _, Multiset.mem_singleton.mp ho, Function.update_self .., hslot, rfl, hr, hd⟩
    · rw [if_neg hop] at hsum
      exact .of_zero hsum

theorem Corr.unopened_move (hi : Corr s) (hm : Move cfg s a t) (hh : honest s a = true)
    (h : t.nconn ≤ c ∨ t.reader.setup = some c) : outstanding t c = 0 := by
  have hs := hm.unopened h
  rcases hm.outstanding hh hi.wire c with hle | ⟨i, call, token, hcall, hpc, hopen, rfl⟩
  · rw [hi.unopened c hs] at hle
    exact nonpos_iff_eq_zero.mp hle
  · have hconn := (hi.written hcall hpc hopen).1
    rcases hs with hs | hs
    · exact absurd (hi.rounds.wired.conn_open c hconn).1 (Nat.not_lt.mpr hs)
    · rw [hi.rounds.wired.setup_none hconn] at hs
      cases hs

theorem Local.to_write {call : Call} {pc : Pc} {token : UInt64} (hl : Local s call pc)
    (hpc : pc = .write token c) : s.rw = some c := by
  cases hl with
  | someRW hpc' hmu hrw =>
    cases hpc
    exact hrw
  | noConn hpc' hmu hc => cases hop : call.op <;> simp [hop, Op.afterClose] at hpc
  | _ => cases hpc

theorem Shared.not_write {call : Call} {pc : Pc} {token : UInt64} (hs : Shared t call pc) :
    pc ≠ .write token c := by
  intro hpc
  cases hs with
  | abandon hab => cases hop : call.op <;> simp [hop, Op.afterAbandon] at hpc
  | resetEcho hre => cases hop : call.op <;> simp [hop, Op.afterClose] at hpc
  | _ => cases hpc

theorem Ports.move (hi : Ports s) (hw : Wired s) (hm : Move cfg s a t) : Ports t := by
  intro i call' token c hcall' hpc'
  rcases hm.call_origin hcall' with ⟨call, hcall, hadv⟩ | ⟨_, _, hentry, _⟩
  · rcases hadv.pc with hpc | hl | hs
    · obtain ⟨hlt, hc⟩ := hi i call token c hcall (hpc.symm.trans hpc')
      exact hm.retired hw hlt hc
    · have hconn : s.conn = some c := hw.rw_eq.symm.trans (hl.to_write hpc')
      exact hm.retired hw (hw.conn_open c hconn).1 (Or.inl hconn)
    · exact absurd hpc' hs.not_write
  · rw [hpc'] at hentry
    cases hop : call'.op with
    | submit bg funcname data flag cb uid => cases bg <;> simp [hop, Op.entry] at hentry
    | _ => simp [hop, Op.entry] at hentry

theorem RetOk.mono {i : ℕ} {ret : Ret} (h : RetOk s i ret)
    (hans : ∀ x ∈ s.answers, x ∈ t.answers) : RetOk t i ret := by
  cases ret with
  | handle handle => exact hans _ h
  | echo data =>
    obtain ⟨body, hdata, hb⟩ := h
    exact ⟨body, hdata, hans _ hb⟩
  | _ => trivial

theorem Corr.replied (hi : Corr s) {i : ℕ} {call : Call} {p : Packet}
    (hcall : s.calls i = some call) (hr : call.result = some p) :
    RetOk s i (call.op.reply p.resp) := by
  cases hop : call.op with
  | submit bg funcname data flag cb uid =>
    have hright := hi.served i call .created p hcall (by rw [hop]; rfl) (Or.inl hr)
    have htype : p.resp.dataType = dtJobCreated := hright.type
    have hne : p.resp.dataType ≠ dtError := by
      rw [htype]
      decide
    rw [Op.reply, if_neg hne]
    exact (hright.genuine i hright.answers).1 htype
  | echo data =>
    have hright := hi.served i call .echo p hcall (by rw [hop]; rfl) (Or.inl hr)
    exact (hright.genuine i hright.answers).2 hright.type
  | status handle => trivial
  | close => trivial

/-- What a call hands on from a reply, and not an error or the end of `Close`. -/
def Ret.replied : Ret → Bool
  | .handle _ => true
  | .echo _ => true
  | .status _ => true
  | _ => false

theorem afterClose_ret {op : Op} {ret : Ret} (h : op.afterClose.ret = some ret) :
    ret.replied = false := by
  cases op <;> cases h <;> rfl

theorem afterAbandon_ret {op : Op} {ret : Ret} (h : op.afterAbandon.ret = some ret) :
    ret.replied = false := by
  cases op <;> cases h
  rfl

theorem Local.ret {call : Call} {pc : Pc} {ret : Ret} (hl : Local s call pc)
    (h : pc.ret = some ret) (hr : ret.replied = true) :
    ∃ p, call.result = some p ∧ ret = call.op.reply p.resp := by
  cases hl with
  | replied hpc hres =>
    cases h
    exact ⟨_, hres, rfl⟩
  | noConn hpc hmu hc => simp [afterClose_ret h] at hr
  | _ => cases h <;> cases hr

theorem Shared.ret {call : Call} {pc : Pc} {ret : Ret} (hs : Shared t call pc)
    (h : pc.ret = some ret) (hr : ret.replied = true) : call.pc.ret = some ret := by
  cases hs with
  | unlock hpc =>
    rw [hpc]
    exact h
  | abandon hpc => simp [afterAbandon_ret h] at hr
  | resetEcho hpc => simp [afterClose_ret h] at hr
  | cancel hpc =>
    cases h
    cases hr
  | _ => cases h

theorem Move.returns (hm : Move cfg s a t) {i : ℕ} {call' : Call} {ret : Ret}
    (hcall' : t.calls i = some call') (h : call'.pc.ret = some ret) (hr : ret.replied = true) :
    ∃ call, s.calls i = some call ∧ call.op = call'.op ∧
      (call.pc.ret = some ret ∨ ∃ p, call.result = some p ∧ ret = call.op.reply p.resp) := by
  rcases hm.call_origin hcall' with ⟨call, hcall, hadv⟩ | ⟨_, _, hentry, _⟩
  · refine ⟨call, hcall, hadv.op.symm, ?_⟩
    rcases hadv.pc with hpc | hl | hs
    · exact Or.inl (hpc ▸ h)
    · exact Or.inr (hl.ret h hr)
    · exact Or.inl (hs.ret h hr)
  · rw [hentry] at h
    cases hop : call'.op with
    | submit bg funcname data flag cb uid => cases bg <;> simp [hop, Op.entry, Pc.ret] at h
    | _ => simp [hop, Op.entry, Pc.ret] at h

theorem Corr.rets_move (hi : Corr s) (hm : Move cfg s a t) {i : ℕ} {call' : Call} {ret : Ret}
    (hcall' : t.calls i = some call') (h : call'.pc.ret = some ret) : RetOk s i ret := by
  cases hr : ret.replied with
  | true =>
    obtain ⟨call, hcall, -, hold | ⟨p, hres, rfl⟩⟩ := hm.returns hcall' h hr
    · exact hi.rets i call ret hcall hold
    · exact hi.replied hcall hres
  | false =>
    cases ret with
    | err e => trivial
    | closed => trivial
    | _ => cases hr

theorem Corr.move (hi : Corr s) (hm : Move cfg s a t) (hh : honest s a = true)
    (hcur : current s a = true) : Corr t := by
  have hans : ∀ x ∈ s.answers, x ∈ t.answers := fun _ h => hm.answers h
  exact {
    rounds := hi.rounds.move hm
    wire := hi.wire.move hm
    ports := Ports.move hi.ports hi.rounds.wired hm
    unopened := fun c h => hi.unopened_move hm hh h
    single := fun c hc => hi.single_move hm hh hcur hc
    unsent := fun i call hcall hop hpc => hi.unsent_move hm hcur hcall hop hpc
    flight := fun p hp => (hm.genuine hi.wire hi.flight hp).mono hans
    served := fun i call k p hcall hop h =>
      have hright := hi.served_move hm hcur hcall hop h
      ⟨hright.answers, hright.type, hright.genuine.mono hans⟩
    rets := fun i call ret hcall h => (hi.rets_move hm hcall h).mono hans }

theorem outstanding_new (cfg : Cfg) (c : ℕ) : outstanding (new cfg) c = 0 := by
  have hconn : asked ((new cfg).conns c).reqs + sent ((new cfg).conns c).wire = 0 := by
    by_cases hc : c = 0
    · subst hc
      simp only [new, Function.update_self]
      cases cfg.wantExceptions <;> rfl
    · simp only [new, Function.update_of_ne hc]
      rfl
  have hin : replies c (new cfg).inChan = 0 := by
    simp only [new]
    cases cfg.wantExceptions with
    | true => exact replies_marker c 0
    | false => rfl
  rw [outstanding, hconn, hin]
  rfl

theorem wires_new (cfg : Cfg) (c : ℕ) : ((new cfg).conns c).wire = [] := by
  by_cases hc : c = 0
  · subst hc
    simp only [new, Function.update_self]
  · simp only [new, Function.update_of_ne hc]

theorem wireOk_new (cfg : Cfg) : WireOk (new cfg) := by
  intro c f hf
  simp [wires_new cfg c] at hf

theorem inFlight_new {p : Packet} (hp : InFlight (new cfg) p) : p.answers = none := by
  rcases hp with hp | hp | hp
  · cases hp
  · simp only [new] at hp
    cases hw : cfg.wantExceptions <;> simp only [hw] at hp
    · cases hp
    · cases List.mem_singleton.mp hp
      rfl
  · cases hp

theorem corr_new (cfg : Cfg) : Corr (new cfg) := by
  have hnone : ∀ {i call}, (new cfg).calls i ≠ some call := by
    intro i call h
    cases h
  exact {
    rounds := rounds_new cfg
    wire := wireOk_new cfg
    ports := fun _ _ _ _ hcall => absurd hcall hnone
    unopened := fun c _ => outstanding_new cfg c
    single := fun c _ => .of_zero (outstanding_new cfg c)
    unsent := fun _ _ hcall => absurd hcall hnone
    flight := fun p hp j hj => by simp [inFlight_new hp] at hj
    served := fun _ _ _ _ hcall => absurd hcall hnone
    rets := fun _ _ _ hcall => absurd hcall hnone }

theorem Corr.correlated (hi : Corr s) : Correlated s := by
  intro i call hcall
  constructor
  · intro handle hpc
    exact hi.rets i call (.handle handle) hcall (by rw [hpc]; rfl)
  · intro data hpc
    exact hi.rets i call (.echo data) hcall (by rw [hpc]; rfl)

/-- The server keeps to its part, and no reply outlives its connection in `in`. -/
def matched (s : St) (a : Act) : Bool := honest s a && current s a

/-- In every run where no reply of an older connection meets a waiting handler, a call
returns what the server has answered to it. -/
theorem replies_correlated (cfg : Cfg) (t : St)
    (h : Reachable (step cfg) matched (new cfg) t) : Correlated t := by
  have hi : Corr t := h.invariant (corr_new cfg) (by
    intro s a t hi hm hs
    obtain ⟨hh, hcur⟩ := Bool.and_eq_true_iff.mp hm
    exact hi.move (step_move hs) hh hcur)
  exact hi.correlated

def submitA : Op := .submit false [102] [1] 0 none [120]

/-- Call 0 times out and drops the connection, and call 1 is answered on the next one. -/
def retryActs : List Act :=
  [.call 0 submitA, .caller 0, .caller 0, .caller 0, .caller 0, .write 0 none, .reader, .reader,
    .tick 5, .timeout 0, .caller 0, .caller 0, .caller 0, .caller 0, .caller 0,
    .readErr (.read .eof), .reader, .reader, .reader, .dial none, .reader,
    .call 1 submitA, .caller 1, .caller 1, .caller 1, .caller 1, .write 1 none, .reader, .reader,
    .answer 1 0 dtJobCreated [66], .readPacket, .reader, .process, .process, .process, .process,
    .caller 1, .caller 1]

theorem correlated_after_redial :
    ∃ t, Reachable (step demoCfg) matched (new demoCfg) t ∧ t.conn = some 1 ∧
      (∃ call, t.calls 1 = some call ∧ call.pc = .returned (.handle [66])) ∧ Correlated t :=
  ⟨_, ⟨retryActs, rfl⟩, rfl, ⟨_, rfl, rfl⟩, replies_correlated demoCfg _ ⟨retryActs, rfl⟩⟩

/-- `processLoop` is busy while the reply to call 0 is read; call 0 times out and closes the
connection, `readLoop` redials, and call 1 registers before `processLoop` goes on. -/
def lateActs : List Act :=
  [.call 0 submitA, .caller 0, .caller 0, .caller 0, .caller 0, .write 0 none, .reader, .reader,
    .answer 0 0 dtJobCreated [65], .readPacket, .reader,
    .tick 5, .timeout 0, .caller 0, .caller 0, .caller 0, .caller 0, .caller 0,
    .reader, .reader, .reader, .reader, .dial none, .reader,
    .call 1 submitA, .caller 1, .caller 1, .caller 1, .caller 1, .write 1 none,
    .process, .process, .process, .process, .caller 1, .caller 1]

theorem late_reply_misdelivered :
    ∃ t, Reachable (step demoCfg) honest (new demoCfg) t ∧ ¬ Correlated t := by
  have hrun : (run (step demoCfg) honest (new demoCfg) lateActs).map
      (fun t => (t.answers, (t.calls 1).map Call.pc)) =
      some ([(0, dtJobCreated, [65])], some (.returned (.handle [65]))) := rfl
  obtain ⟨t, ht, heq⟩ := Option.map_eq_some_iff.mp hrun
  obtain ⟨hanswers, hcalls⟩ := Prod.mk.inj heq
  obtain ⟨call, hcall, hpc⟩ := Option.map_eq_some_iff.mp hcalls
  refine ⟨t, ⟨lateActs, ht⟩, ?_⟩
  intro h
  have hans := (h 1 call hcall).1 [65] hpc
  simp [hanswers] at hans

end Gearman.Client
