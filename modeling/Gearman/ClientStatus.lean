import Mathlib.Data.List.TakeWhile
import Gearman.ClientHistory

/-!
# Whose answer a Status call returns

`STATUS_RES` carries the handle, so `Status` files its handler under the handle, and a call that
times out only removes it: the connection stays, and the answer may still come. While no answer
about a handle can still come when a call registers for it, every `STATUS_RES` for the handle
that reaches `processLoop` is the registered call's own. A second `Status` for the handle of one
that has timed out is given the late answer instead.
-/

namespace Gearman.Client
open Bytes Wire Transition

def handleOf (body : Bytes) : Bytes := body.takeWhile (fun b => b ≠ 0)

/-- A server that answers each `GET_STATUS` of a connection at most once and in order, names the
handle it was asked about, and sends `STATUS_RES` for nothing else. -/
def answersStatus (s : St) : Act → Bool
  | .answer c k dataType body =>
    match (s.conns c).reqs[k]? with
    | none => true
    | some r =>
      dataType ≠ dtStatusRes ||
        (r.dataType = dtGetStatus && !r.answered && (r.body ++ [0]).isPrefixOf body &&
          ((s.conns c).reqs.drop (k + 1)).all
            (fun later => later.dataType ≠ dtGetStatus || !later.answered))
  | .push _ dataType _ => dataType ≠ dtStatusRes
  | _ => true

def ReadPc.reads : ReadPc → Option ℕ
  | .read c => some c
  | _ => none

def readable (s : St) : List ℕ := s.rw.toList ++ s.reader.reads.toList

def flight (s : St) : List Packet := s.reader.sending.toList ++ s.inChan ++ s.proc.holding

/-- The calls whose answer about the handle may still come to `processLoop`. -/
def openQueries (s : St) (handle : Bytes) : List (Option ℕ) :=
  (readable s).flatMap (fun c =>
    ((s.conns c).reqs.filter (fun r =>
      r.dataType = dtGetStatus && !r.answered && handleOf r.body = handle)).map Request.call ++
    ((s.conns c).wire.filter (fun f =>
      f.dataType = dtStatusRes && handleOf f.body = handle)).map Frame.answers) ++
  ((flight s).filter (fun p =>
    p.resp.dataType = dtStatusRes && p.resp.handle = handle)).map Packet.answers

/-- No answer about the handle can still come when a call registers for it. -/
def freshQuery (s : St) (a : Act) : Bool :=
  answersStatus s a &&
    match a with
    | .caller i =>
      match s.calls i with
      | some ⟨.status handle, .register, _⟩ => (openQueries s handle).isEmpty
      | _ => true
    | _ => true

variable {cfg : Cfg} {s t : St} {a : Act} {c i : ℕ} {p : Packet} {handle : Bytes}

inductive OpenQuery (s : St) (handle : Bytes) : Option ℕ → Prop
  | asked {c : ℕ} {r : Request} (hc : c ∈ readable s) (hr : r ∈ (s.conns c).reqs)
      (htype : r.dataType = dtGetStatus) (hans : r.answered = false)
      (hkey : handleOf r.body = handle) : OpenQuery s handle r.call
  | sent {c : ℕ} {f : Frame} (hc : c ∈ readable s) (hf : f ∈ (s.conns c).wire)
      (htype : f.dataType = dtStatusRes) (hkey : handleOf f.body = handle) :
      OpenQuery s handle f.answers
  | flight {p : Packet} (hp : InFlight s p) (htype : p.resp.dataType = dtStatusRes)
      (hkey : p.resp.handle = handle) : OpenQuery s handle p.answers

theorem OpenQuery.mem {o : Option ℕ} (h : OpenQuery s handle o) : o ∈ openQueries s handle := by
  cases h with
  | @asked c r hc hr htype hans hkey =>
    refine List.mem_append_left _ (List.mem_flatMap.mpr ⟨c, hc, List.mem_append_left _ ?_⟩)
    refine List.mem_map.mpr ⟨r, List.mem_filter.mpr ⟨hr, ?_⟩, rfl⟩
    simp [htype, hans, hkey]
  | @sent c f hc hf htype hkey =>
    refine List.mem_append_left _ (List.mem_flatMap.mpr ⟨c, hc, List.mem_append_right _ ?_⟩)
    refine List.mem_map.mpr ⟨f, List.mem_filter.mpr ⟨hf, ?_⟩, rfl⟩
    simp [htype, hkey]
  | @flight p hp htype hkey =>
    refine List.mem_append_right _ (List.mem_map.mpr ⟨p, List.mem_filter.mpr ⟨?_, ?_⟩, rfl⟩)
    · simpa [Client.flight, InFlight, or_assoc, eq_comm] using hp
    · simp [htype, hkey]

theorem handleOf_eq {h : Bytes} (hh : (0 : UInt8) ∉ h) (data : Bytes) :
    handleOf (h ++ 0 :: data) = h := by
  have hall : ∀ b ∈ h, decide (b ≠ 0) = true := by
    intro b hb
    have : b ≠ 0 := fun h0 => hh (h0 ▸ hb)
    simpa using this
  rw [handleOf, List.takeWhile_append_of_pos hall]
  simp

theorem handleOf_answer {h body : Bytes} (hpre : (h ++ [0]).isPrefixOf body = true) :
    handleOf body = handleOf h := by
  obtain ⟨rest, rfl⟩ := List.isPrefixOf_iff_prefix.mp hpre
  rw [List.append_assoc, List.singleton_append]
  by_cases hz : (0 : UInt8) ∈ h
  · obtain ⟨h', r, rfl, hh⟩ := List.eq_append_cons_of_mem hz
    rw [List.append_assoc, List.cons_append, handleOf_eq hh, handleOf_eq hh]
  · rw [handleOf_eq hz]
    refine (List.takeWhile_eq_self_iff.mpr ?_).symm
    intro b hb
    have : b ≠ 0 := fun h0 => hz (h0 ▸ hb)
    simpa using this

theorem decoded_handle {packet body : Bytes} {resp : Response}
    (h : decodeBody packet dtStatusRes body = some (.ok resp)) : resp.handle = handleOf body := by
  by_cases hz : (0 : UInt8) ∈ body
  · obtain ⟨h', r, rfl, hh⟩ := List.eq_append_cons_of_mem hz
    rw [decodeBody_split (by decide) packet hh, Option.some.injEq, Except.ok.injEq] at h
    rw [← h, handleOf_eq hh]
  · have hn := (indexByte_eq_none body).mpr hz
    simp [decodeBody, hn, show splitsHandle dtStatusRes = true from rfl,
      show dtStatusRes ≠ dtJobCreated by decide] at h

theorem mem_readable : c ∈ readable s ↔ s.rw = some c ∨ s.reader = .read c := by
  cases hr : s.reader <;> simp [readable, hr, ReadPc.reads, eq_comm]

theorem Move.readable (hm : Move cfg s a t) (hc : c ∈ readable t) :
    c ∈ readable s ∨ s.reader = .setConn c := by
  rw [mem_readable] at hc ⊢
  cases hm with
  | reader hl =>
    cases hl with
    | someRW hpc hmu hrw =>
      rcases hc with hc | hc
      · exact Or.inl (Or.inl hc)
      · cases hc
        exact Or.inl (Or.inl hrw)
    | _ => exact Or.inl (Or.inl (hc.resolve_right nofun))
  | publish hpc hmu hcl =>
    rcases hc with hc | hc
    · cases hc
      exact Or.inr hpc
    · cases hw : cfg.wantExceptions <;> simp [hw] at hc
  | dialled hpc =>
    refine Or.inl (Or.inl (hc.resolve_right ?_))
    cases cfg.wantExceptions <;> exact nofun
  | drop h hpc hmu hconn => exact Or.inl (Or.inr (hc.resolve_left nofun))
  | readerDrop hpc hmu hconn => exact absurd hc (by simp [St.dropConn])
  | _ => first
    | exact Or.inl hc
    | exact Or.inl (Or.inl (hc.resolve_right nofun))

def Unopened (s : St) : Prop :=
  ∀ c, s.nconn ≤ c ∨ s.reader.setup = some c →
    (∀ r ∈ (s.conns c).reqs, r.dataType ≠ dtGetStatus) ∧
    ∀ f ∈ (s.conns c).wire, f.dataType ≠ dtStatusRes

theorem answersStatus_answer {k : ℕ} {r : Request} {body : Bytes}
    (hg : answersStatus s (.answer c k dtStatusRes body) = true)
    (hr : (s.conns c).reqs[k]? = some r) :
    r.dataType = dtGetStatus ∧ r.answered = false ∧ (r.body ++ [0]).isPrefixOf body = true := by
  simp only [answersStatus, hr, ne_eq, not_true_eq_false, decide_false, Bool.false_or,
    Bool.and_eq_true, decide_eq_true_eq, Bool.not_eq_true'] at hg
  exact ⟨hg.1.1.1, hg.1.1.2, hg.1.2⟩

theorem Unopened.move (hi : Unopened s) (hw : Wired s) (hp : Ports s)
    (hg : answersStatus s a = true) (hm : Move cfg s a t) : Unopened t := by
  intro c hc
  have hc' := hm.unopened hc
  obtain ⟨hreqs, hwire⟩ := hi c hc'
  refine ⟨fun r hr htype => ?_, fun f hf htype => ?_⟩
  · cases hm.posted hr with
    | old hr => exact hreqs r hr htype
    | answered hr' heq => exact hreqs _ hr' (by rw [heq] at htype; exact htype)
    | option heq =>
      rw [heq] at htype
      exact absurd htype (by decide)
    | written hcall hpc hopen heq =>
      obtain ⟨hlt, hconn⟩ := hp _ _ _ c hcall hpc
      have hconn := hconn.resolve_right (by simp [hopen])
      rcases hc' with hle | hset
      · omega
      · have happ : s.reader.apart = true := by
          cases hr : s.reader <;> simp [hr, ReadPc.setup] at hset <;> rfl
        cases (hw.apart happ).symm.trans hconn
  · rcases hm.wire hf with hold | ⟨-, hserved⟩
    · exact hwire f hold htype
    · cases hserved with
      | answer hr hf hans =>
        rw [htype] at hg
        exact hreqs _ (List.mem_of_getElem? hr) (answersStatus_answer hg hr).1
      | push hf => simp [answersStatus, htype] at hg

theorem request_status {op : Op} (h : (op.request i).dataType = dtGetStatus) :
    ∃ handle, op = .status handle := by
  cases op with
  | status handle => exact ⟨handle, rfl⟩
  | submit bg funcname data flag cb uid =>
    simp only [Op.request, submitType] at h
    split_ifs at h <;> exact absurd h (by decide)
  | echo data => exact absurd h (by decide : dtEchoReq ≠ dtGetStatus)
  | close => exact absurd h (by decide : (0 : UInt32) ≠ dtGetStatus)

theorem Move.openQuery (hm : Move cfg s a t) (hu : Unopened s) (hw : WireOk s)
    (hg : answersStatus s a = true) {o : Option ℕ} (h : OpenQuery t handle o) :
    OpenQuery s handle o ∨ ∃ j call token c, o = some j ∧ s.calls j = some call ∧
      call.pc = .write token c := by
  have opened : ∀ {c : ℕ}, c ∈ Client.readable t → (s.reader = .setConn c → False) →
      c ∈ Client.readable s := fun hc hset => (hm.readable hc).resolve_right hset
  have setup : ∀ {c : ℕ}, s.reader = .setConn c →
      (∀ r ∈ (s.conns c).reqs, r.dataType ≠ dtGetStatus) ∧
        ∀ f ∈ (s.conns c).wire, f.dataType ≠ dtStatusRes :=
    fun hset => hu _ (Or.inr (by rw [hset]; rfl))
  cases h with
  | @asked c r hc hr htype hans hkey =>
    cases hm.posted hr with
    | old hr =>
      exact Or.inl (.asked (opened hc (fun hset => (setup hset).1 r hr htype)) hr htype hans hkey)
    | answered hr' heq => simp [heq] at hans
    | option heq =>
      rw [heq] at htype
      exact absurd htype (by decide)
    | @written j call token hcall hpc hopen heq =>
      rw [heq] at htype
      obtain ⟨handle', hop⟩ := request_status htype
      exact Or.inr ⟨j, call, token, c, by rw [heq, hop]; rfl, hcall, hpc⟩
  | @sent c f hc hf htype hkey =>
    rcases hm.wire hf with hold | ⟨-, hserved⟩
    · exact Or.inl (.sent (opened hc (fun hset => (setup hset).2 f hold htype)) hold htype hkey)
    · cases hserved with
      | answer hr hfor hans =>
        rw [htype] at hg
        obtain ⟨htype', hans', hpre⟩ := answersStatus_answer hg hr
        have hmem := List.mem_of_getElem? hr
        rw [hfor]
        refine Or.inl (.asked (opened hc (fun hset => (setup hset).1 _ hmem htype')) hmem htype'
          hans' ?_)
        rw [← handleOf_answer hpre, hkey]
      | push hfor => simp [answersStatus, htype] at hg
  | @flight p hp htype hkey =>
    rcases hm.inFlight hp with hold | hnew
    · exact Or.inl (.flight hold htype hkey)
    · cases hnew with
      | marker hpc hwant heq =>
        rw [heq] at htype
        exact absurd htype (by decide : dtOptionSent ≠ dtStatusRes)
      | @packet c n f rest resp hpc hwire hd heq =>
        subst heq
        have hmem : f ∈ (s.conns c).wire := by simp [hwire]
        have hb := decodeResponse_ok (hw c f hmem).1 hd
        have hf : f.dataType = dtStatusRes := (decodeBody_type hb).symm.trans htype
        rw [hf] at hb
        refine Or.inl (.sent (mem_readable.mpr (Or.inr hpc)) hmem hf ?_)
        rw [← decoded_handle hb, hkey]

def Pc.registered : Pc → Bool
  | .getRW _ => true
  | .write _ _ => true
  | .cancel _ _ => true
  | .wait _ _ => true
  | .abandon _ => true
  | _ => false

structure Queries (s : St) (handle : Bytes) (i : ℕ) (call : Call) : Prop where
  active : s.calls i = some call
  op : call.op = .status handle
  pc : call.pc.registered = true
  result : call.result = none
  unserved : s.proc.delivers i = false

theorem Queries.holds {call : Call} (h : Queries s handle i call) : call.holds = true := by
  have hpc := h.pc
  unfold Call.holds
  cases hc : call.pc <;> rw [hc] at hpc <;> first | rfl | cases hpc

def Pc.forgets : Pc → Bool
  | .cancel _ _ => true
  | .abandon _ => true
  | _ => false

theorem Queries.local {call : Call} {pc : Pc} (h : Queries s handle i call)
    (hl : Local s call pc) : pc.registered = true := by
  have hpc := h.pc
  cases hl with
  | replied hpc' hr => simp [h.result] at hr
  | _ => first
    | rfl
    | (rw [‹call.pc = _›] at hpc
       cases hpc)

theorem Queries.shared {call : Call} {pc : Pc} (h : Queries s handle i call)
    (hs : Shared t call pc) (hf : call.pc.forgets = false) : pc.registered = true := by
  have hpc := h.pc
  cases hs with
  | cancel hpc' =>
    rw [hpc'] at hf
    cases hf
  | abandon hpc' =>
    rw [hpc'] at hf
    cases hf
  | _ => first
    | rfl
    | (rw [‹call.pc = _›] at hpc
       cases hpc)

theorem Queries.move {call : Call} (h : Queries s handle i call) (hm : Move cfg s a t)
    (hstay : call.pc.forgets = true → t.calls i = s.calls i) (hd : t.proc.delivers i = false) :
    ∃ call', Queries t handle i call' := by
  obtain ⟨call', hcall', hadv⟩ := hm.call h.active
  refine ⟨call', hcall', hadv.op.trans h.op, ?_, (hadv.unserved h.unserved).trans h.result, hd⟩
  cases hf : call.pc.forgets with
  | true =>
    have heq := (hstay hf).symm.trans hcall'
    cases Option.some.inj (h.active.symm.trans heq)
    exact h.pc
  | false =>
    rcases hadv.pc with heq | hl | hs
    · rw [heq]
      exact h.pc
    · exact h.local hl
    · exact h.shared hs hf

def Registered (s : St) : Prop :=
  ∀ handle i, s.handlers.status.lookup handle = some i → ∃ call, Queries s handle i call

structure Registers (s t : St) (handle : Bytes) (i : ℕ) (call : Call) : Prop where
  active : s.calls i = some call
  op : call.op = .status handle
  pc : call.pc = .register
  next : ∃ token, t.calls i = some { call with pc := .getRW token }
  proc : t.proc = s.proc

theorem Move.lookup (hm : Move cfg s a t) (h : t.handlers.status.lookup handle = some i) :
    s.handlers.status.lookup handle = some i ∨
      (a = .caller i ∧ ∃ call, Registers s t handle i call) := by
  cases hm with
  | register hcall hpc =>
    refine (Handlers.register_status h).imp_right ?_
    rintro ⟨rfl, hop⟩
    exact ⟨rfl, _, hcall, hop, hpc, ⟨_, Function.update_self ..⟩, rfl⟩
  | cancel hcall hpc => exact Or.inl (Handlers.cancel_status h)
  | abandon hcall hpc => exact Or.inl (Handlers.giveUp_status h)
  | takeStatus hpc htype => exact Or.inl (Handlers.lookup_erase_some h)
  | take k hpc htype => cases k <;> exact Or.inl h
  | _ => exact Or.inl h

theorem Local.forgets {call : Call} {pc : Pc} (hl : Local s call pc) :
    call.pc.forgets = false := by
  cases hl <;> rw [‹call.pc = _›] <;> rfl

theorem Move.stays (hm : Move cfg s a t) {call : Call} (hcall : s.calls i = some call)
    (hop : call.op = .status handle) (hd : s.proc.delivers i = false)
    (h : t.handlers.status.lookup handle = some i) (hf : call.pc.forgets = true) :
    t.calls i = s.calls i := by
  have other : ∀ {j : ℕ} {old : Call} {pc : Pc} {v : Option Call}, s.calls j = some old →
      old.pc = pc → pc.forgets = false → Function.update s.calls j v i = s.calls i := by
    intro j old pc v hold hpc hfalse
    refine Function.update_of_ne ?_ _ _
    rintro rfl
    cases Option.some.inj (hcall.symm.trans hold)
    simp [hpc, hfalse] at hf
  -- the call's own entry is erased in the step, so another call has taken it
  have own : ∀ {j : ℕ} {old : Call} {v : Option Call}, s.calls j = some old →
      (old.op = .status handle →
        t.handlers.status = s.handlers.status.erase handle) →
      Function.update s.calls j v i = s.calls i := by
    intro j old v hold herase
    refine Function.update_of_ne ?_ _ _
    rintro rfl
    cases Option.some.inj (hcall.symm.trans hold)
    rw [herase hop, AList.lookup_erase] at h
    cases h
  cases hm with
  | begin j op hj =>
    refine Function.update_of_ne ?_ _ _
    rintro rfl
    simp [hj] at hcall
  | pc hj hl => exact other hj rfl hl.forgets
  | cancel hj hpc => exact own hj (fun hop' => by rw [hop']; rfl)
  | abandon hj hpc => exact own hj (fun hop' => by rw [hop']; rfl)
  | deliver hpc hint hj hr =>
    refine Function.update_of_ne ?_ _ _
    rintro rfl
    simp [hpc, ProcPc.delivers, hint] at hd
  | _ => first
    | rfl
    | exact other (by assumption) (by assumption) rfl

theorem Registered.unserved (hi : Registered s) (hr : Rounds s) (hm : Move cfg s a t)
    (hl : s.handlers.status.lookup handle = some i)
    (h : t.handlers.status.lookup handle = some i) : t.proc.delivers i = false := by
  obtain ⟨call, hq⟩ := hi handle i hl
  by_contra hne
  obtain ⟨hd, p, hpc, hint⟩ := delivers_iff.mp (by simpa using hne)
  have hold : s.proc ≠ .deliver hd p := by
    intro hpc
    have hserved := delivers_iff.mpr ⟨hd, p, hpc, hint⟩
    simp [hq.unserved] at hserved
  cases hm with
  | got hpc' heq hnext => rcases hnext with rfl | rfl <;> cases hpc
  | takeStatus hpc' htype =>
    cases hpc
    obtain ⟨call', hq'⟩ := hi p.resp.handle i hint
    cases Option.some.inj (hq.active.symm.trans hq'.active)
    cases hq.op.symm.trans hq'.op
    simp [StatusHandlers.cancel] at h
  | take k hpc' htype =>
    cases hpc
    obtain ⟨call', e, ho, -⟩ := (hr.queue k).take hint
    cases Option.some.inj (hq.active.symm.trans ho.active)
    have hop := ho.op
    simp [hq.op, Op.slot] at hop
  | _ => first
    | exact hold hpc
    | cases hpc

theorem Registered.move (hi : Registered s) (hr : Rounds s) (hm : Move cfg s a t) :
    Registered t := by
  intro handle i hl
  rcases hm.lookup hl with hold | ⟨-, call, hreg⟩
  · obtain ⟨call, hq⟩ := hi handle i hold
    exact hq.move hm (hm.stays hq.active hq.op hq.unserved hl) (hi.unserved hr hm hold hl)
  · obtain ⟨hres, hun⟩ := hr.fresh.early i call hreg.active (by rw [hreg.pc]; rfl)
    obtain ⟨token, hnext⟩ := hreg.next
    exact ⟨_, hnext, hreg.op, rfl, hres, by rw [hreg.proc]; exact hun⟩

def Sole (s : St) : Prop :=
  ∀ handle i, s.handlers.status.lookup handle = some i → ∀ o, OpenQuery s handle o → o = some i

theorem freshQuery_register {call : Call} (hg : freshQuery s (.caller i) = true)
    (hcall : s.calls i = some call) (hop : call.op = .status handle) (hpc : call.pc = .register) :
    openQueries s handle = [] := by
  obtain ⟨op, pc, result⟩ := call
  simp only at hop hpc
  subst hop hpc
  simpa [freshQuery, answersStatus, hcall] using hg

theorem Sole.move (hi : Sole s) (hreg : Registered s) (hr : Rounds s) (hu : Unopened s)
    (hw : WireOk s) (hg : freshQuery s a = true) (hm : Move cfg s a t) : Sole t := by
  intro handle i hl o ho
  have hg' : answersStatus s a = true := (Bool.and_eq_true_iff.mp hg).1
  rcases hm.openQuery hu hw hg' ho with hold | ⟨j, writer, token, c, rfl, hwriter, hwpc⟩
  · rcases hm.lookup hl with hls | ⟨rfl, call, hnew⟩
    · exact hi handle i hls o hold
    · have hmem := hold.mem
      rw [freshQuery_register hg hnew.active hnew.op hnew.pc] at hmem
      cases hmem
  · -- the writer and the registered call both hold the client's mutex
    have hj : s.mutex = some j := hr.locks.mutex j writer hwriter (by simp [Call.holds, hwpc])
    have hmine : s.mutex = some i := by
      rcases hm.lookup hl with hls | ⟨-, call, hnew⟩
      · obtain ⟨call, hq⟩ := hreg handle i hls
        exact hr.locks.mutex i call hq.active hq.holds
      · exact hr.locks.mutex i call hnew.active (by simp [Call.holds, hnew.pc])
    exact hj.symm.trans hmine

def Parsed (s : St) (i : ℕ) (resp : Response) : Prop :=
  ∃ body n, (i, dtStatusRes, body) ∈ s.answers ∧
    decodeResponse (frame res dtStatusRes body) = some (.ok (resp, n))

theorem Parsed.move {resp : Response} (h : Parsed s i resp) (hm : Move cfg s a t) :
    Parsed t i resp := by
  obtain ⟨body, n, hans, hd⟩ := h
  exact ⟨body, n, hm.answers hans, hd⟩

structure Informed (s : St) : Prop where
  flight : ∀ p j, InFlight s p → p.resp.dataType = dtStatusRes → p.answers = some j →
    Parsed s j p.resp
  deliver : ∀ h p i, s.proc = .deliver h p → p.resp.dataType = dtStatusRes →
    h.internal = some i → Parsed s i p.resp
  result : ∀ i call handle p, s.calls i = some call → call.op = .status handle →
    call.result = some p → Parsed s i p.resp
  rets : ∀ i call resp, s.calls i = some call → call.pc.ret = some (.status resp) →
    Parsed s i resp

theorem Received.parsed (h : Received cfg s p) (hw : WireOk s)
    (htype : p.resp.dataType = dtStatusRes) (hans : p.answers = some i) :
    Parsed s i p.resp := by
  cases h with
  | marker hpc hwant hp =>
    rw [hp] at hans
    cases hans
  | @packet c n f rest resp hpc hwire hd hp =>
    subst hp
    have hmem : f ∈ (s.conns c).wire := by simp [hwire]
    obtain ⟨hlen, hsent⟩ := hw c f hmem
    have hf : f.dataType = dtStatusRes :=
      (decodeBody_type (decodeResponse_ok hlen hd)).symm.trans htype
    have hsent := hsent i hans
    rw [hf] at hd hsent
    exact ⟨f.body, n, hsent, hd⟩

theorem Matched.status_type (hi : Matched s) {h : HandledResponse ℕ ℕ} {call : Call}
    (hpc : s.proc = .deliver h p) (hint : h.internal = some i) (hcall : s.calls i = some call)
    (hop : call.op = .status handle) : p.resp.dataType = dtStatusRes := by
  obtain ⟨call', hcall', -, hslot⟩ := hi.deliver h p i hpc hint
  cases Option.some.inj (hcall.symm.trans hcall')
  rcases hi.type h p hpc with ht | ⟨k, ht⟩
  · exact ht
  · have := (hslot k).mpr ht
    simp [hop, Op.slot] at this

theorem reply_status {op : Op} {resp resp' : Response} (h : .status resp = op.reply resp') :
    resp = resp' ∧ ∃ handle, op = .status handle := by
  cases op with
  | status handle =>
    cases h
    exact ⟨rfl, handle, rfl⟩
  | submit bg funcname data flag cb uid =>
    simp only [Op.reply] at h
    split_ifs at h
  | _ => cases h

theorem Informed.move (hi : Informed s) (hs : Sole s) (hmt : Matched s) (hw : WireOk s)
    (hm : Move cfg s a t) : Informed t where
  flight p j hp htype hans := by
    rcases hm.inFlight hp with hold | hnew
    · exact (hi.flight p j hold htype hans).move hm
    · exact (hnew.parsed hw htype hans).move hm
  deliver h p i hpc htype hint := by
    rcases hm.delivering hpc with hold | ⟨-, hdis, -, hl | ⟨k, hk, -⟩⟩
    · exact (hi.deliver h p i hold htype hint).move hm
    · have hp : InFlight s p := Or.inr (Or.inr (by simp [hdis, ProcPc.holding]))
      have hown := hs p.resp.handle i (hl.symm.trans hint) _ (.flight hp htype rfl)
      exact (hi.flight p i hp htype hown).move hm
    · exact absurd (htype.symm.trans hk) (by cases k <;> decide)
  result i call' handle p hcall' hop hres := by
    rcases hm.call_origin hcall' with ⟨call, hcall, hadv⟩ | ⟨-, hnone, -⟩
    · have hop' := hadv.op.symm.trans hop
      rcases hadv.result with heq | ⟨h, p', hpc, hint, hp'⟩
      · exact (hi.result i call handle p hcall hop' (heq.symm.trans hres)).move hm
      · cases Option.some.inj (hp'.symm.trans hres)
        have htype := hmt.status_type hpc hint hcall hop'
        exact (hi.deliver h p i hpc htype hint).move hm
    · simp [hnone] at hres
  rets i call' resp hcall' hret := by
    obtain ⟨call, hcall, -, hold | ⟨p, hres, heq⟩⟩ := hm.returns hcall' hret rfl
    · exact (hi.rets i call resp hcall hold).move hm
    · obtain ⟨rfl, handle, hop⟩ := reply_status heq
      exact (hi.result i call handle p hcall hop hres).move hm

structure Polled (s : St) : Prop where
  rounds : Rounds s
  matched : Matched s
  wires : WireOk s
  ports : Ports s
  unopened : Unopened s
  registered : Registered s
  sole : Sole s
  informed : Informed s

theorem Polled.move (hi : Polled s) (hg : freshQuery s a = true) (hm : Move cfg s a t) :
    Polled t where
  rounds := hi.rounds.move hm
  matched := hi.matched.move hi.rounds.status hm
  wires := hi.wires.move hm
  ports := hi.ports.move hi.rounds.wired hm
  unopened := hi.unopened.move hi.rounds.wired hi.ports (Bool.and_eq_true_iff.mp hg).1 hm
  registered := hi.registered.move hi.rounds hm
  sole := hi.sole.move hi.registered hi.rounds hi.unopened hi.wires hg hm
  informed := hi.informed.move hi.sole hi.matched hi.wires hm

theorem polled_new (cfg : Cfg) : Polled (new cfg) where
  rounds := rounds_new cfg
  matched := matched_new cfg
  wires := wireOk_new cfg
  ports i call token c hcall := by cases hcall
  unopened c hc := by
    refine ⟨fun r hr => ?_, fun f hf => by simp [wires_new cfg c] at hf⟩
    have hne : c ≠ 0 := by
      rintro rfl
      exact hc.elim (fun h => absurd h (by decide : ¬ 1 ≤ 0)) nofun
    simp [new, Function.update_of_ne hne] at hr
  registered handle i h := by cases h
  sole handle i h := by cases h
  informed :=
    { flight := fun p j hp _ hans => by simp [inFlight_new hp] at hans
      deliver := fun h p i hpc => by cases hpc
      result := fun i call handle p hcall => by cases hcall
      rets := fun i call resp hcall => by cases hcall }

theorem status_of_own_query (cfg : Cfg) (s : St)
    (hs : Reachable (step cfg) freshQuery (new cfg) s) (i : ℕ) (call : Call) (resp : Response)
    (status : Status) (hcall : s.calls i = some call)
    (hpc : call.pc = .returned (.status resp)) (hst : resp._status = (some status, none)) :
    ∃ body resp' n, (i, dtStatusRes, body) ∈ s.answers ∧
      decodeResponse (frame res dtStatusRes body) = some (.ok (resp', n)) ∧
      resp'._status = (some status, none) := by
  have hi : Polled s := hs.invariant (polled_new cfg)
    (fun s a t hi hg hstep => hi.move hg (step_move hstep))
  obtain ⟨body, n, hans, hd⟩ := hi.informed.rets i call resp hcall (by rw [hpc]; rfl)
  exact ⟨body, resp, n, hans, hd, hst⟩

def statusActs (i : ℕ) : List Act :=
  [.call i (.status [72]), .caller i, .caller i, .caller i, .caller i, .write i none]

/-- The server answers the request `k` on connection `c`: known, running, 5 of 9. -/
def statusResActs (c k : ℕ) : List Act :=
  [.answer c k dtStatusRes [72, 0, 49, 0, 49, 0, 53, 0, 57], .reader, .reader, .readPacket,
    .reader, .process, .process, .process, .process]

def fiveOfNine : Status :=
  { handle := [72], known := true, running := true, numerator := 5, denominator := 9 }

def statusRetryActs : List Act :=
  statusActs 0 ++ [.tick 5, .timeout 0, .caller 0, .caller 0] ++ redialActs ++ [.reader] ++
    statusActs 1 ++ statusResActs 1 0 ++ [.caller 1, .caller 1]

theorem status_of_own_query_redialled :
    ∃ s call resp, run (step demoCfg) freshQuery (new demoCfg) statusRetryActs = some s ∧
      s.conn = some 1 ∧ s.calls 1 = some call ∧ call.pc = .returned (.status resp) ∧
      ∃ body resp' n, (1, dtStatusRes, body) ∈ s.answers ∧
        decodeResponse (frame res dtStatusRes body) = some (.ok (resp', n)) ∧
        resp'._status = (some fiveOfNine, none) := by
  obtain ⟨s, call, resp, hrun, hconn, hcall, hpc, hst⟩ :
      ∃ s call resp, run (step demoCfg) freshQuery (new demoCfg) statusRetryActs = some s ∧
        s.conn = some 1 ∧ s.calls 1 = some call ∧ call.pc = .returned (.status resp) ∧
        resp._status = (some fiveOfNine, none) := ⟨_, _, _, rfl, rfl, rfl, rfl, rfl⟩
  exact ⟨s, call, resp, hrun, hconn, hcall, hpc,
    status_of_own_query demoCfg s ⟨_, hrun⟩ 1 call resp fiveOfNine hcall hpc hst⟩

/-- The first `Status` times out, the second is given its late answer. -/
theorem status_of_earlier_query :
    ∃ s call resp, run (step demoCfg) answersStatus (new demoCfg)
      (statusActs 0 ++ [.tick 5, .timeout 0, .caller 0, .caller 0] ++ statusActs 1 ++
        statusResActs 0 0 ++ [.caller 1, .caller 1]) = some s ∧
      s.calls 1 = some call ∧ call.op = .status [72] ∧ call.pc = .returned (.status resp) ∧
      resp._status = (some fiveOfNine, none) ∧ ∀ body, (1, dtStatusRes, body) ∉ s.answers := by
  obtain ⟨s, call, resp, hrun, hcall, hop, hpc, hst, hans⟩ :
      ∃ s call resp, run (step demoCfg) answersStatus (new demoCfg)
        (statusActs 0 ++ [.tick 5, .timeout 0, .caller 0, .caller 0] ++ statusActs 1 ++
          statusResActs 0 0 ++ [.caller 1, .caller 1]) = some s ∧
        s.calls 1 = some call ∧ call.op = .status [72] ∧ call.pc = .returned (.status resp) ∧
        resp._status = (some fiveOfNine, none) ∧
        s.answers = [(0, dtStatusRes, [72, 0, 49, 0, 49, 0, 53, 0, 57])] :=
    ⟨_, _, _, rfl, rfl, rfl, rfl, rfl, rfl⟩
  refine ⟨s, call, resp, hrun, hcall, hop, hpc, hst, ?_⟩
  intro body hmem
  simp [hans] at hmem

end Gearman.Client
