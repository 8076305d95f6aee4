import Gearman.ClientRouting

/-!
# The answer to OPTION_REQ

`connect` writes `OPTION_REQ` first on a new connection and sends a marker down the channel
that the packets of the connection follow, so `processLoop` takes the first packet after a
marker for the answer. The packets of the channel in their order are a run of `follow`: a
marker opens a later connection, and the packets up to the next marker come from it.

The marker has a packet type of its own, which a peer can send too; and `processLoop` may be
behind `connect`, so that it sets the state for a connection that has been replaced.
-/

namespace Gearman.Client
open Bytes Wire Transition

def Packet.isMarker (p : Packet) : Bool := p.resp.dataType = dtOptionSent

def isFirst (log : List Processed) (p : Packet) : Bool :=
  log.all (fun q => q.packet.isMarker || q.packet.conn ≠ p.conn)

def negotiated (s : St) (p : Packet) (first : Bool) : St :=
  if first then
    if p.resp.dataType = dtOptionRes then
      { s with optionPending := false, exceptionsState := .on, proc := .recv }
    else if p.resp.dataType = dtError then
      { s with optionPending := false, exceptionsState := .refused, proc := .recv }
    else { s with optionPending := false, exceptionsState := .refused, proc := .dispatch p }
  else { s with proc := .dispatch p }

def lateError (log : List Processed) (q : Processed) : List Err :=
  if q.packet.resp.dataType = dtError ∧ isFirst log q.packet = false then
    [getError (q.packet.resp.data.getD [])]
  else []

def lateErrorsAfter (before : List Processed) : List Processed → List Err
  | [] => []
  | q :: rest => lateError before q ++ lateErrorsAfter (before ++ [q]) rest

def lateErrors (log : List Processed) : List Err := lateErrorsAfter [] log

/-- No packet of the marker's type comes from the wire. -/
def unforged (_ : St × History) : Act → Bool
  | .answer _ _ dataType _ => dataType ≠ dtOptionSent
  | .push _ dataType _ => dataType ≠ dtOptionSent
  | _ => true

/-- One past the connection whose packets come next, and whether its first is still to come. -/
def follow (h : ℕ × Bool) (p : Packet) : Option (ℕ × Bool) :=
  if p.isMarker then if h.1 ≤ p.conn then some (p.conn + 1, true) else none
  else if p.conn + 1 = h.1 then some (h.1, false) else none

def ProcPc.seen : ProcPc → List Packet
  | .dispatch p => [p]
  | .deliver _ p => [p]
  | _ => []

def ProcPc.waiting : ProcPc → List Packet
  | .got p => [p]
  | _ => []

def behind (s : St) (log : List Processed) : List Packet :=
  log.map Processed.packet ++ s.proc.seen

def ahead (s : St) : List Packet := s.proc.waiting ++ s.inChan ++ s.reader.sending.toList

variable {cfg : Cfg} {s t : St} {a : Act} {x : History} {p : Packet} {q : Processed}
variable {log : List Processed} {ps : List Packet} {m : ℕ} {b : Bool}

theorem lateErrorsAfter_concat (before log : List Processed) (q : Processed) :
    lateErrorsAfter before (log ++ [q]) =
      lateErrorsAfter before log ++ lateError (before ++ log) q := by
  induction log generalizing before with
  | nil => simp [lateErrorsAfter]
  | cons q' log ih =>
    simp only [List.cons_append, lateErrorsAfter, ih, List.append_assoc, List.nil_append]

theorem lateErrors_concat (log : List Processed) (q : Processed) :
    lateErrors (log ++ [q]) = lateErrors log ++ lateError log q :=
  lateErrorsAfter_concat [] log q

theorem follow_marker (h : p.isMarker = true) (hle : m ≤ p.conn) :
    follow (m, b) p = some (p.conn + 1, true) := by
  simp [follow, h, hle]

theorem follow_packet (h : p.isMarker = false) (hc : p.conn + 1 = m) :
    follow (m, b) p = some (m, false) := by
  simp [follow, h, hc]

/-- What `follow` has read: nothing from a later connection, and something from the last one
unless its first packet is still to come. -/
theorem follow_run (h : run follow always (0, false) ps = some (m, b)) :
    (∀ p ∈ ps, p.conn < m) ∧
      (0 < m → (b = true ↔ ∀ p ∈ ps, p.isMarker = true ∨ p.conn + 1 ≠ m)) := by
  induction ps using List.reverseRecOn generalizing m b with
  | nil =>
    cases h
    simp
  | append_singleton ps p ih =>
    obtain ⟨⟨m₀, b₀⟩, h₀, hp⟩ := run_append_iff.mp h
    obtain ⟨-, v, hv, hend⟩ := run_cons_eq_some.mp hp
    cases hend
    obtain ⟨hlt, hiff⟩ := ih h₀
    unfold follow at hv
    split_ifs at hv with hm hle hc <;> cases hv
    · have hbefore : ∀ p' ∈ ps, p'.conn < p.conn := fun p' hp' => (hlt p' hp').trans_le hle
      refine ⟨?_, fun _ => ⟨fun _ => ?_, fun _ => rfl⟩⟩
      · intro p' hp'
        rcases List.mem_append.mp hp' with hp' | hp'
        · exact (hbefore p' hp').trans (Nat.lt_succ_self _)
        · cases List.mem_singleton.mp hp'
          exact Nat.lt_succ_self _
      · intro p' hp'
        rcases List.mem_append.mp hp' with hp' | hp'
        · exact Or.inr (by have := hbefore p' hp'; omega)
        · cases List.mem_singleton.mp hp'
          exact Or.inl hm
    · refine ⟨?_, fun _ => ⟨fun hb => (by cases hb), fun hall => ?_⟩⟩
      · intro p' hp'
        rcases List.mem_append.mp hp' with hp' | hp'
        · exact hlt p' hp'
        · cases List.mem_singleton.mp hp'
          simp only at hc
          omega
      · rcases hall p (List.mem_append_right _ (List.mem_singleton_self p)) with h' | h'
        · exact absurd h' hm
        · exact absurd hc h'

def CleanWires (s : St) : Prop := ∀ c, ∀ f ∈ (s.conns c).wire, f.dataType ≠ dtOptionSent

theorem CleanWires.move (hi : CleanWires s) (hm : Move cfg s a t)
    (hg : unforged (s, x) a = true) : CleanWires t := by
  intro c f hf
  rcases hm.wire hf with hold | ⟨-, hserved⟩
  · exact hi c f hold
  · cases hserved with
    | answer hr hf hans => simpa [unforged] using hg
    | push hf => simpa [unforged] using hg

theorem received_clean (hc : CleanWires s) (hw : WireOk s) {c n : ℕ} {f : Frame}
    {rest : List Frame} {resp : Response} {answers : Option ℕ}
    (hwire : (s.conns c).wire = f :: rest)
    (hd : decodeResponse (frame res f.dataType f.body) = some (.ok (resp, n))) :
    (⟨resp, c, answers⟩ : Packet).isMarker = false := by
  have hmem : f ∈ (s.conns c).wire := by simp [hwire]
  have htype := decodeBody_type (decodeResponse_ok (hw c f hmem).1 hd)
  simpa [Packet.isMarker, htype] using hc c f hmem

structure At (s : St) (h : ℕ) : Prop where
  bound : h ≤ s.nconn
  reads : ∀ c, s.rw = some c ∨ s.reader = .read c → c + 1 = h
  setup : ∀ c, s.reader.setup = some c → h ≤ c ∧ c < s.nconn

def Aligned (s : St) (log : List Processed) : Prop :=
  ∃ m h b, run follow always (0, false) (behind s log) = some (m, s.optionPending) ∧
    run follow always (m, s.optionPending) (ahead s) = some (h, b) ∧ At s h

theorem At.keep {h : ℕ} (hi : At s h) (hn : t.nconn = s.nconn) (hrw : t.rw = s.rw ∨ t.rw = none)
    (hread : ∀ c, t.reader = .read c → s.rw = some c ∨ s.reader = .read c)
    (hsetup : ∀ c, t.reader.setup = some c → s.reader.setup = some c) : At t h := by
  refine ⟨hn ▸ hi.bound, ?_, fun c hc => hn ▸ hi.setup c (hsetup c hc)⟩
  rintro c (hc | hc)
  · rcases hrw with hrw | hrw
    · exact hi.reads c (Or.inl (hrw ▸ hc))
    · simp [hrw] at hc
  · exact hi.reads c (hread c hc)

theorem Aligned.same (hi : Aligned s x.log) (hp : t.proc = s.proc)
    (ho : t.optionPending = s.optionPending) (ha : ahead t = ahead s)
    (hat : ∀ h, At s h → At t h) : Aligned t (x.note s a t).log := by
  obtain ⟨m, h, b, hb, ha', hat'⟩ := hi
  rw [note_same hp]
  refine ⟨m, h, b, ?_, ?_, hat h hat'⟩
  · rwa [ho, behind, hp]
  · rwa [ho, ha]

theorem Aligned.rest (hi : Aligned s x.log) (hp : t.proc = s.proc) (hin : t.inChan = s.inChan)
    (ho : t.optionPending = s.optionPending) (hr : t.reader = s.reader)
    (hn : t.nconn = s.nconn) (hrw : t.rw = s.rw ∨ t.rw = none) :
    Aligned t (x.note s a t).log := by
  refine hi.same hp ho ?_ (fun h hat => ?_)
  · rw [ahead, ahead, hp, hin, hr]
  · exact hat.keep hn hrw (fun c hc => Or.inr (hr ▸ hc)) (fun c => hr ▸ id)

theorem Aligned.reader (hi : Aligned s x.log) (hp : t.proc = s.proc) (hin : t.inChan = s.inChan)
    (ho : t.optionPending = s.optionPending) (hs : s.reader.sending = none)
    (hs' : t.reader.sending = none) (hat : ∀ h, At s h → At t h) :
    Aligned t (x.note s a t).log := by
  refine hi.same hp ho ?_ hat
  rw [ahead, ahead, hp, hin, hs, hs']

theorem Aligned.receive (hi : Aligned s x.log) (hp : t.proc = s.proc) (hin : t.inChan = s.inChan)
    (ho : t.optionPending = s.optionPending) (hs : s.reader.sending = none)
    (hs' : t.reader.sending = some p)
    (hat : ∀ h b, At s h → ∃ h' b', follow (h, b) p = some (h', b') ∧ At t h') :
    Aligned t (x.note s a t).log := by
  obtain ⟨m, h, b, hb, ha, hat'⟩ := hi
  obtain ⟨h', b', hf, hat''⟩ := hat h b hat'
  rw [note_same hp]
  refine ⟨m, h', b', ?_, ?_, hat''⟩
  · rwa [ho, behind, hp]
  · rw [ahead, hs, Option.toList_none, List.append_nil] at ha
    rw [ho, ahead, hp, hin, hs', Option.toList_some]
    exact run_append ha (run_single rfl hf)

theorem Aligned.moved {pc pc' : ProcPc} (hi : Aligned s x.log) (hpc : s.proc = pc)
    (hpc' : t.proc = pc') (hne : pc' ≠ pc)
    (hseen : (if pc' = .recv then pc.current.toList.map Processed.packet else []) ++ pc'.seen =
      pc.seen)
    (hwait : pc'.waiting ++ t.inChan = pc.waiting ++ s.inChan)
    (ho : t.optionPending = s.optionPending) (hr : t.reader = s.reader) (hn : t.nconn = s.nconn)
    (hrw : t.rw = s.rw) : Aligned t (x.note s a t).log := by
  obtain ⟨m, h, b, hb, ha, hat⟩ := hi
  rw [note_moved hpc hpc' hne]
  refine ⟨m, h, b, ?_, ?_, hat.keep hn (Or.inl hrw) (fun c hc => Or.inr (hr ▸ hc))
    (fun c => hr ▸ id)⟩
  · have hbehind : behind t (if pc' = .recv then x.log ++ pc.current.toList else x.log) =
        behind s x.log := by
      rw [behind, behind, hpc, hpc', ← hseen]
      split_ifs <;> simp
    rwa [hbehind, ho]
  · rwa [ho, ahead, hpc', hr, hwait, ← hpc]

theorem Aligned.got (hi : Aligned s x.log) {log : List Processed}
    (ht : t.optionPending = p.isMarker) (hb : behind t log = behind s x.log ++ [p])
    (ha : ahead s = p :: ahead t) (hr : t.reader = s.reader) (hn : t.nconn = s.nconn)
    (hrw : t.rw = s.rw) : Aligned t log := by
  obtain ⟨m, h, b, hb', ha', hat⟩ := hi
  rw [ha] at ha'
  obtain ⟨-, ⟨m', b'⟩, hf, hrest⟩ := run_cons_eq_some.mp ha'
  have hb'' : b' = t.optionPending := by
    rw [ht]
    unfold follow at hf
    split_ifs at hf with hm <;> cases hf <;> simp [hm]
  subst hb''
  refine ⟨m', h, b, ?_, hrest, hat.keep hn (Or.inl hrw) (fun c hc => Or.inr (hr ▸ hc))
    (fun c => hr ▸ id)⟩
  rw [hb]
  exact run_append hb' (run_single rfl hf)

theorem gotStep_pending (s : St) (p : Packet) : (gotStep s p).optionPending = p.isMarker := by
  unfold gotStep Packet.isMarker
  split_ifs with hm hp ho <;> simp_all

theorem ReaderLocal.sending {pc : ReadPc} (hl : ReaderLocal s pc) :
    s.reader.sending = none ∧ pc.sending = none ∧ pc.setup = none := by
  cases hl with
  | closed hpc hmu hc => rcases hpc with hpc | hpc | hpc <;> rw [hpc] <;> exact ⟨rfl, rfl, rfl⟩
  | _ =>
    rename_i hpc _ _
    rw [hpc]
    exact ⟨rfl, rfl, rfl⟩

theorem ReaderLocal.reads {pc : ReadPc} {c : ℕ} (hl : ReaderLocal s pc) (h : pc = .read c) :
    s.rw = some c := by
  cases hl with
  | someRW hpc hmu hrw =>
    cases h
    exact hrw
  | _ => cases h

theorem Aligned.move (hi : Aligned s x.log) (hwant : cfg.wantExceptions = true)
    (hc : CleanWires s) (hw : WireOk s) (hm : Move cfg s a t) : Aligned t (x.note s a t).log := by
  have atEnd : ∀ {h : ℕ}, At s h → t.nconn = s.nconn → (t.rw = s.rw ∨ t.rw = none) →
      t.reader.setup = none → (∀ c, t.reader ≠ .read c) → At t h :=
    fun hat hn hrw hs hr => hat.keep hn hrw (fun c hc => absurd hc (hr c))
      (fun c hc => by simp [hs] at hc)
  cases hm with
  | reader hl =>
    obtain ⟨hs, hs', hsetup⟩ := hl.sending
    refine hi.reader rfl rfl rfl hs hs' (fun h hat => ?_)
    exact hat.keep rfl (Or.inl rfl) (fun c hc => Or.inl (hl.reads hc))
      (fun c hc => by simp [hsetup] at hc)
  | send hpc hin hfull =>
    refine hi.same rfl rfl ?_ (fun h hat => atEnd hat rfl (Or.inl rfl) rfl (by simp))
    rw [ahead, ahead, hpc]
    simp [ReadPc.sending]
  | sendClosed hpc hin => exact hi.rest rfl rfl rfl rfl rfl (Or.inl rfl)
  | readerDrop hpc hmu hc =>
    exact hi.reader rfl rfl rfl (by rw [hpc]; rfl) rfl
      (fun h hat => atEnd hat rfl (Or.inr rfl) rfl (by simp))
  | storePending hpc =>
    refine hi.reader rfl rfl rfl (by rw [hpc]; rfl) rfl (fun h hat => ?_)
    exact hat.keep rfl (Or.inl rfl) (by simp) (fun c hc => by rw [hpc]; exact hc)
  | @publish c hpc hmu hcl =>
    refine hi.receive rfl rfl rfl (by rw [hpc]; rfl)
      (by simp [hwant, ReadPc.sending] : _ = some (optionMarker c)) ?_
    intro h b hat
    obtain ⟨hle, hlt⟩ := hat.setup c (by rw [hpc]; rfl)
    refine ⟨c + 1, true, follow_marker rfl hle, hlt, ?_, ?_⟩
    · rintro c' (hc' | hc')
      · cases hc'
        rfl
      · simp [hwant] at hc'
    · intro c' hc'
      simp [hwant, ReadPc.setup] at hc'
  | @packet c f rest resp n hpc hwire hd =>
    refine hi.receive rfl rfl rfl (by rw [hpc]; rfl) rfl ?_
    intro h b hat
    refine ⟨h, false, follow_packet (received_clean hc hw hwire hd) ?_, ?_⟩
    · exact hat.reads c (Or.inr hpc)
    · exact atEnd hat rfl (Or.inl rfl) rfl (by simp)
  | dialled hpc =>
    refine hi.reader rfl rfl rfl (by rw [hpc]; rfl) (by simp [hwant, ReadPc.sending]) ?_
    intro h hat
    refine ⟨Nat.le_succ_of_le hat.bound, ?_, ?_⟩
    · rintro c (hc | hc)
      · exact hat.reads c (Or.inl hc)
      · simp [hwant] at hc
    · intro c hc
      simp only [hwant, if_true, ReadPc.setup, Option.some.injEq] at hc
      subst hc
      exact ⟨hat.bound, Nat.lt_succ_self _⟩
  | optionSent hpc =>
    refine hi.reader rfl rfl rfl (by rw [hpc]; rfl) rfl (fun h hat => ?_)
    exact hat.keep rfl (Or.inl rfl) (by simp) (fun c hc => by rw [hpc]; exact hc)
  | recv hpc hin => exact hi.moved hpc rfl (by simp) rfl (by rw [hin]; rfl) rfl rfl rfl rfl
  | procExit hpc hin hcl => exact hi.moved hpc rfl (by simp) rfl rfl rfl rfl rfl rfl
  | @got p pending state pc hpc heq hnext =>
    have hpend : pending = p.isMarker :=
      (congrArg St.optionPending heq).symm.trans (gotStep_pending s p)
    rcases hnext with rfl | rfl
    · rw [note_moved hpc rfl (by simp)]
      refine hi.got hpend ?_ ?_ rfl rfl rfl
      · simp [behind, hpc, ProcPc.seen, ProcPc.current]
      · simp [ahead, hpc, ProcPc.waiting]
    · rw [note_moved hpc rfl (by simp)]
      refine hi.got hpend ?_ ?_ rfl rfl rfl
      · simp [behind, hpc, ProcPc.seen]
      · simp [ahead, hpc, ProcPc.waiting]
  | dispatched hpc htype heq => exact hi.moved hpc rfl (by simp) rfl rfl rfl rfl rfl rfl
  | takeStatus hpc htype => exact hi.moved hpc rfl (by simp) rfl rfl rfl rfl rfl rfl
  | take k hpc htype => exact hi.moved hpc rfl (by simp) rfl rfl rfl rfl rfl rfl
  | dropReply hpc hint => exact hi.moved hpc rfl (by simp) rfl rfl rfl rfl rfl rfl
  | deliver hpc hint hcall hr => exact hi.moved hpc rfl (by simp) rfl rfl rfl rfl rfl rfl
  | drop h hpc hmu hc => exact hi.rest rfl rfl rfl rfl rfl (Or.inr rfl)
  | _ => first
    | exact hi.rest rfl rfl rfl rfl rfl (Or.inl rfl)
    | (refine hi.reader rfl rfl rfl ?_ rfl (fun h hat => atEnd hat rfl (Or.inl rfl) rfl (by simp))
       rw [‹s.reader = _›]
       rfl)

theorem aligned_new (hwant : cfg.wantExceptions = true) : Aligned (new cfg) [] := by
  refine ⟨0, 1, true, rfl, ?_, ?_⟩
  · simp only [ahead, new, hwant, if_true]
    rfl
  · refine ⟨Nat.le_refl 1, ?_, fun c hc => by cases hc⟩
    rintro c (hc | hc) <;> cases hc
    rfl

theorem Aligned.first (hi : Aligned s log) (hpc : s.proc = .got p) (hp : p.isMarker = false) :
    s.optionPending = isFirst log p := by
  -- `processLoop` waits for the answer to `OPTION_REQ` just when it has the first packet.
  obtain ⟨m, h, b, hb, ha, -⟩ := hi
  simp only [ahead, hpc, ProcPc.waiting, List.cons_append] at ha
  obtain ⟨-, v, hv, -⟩ := run_cons_eq_some.mp ha
  have hm : p.conn + 1 = m := by
    by_contra hne
    simp [follow, hp, hne] at hv
  subst hm
  rw [Bool.eq_iff_iff, (follow_run hb).2 (Nat.succ_pos _)]
  simp [isFirst, behind, hpc, ProcPc.seen]

theorem gotStep_negotiated (hp : p.isMarker = false) :
    gotStep s p = negotiated s p s.optionPending := by
  have hm : p.resp.dataType ≠ dtOptionSent := by simpa [Packet.isMarker] using hp
  unfold gotStep negotiated
  split_ifs <;> first | rfl | contradiction

theorem Move.exceptions (hm : Move cfg s a t) (hne : t.exceptionsState ≠ s.exceptionsState) :
    (a = .reader ∧ ∃ c, s.reader = .storePending c) ∨ (a = .process ∧ ∃ p, s.proc = .got p) := by
  cases hm with
  | storePending hpc => exact Or.inl ⟨rfl, _, hpc⟩
  | got hpc heq hnext => exact Or.inr ⟨rfl, _, hpc⟩
  | _ => exact absurd rfl hne

theorem dispatchStep_errs (s : St) (p : Packet) : (dispatchStep s p).errs = s.errs ++
    if p.resp.dataType = dtError then [getError (p.resp.data.getD [])] else [] := by
  have hjob : (jobPacket s p).errs = s.errs := by
    unfold jobPacket
    split <;> rfl
  simp only [dispatchStep]
  split_ifs <;> simp [hjob]

structure Told (s : St) (x : History) : Prop where
  told : x.told = lateErrors x.log
  late : ∀ p, s.proc = .dispatch p → p.resp.dataType = dtError → isFirst x.log p = false

theorem Told.rest (hi : Told s x) (hp : t.proc = s.proc) : Told t (x.note s a t) := by
  rw [note_same hp]
  exact ⟨hi.told, fun p hpc => hi.late p (hp ▸ hpc)⟩

theorem Told.goes (hi : Told s x) (hp : t.proc ≠ s.proc) (hr : t.proc ≠ .recv)
    (he : t.errs = s.errs)
    (hlate : ∀ p, t.proc = .dispatch p → p.resp.dataType = dtError → isFirst x.log p = false) :
    Told t (x.note s a t) := by
  rw [note_moved rfl rfl hp, if_neg hr, he, List.drop_length, List.append_nil]
  exact ⟨hi.told, hlate⟩

theorem Told.ends (hi : Told s x) (hp : t.proc ≠ s.proc) (hr : t.proc = .recv)
    (hq : s.proc.current = some q) (he : t.errs = s.errs ++ lateError x.log q) :
    Told t (x.note s a t) := by
  rw [note_moved rfl rfl hp, if_pos hr, he, List.drop_left, hq]
  refine ⟨?_, fun p hpc => ?_⟩
  · rw [hi.told]
    exact (lateErrors_concat x.log q).symm
  · cases hr.symm.trans hpc

theorem lateError_other (h : q.packet.resp.dataType ≠ dtError) : lateError log q = [] :=
  if_neg (fun hc => h hc.1)

theorem Matched.not_error (hi : Matched s) {h : HandledResponse ℕ ℕ}
    (hpc : s.proc = .deliver h p) : p.resp.dataType ≠ dtError :=
  hi.type_of (fun d => d ≠ dtError) hpc (by decide) (fun k => by cases k <;> decide)

theorem Told.got (hi : Told s x) (hal : Aligned s x.log) (hpc : s.proc = .got p)
    (ht : t = gotStep s p) : Told t (x.note s a t) := by
  subst ht
  have hne : (gotStep s p).proc ≠ s.proc := by
    rw [hpc]
    unfold gotStep
    split_ifs <;> simp
  cases hm : p.isMarker with
  | true =>
    have htype : p.resp.dataType = dtOptionSent := by simpa [Packet.isMarker] using hm
    have hstep : gotStep s p = { s with optionPending := true, proc := .recv } := if_pos htype
    refine hi.ends hne (by rw [hstep]) (by rw [hpc]; rfl) ?_
    rw [hstep, lateError_other (by rw [htype]; decide), List.append_nil]
  | false =>
    have hfirst := hal.first hpc hm
    rw [gotStep_negotiated hm, hfirst] at hne ⊢
    unfold negotiated at hne ⊢
    split_ifs at hne ⊢ with hf ho he
    · refine hi.ends hne rfl (by rw [hpc]; rfl) ?_
      rw [lateError_other (by rw [ho]; decide), List.append_nil]
    · refine hi.ends hne rfl (by rw [hpc]; rfl) ?_
      simp [lateError, hf]
    · refine hi.goes hne (by simp) rfl ?_
      rintro p' ⟨⟩ he'
      exact absurd he' he
    · refine hi.goes hne (by simp) rfl ?_
      rintro p' ⟨⟩ -
      simpa using hf

theorem Told.move (hi : Told s x) (hal : Aligned s x.log) (hmt : Matched s)
    (hm : Move cfg s a t) : Told t (x.note s a t) := by
  cases hm with
  | recv hpc hin => exact hi.goes (by simp [hpc]) (by simp) rfl nofun
  | procExit hpc hin hc => exact hi.goes (by simp [hpc]) (by simp) rfl nofun
  | got hpc heq hnext => exact hi.got hal hpc heq.symm
  | @dispatched p errs callbacks rhandlers hpc htype heq =>
    have herrs : errs = (dispatchStep s p).errs := (congrArg St.errs heq).symm
    refine hi.ends (by simp [hpc]) rfl (by rw [hpc]; rfl) ?_
    rw [herrs, dispatchStep_errs]
    by_cases he : p.resp.dataType = dtError
    · simp [lateError, he, hi.late p hpc he]
    · simp [lateError, he]
  | takeStatus hpc htype => exact hi.goes (by simp [hpc]) (by simp) rfl nofun
  | take k hpc htype => exact hi.goes (by simp [hpc]) (by simp) rfl nofun
  | dropReply hpc hint =>
    refine hi.ends (by simp [hpc]) rfl (by rw [hpc]; rfl) ?_
    rw [lateError_other (hmt.not_error hpc), List.append_nil]
  | deliver hpc hint hcall hr =>
    refine hi.ends (by simp [hpc]) rfl (by rw [hpc]; rfl) ?_
    rw [lateError_other (hmt.not_error hpc), List.append_nil]
  | _ => exact hi.rest rfl

structure Trusted (s : St) : Prop where
  rounds : Rounds s
  matched : Matched s
  wires : WireOk s
  clean : CleanWires s

theorem Trusted.move (hi : Trusted s) (hg : unforged (s, x) a = true) (hm : Move cfg s a t) :
    Trusted t :=
  ⟨hi.rounds.move hm, hi.matched.move hi.rounds.status hm, hi.wires.move hm, hi.clean.move hm hg⟩

theorem trusted_new (cfg : Cfg) : Trusted (new cfg) where
  rounds := rounds_new cfg
  matched := matched_new cfg
  wires := wireOk_new cfg
  clean c f hf := by simp [wires_new] at hf

theorem Aligned.run {y : St × History} (hwant : cfg.wantExceptions = true)
    (h : Reachable (traced (step cfg) History.note) unforged (new cfg, {}) y) :
    Aligned y.1 y.2.log ∧ Told y.1 y.2 := by
  have hall : Trusted y.1 ∧ Aligned y.1 y.2.log ∧ Told y.1 y.2 := by
    refine h.invariant (I := fun y => Trusted y.1 ∧ Aligned y.1 y.2.log ∧ Told y.1 y.2)
      ⟨trusted_new cfg, aligned_new hwant, rfl, nofun⟩ ?_
    rintro y act z ⟨hgen, hal, htold⟩ hg hstep
    obtain ⟨hs, hz⟩ := traced_eq_some.mp hstep
    have hm := step_move hs
    rw [hz]
    exact ⟨hgen.move hg hm, hal.move hwant hgen.clean hgen.wires hm,
      htold.move hal hgen.matched hm⟩
  exact hall.2

theorem only_connect_opens_handshake (cfg : Cfg) (hwant : cfg.wantExceptions = true)
    (y : St × History)
    (hy : Reachable (traced (step cfg) History.note) unforged (new cfg, {}) y) :
    (∀ p t, y.1.proc = .got p → p.isMarker = false → step cfg y.1 .process = some t →
      t = negotiated y.1 p (isFirst y.2.log p)) ∧
    (∀ a t, step cfg y.1 a = some t → t.exceptionsState ≠ y.1.exceptionsState →
      (a = .reader ∧ ∃ c, y.1.reader = .storePending c) ∨
      (a = .process ∧ ∃ p, y.1.proc = .got p ∧ p.isMarker = false ∧
        isFirst y.2.log p = true)) ∧
    y.2.told = lateErrors y.2.log := by
  obtain ⟨hal, htold⟩ := Aligned.run hwant hy
  have hgot : ∀ p t, y.1.proc = .got p → p.isMarker = false → step cfg y.1 .process = some t →
      t = negotiated y.1 p (isFirst y.2.log p) := by
    intro p t hpc hp hstep
    simp only [step, processStep, hpc, Option.some.injEq] at hstep
    rw [← hstep, gotStep_negotiated hp, hal.first hpc hp]
  refine ⟨hgot, ?_, htold.told⟩
  intro a t hstep hne
  refine ((step_move hstep).exceptions hne).imp_right ?_
  rintro ⟨rfl, p, hpc⟩
  cases hp : p.isMarker with
  | true =>
    have htype : p.resp.dataType = dtOptionSent := by simpa [Packet.isMarker] using hp
    simp only [step, processStep, hpc, Option.some.injEq] at hstep
    rw [← hstep, gotStep, if_pos htype] at hne
    exact absurd rfl hne
  | false =>
    refine ⟨rfl, p, hpc, hp, ?_⟩
    by_contra hfirst
    rw [hgot p t hpc hp hstep, negotiated, if_neg hfirst] at hne
    exact hne rfl

def exceptionsCfg : Cfg := { wantExceptions := true, responseTimeout := 5 }

def acceptActs : List Act :=
  [.process, .process, .answer 0 0 dtOptionRes optionExceptions] ++ passActs 2

def errorActs (n : ℕ) : List Act := [.push 0 dtError [69, 0, 101]] ++ passActs n

theorem only_connect_opens_handshake_accepted :
    ∃ y, run (traced (step exceptionsCfg) History.note) unforged (new exceptionsCfg, {})
      (acceptActs ++ errorActs 3) = some y ∧ y.1.exceptionsState = .on ∧
      y.1.errs.length = 1 ∧ y.2.told = lateErrors y.2.log := by
  obtain ⟨y, hy, hon, herr⟩ :
      ∃ y, run (traced (step exceptionsCfg) History.note) unforged (new exceptionsCfg, {})
        (acceptActs ++ errorActs 3) = some y ∧ y.1.exceptionsState = .on ∧
        y.1.errs.length = 1 := ⟨_, rfl, rfl, rfl⟩
  exact ⟨y, hy, hon, herr, (only_connect_opens_handshake exceptionsCfg rfl y ⟨_, hy⟩).2.2⟩

/-- A wire packet of the marker's type: the next `ERROR`, the second packet of its connection,
is swallowed and sets the state. -/
theorem wire_packet_opens_handshake :
    ∃ y p t, run (traced (step exceptionsCfg) History.note) always (new exceptionsCfg, {})
      (acceptActs ++ [.push 0 dtOptionSent []] ++ passActs 2 ++ errorActs 1) = some y ∧
      y.1.proc = .got p ∧ p.resp.dataType = dtError ∧ isFirst y.2.log p = false ∧
      step exceptionsCfg y.1 .process = some t ∧ y.1.exceptionsState = .on ∧
      t.exceptionsState = .refused ∧ t.proc = .recv ∧ t.errs = [] :=
  ⟨_, _, _, rfl, rfl, rfl, rfl, rfl, rfl, rfl, rfl, rfl⟩

def exceptionsEnabled (s : St) : Bool := s.exceptionsState = .on

def acknowledged (log : List Processed) (c : ℕ) : Bool :=
  (log.find? (fun q => !q.packet.isMarker && q.packet.conn = c)).any
    (fun q => q.packet.resp.dataType = dtOptionRes)

def ReadPc.prepared : ReadPc → Bool
  | .setConn _ => true
  | _ => false

/-- `processLoop` takes `OPTION_RES` for an answer before `connect` has reset the state for
another connection, and no wire packet has the marker's type. -/
def timely (y : St × History) (a : Act) : Bool :=
  unforged y a &&
    match a, y.1.proc with
    | .process, .got p =>
      !(y.1.optionPending && p.resp.dataType = dtOptionRes) ||
        (!y.1.reader.prepared && (y.1.conn = none || y.1.conn = some p.conn))
    | _, _ => true

theorem acknowledged_concat {c : ℕ} (h : acknowledged log c = true) (q : Processed) :
    acknowledged (log ++ [q]) c = true := by
  unfold acknowledged at h ⊢
  rw [List.find?_append]
  cases hq : log.find? (fun q => !q.packet.isMarker && q.packet.conn = c) with
  | none => simp [hq] at h
  | some q' => simpa [hq] using h

theorem acknowledged_first (hp : p.isMarker = false) (hf : isFirst log p = true)
    (htype : p.resp.dataType = dtOptionRes) :
    acknowledged (log ++ [{ packet := p }]) p.conn = true := by
  have hnone : log.find? (fun q => !q.packet.isMarker && q.packet.conn = p.conn) = none := by
    refine List.find?_eq_none.mpr ?_
    intro q hq
    have := List.all_eq_true.mp hf q hq
    simp only [Bool.or_eq_true, decide_eq_true_eq] at this
    rcases this with hm | hne
    · simp [hm]
    · simp [hne]
  simp [acknowledged, List.find?_append, hnone, hp, htype]

structure Enabled (s : St) (log : List Processed) : Prop where
  ready : s.exceptionsState = .on → s.reader.prepared = false
  acked : ∀ c, s.exceptionsState = .on → s.conn = some c → acknowledged log c = true

theorem Enabled.of_not_on (h : t.exceptionsState ≠ .on) : Enabled t log :=
  ⟨fun hon => absurd hon h, fun _ hon => absurd hon h⟩

theorem Enabled.keep (hi : Enabled s x.log) (hm : Move cfg s a t)
    (he : t.exceptionsState = s.exceptionsState) (hc : t.conn = s.conn ∨ t.conn = none)
    (hr : t.reader = s.reader ∨ t.reader.prepared = false) : Enabled t (x.note s a t).log := by
  refine ⟨fun hon => ?_, fun c hon hconn => ?_⟩
  · rcases hr with hr | hr
    · rw [hr]
      exact hi.ready (he ▸ hon)
    · exact hr
  · rcases hc with hc | hc
    · have hold := hi.acked c (he ▸ hon) (hc ▸ hconn)
      rcases hm.logged x with hlog | ⟨q, hlog, -⟩ <;> rw [hlog]
      · exact hold
      · exact acknowledged_concat hold q
    · cases hc.symm.trans hconn

theorem timely_answer (hg : timely (s, x) .process = true) (hpc : s.proc = .got p)
    (ho : s.optionPending = true) (htype : p.resp.dataType = dtOptionRes) :
    s.reader.prepared = false ∧ ∀ c, s.conn = some c → c = p.conn := by
  simp only [timely, hpc, ho, htype, Bool.and_eq_true] at hg
  have hlate := hg.2
  simp only [Bool.true_and, decide_true, Bool.not_true, Bool.false_or, Bool.and_eq_true,
    Bool.not_eq_true', Bool.or_eq_true, decide_eq_true_eq] at hlate
  refine ⟨hlate.1, fun c hc => ?_⟩
  simpa [hc] using hlate.2

theorem Enabled.got (hi : Enabled s x.log) (hal : Aligned s x.log)
    (hg : timely (s, x) .process = true) (hm : Move cfg s .process t) (hpc : s.proc = .got p)
    (ht : t = gotStep s p) : Enabled t (x.note s .process t).log := by
  cases hp : p.isMarker with
  | true =>
    have htype : p.resp.dataType = dtOptionSent := by simpa [Packet.isMarker] using hp
    rw [gotStep, if_pos htype] at ht
    subst ht
    exact hi.keep hm rfl (Or.inl rfl) (Or.inl rfl)
  | false =>
    have hfirst := hal.first hpc hp
    rw [gotStep_negotiated hp, negotiated] at ht
    split_ifs at ht with hf ho he <;> subst ht
    · obtain ⟨hready, hconn⟩ := timely_answer hg hpc hf ho
      refine ⟨fun _ => hready, fun c _ hc => ?_⟩
      rw [note_moved hpc rfl (by simp), if_pos rfl, hconn c hc]
      exact acknowledged_first hp (hfirst ▸ hf) ho
    · exact .of_not_on (by simp)
    · exact .of_not_on (by simp)
    · exact hi.keep hm rfl (Or.inl rfl) (Or.inl rfl)

theorem Enabled.move (hi : Enabled s x.log) (hal : Aligned s x.log)
    (hwant : cfg.wantExceptions = true) (hg : timely (s, x) a = true) (hm : Move cfg s a t) :
    Enabled t (x.note s a t).log := by
  have hkeep := hi.keep (a := a) hm
  have hm' := hm
  cases hm with
  | reader hl => exact hkeep rfl (Or.inl rfl) (Or.inr (by cases hl <;> rfl))
  | storePending hpc => exact .of_not_on nofun
  | publish hpc hmu hc =>
    refine .of_not_on (fun hon => ?_)
    simpa [hpc, ReadPc.prepared] using hi.ready hon
  | dialled hpc =>
    refine hkeep rfl (Or.inl rfl) (Or.inr ?_)
    simp [hwant, ReadPc.prepared]
  | drop h hpc hmu hc => exact hkeep rfl (Or.inr rfl) (Or.inl rfl)
  | readerDrop hpc hmu hc => exact hkeep rfl (Or.inr rfl) (Or.inr rfl)
  | got hpc heq hnext => exact hi.got hal hg hm' hpc heq.symm
  | _ => first
    | exact hkeep rfl (Or.inl rfl) (Or.inl rfl)
    | exact hkeep rfl (Or.inl rfl) (Or.inr rfl)

structure Unasked (s : St) : Prop where
  off : s.exceptionsState ≠ .on
  pending : s.optionPending = false
  packets : ∀ p, InFlight s p → p.isMarker = false

theorem Unasked.move (hi : Unasked s) (hwant : cfg.wantExceptions = false) (hw : WireOk s)
    (hc : CleanWires s) (hm : Move cfg s a t) : Unasked t := by
  have hpackets : ∀ p, InFlight t p → p.isMarker = false := by
    intro p hp
    rcases hm.inFlight hp with hold | hnew
    · exact hi.packets p hold
    · cases hnew with
      | marker hpc hwant' hp => simp [hwant] at hwant'
      | packet hpc hwire hd hp =>
        rw [hp]
        exact received_clean hc hw hwire hd
  cases hm with
  | storePending hpc => exact ⟨nofun, hi.pending, hpackets⟩
  | @got p pending state pc hpc heq hnext =>
    have hp := hi.packets p (Or.inr (Or.inr (by simp [hpc, ProcPc.holding])))
    rw [gotStep_negotiated hp, hi.pending] at heq
    refine ⟨?_, ?_, hpackets⟩
    · rw [← heq]
      exact hi.off
    · rw [← heq]
      exact hi.pending
  | _ => exact ⟨hi.off, hi.pending, hpackets⟩

theorem unasked_new (hwant : cfg.wantExceptions = false) : Unasked (new cfg) where
  off := nofun
  pending := rfl
  packets p hp := by
    rcases hp with hp | hp | hp
    · cases hp
    · simp [new, hwant] at hp
    · cases hp

def Asked (s : St) (c : ℕ) : Prop := ∃ r ∈ (s.conns c).reqs, r.dataType = dtOptionReq

theorem Asked.conn {c d : ℕ} {conn : Conn} (h : Asked s c)
    (hreqs : c = d → ∀ r ∈ (s.conns d).reqs, ∃ r' ∈ conn.reqs, r'.dataType = r.dataType) :
    Asked (s.setConnAt d conn) c := by
  obtain ⟨r, hr, htype⟩ := h
  by_cases hd : c = d
  · obtain ⟨r', hr', htype'⟩ := hreqs hd r (hd ▸ hr)
    subst hd
    refine ⟨r', ?_, htype'.trans htype⟩
    rwa [setConnAt_self]
  · refine ⟨r, ?_, htype⟩
    rwa [setConnAt_ne hd]

theorem Asked.move {c : ℕ} (h : Asked s c) (hc : c < s.nconn) (hm : Move cfg s a t) :
    Asked t c := by
  have same : ∀ {d : ℕ} {conn : Conn}, conn.reqs = (s.conns d).reqs →
      c = d → ∀ r ∈ (s.conns d).reqs, ∃ r' ∈ conn.reqs, r'.dataType = r.dataType :=
    fun heq _ r hr => ⟨r, heq ▸ hr, rfl⟩
  cases hm with
  | written hcall hpc hopen =>
    exact h.conn (fun _ r hr => ⟨r, List.mem_append_left _ hr, rfl⟩)
  | optionSent hpc => exact h.conn (fun _ r hr => ⟨r, List.mem_append_left _ hr, rfl⟩)
  | dialled hpc => exact h.conn (fun heq => absurd heq hc.ne)
  | @answer d k dataType body r hr hd hlen =>
    refine h.conn (fun _ r' hr' => ?_)
    obtain ⟨n, hn, hget⟩ := List.mem_iff_getElem.mp hr'
    by_cases hk : n = k
    · subst hk
      rw [List.getElem?_eq_getElem hn, hget, Option.some.injEq] at hr
      subst hr
      exact ⟨_, List.mem_set hn _, rfl⟩
    · refine ⟨r', List.mem_iff_getElem.mpr ⟨n, by simpa using hn, ?_⟩, rfl⟩
      rw [List.getElem_set_ne (Ne.symm hk)]
      exact hget
  | _ => first
    | exact h
    | exact h.conn (same rfl)

structure Asks (s : St) : Prop where
  conn : ∀ c, s.conn = some c → Asked s c
  setup : ∀ c, s.reader = .storePending c ∨ s.reader = .setConn c → Asked s c

theorem Asks.move (hi : Asks s) (hw : Wired s) (hwant : cfg.wantExceptions = true)
    (hm : Move cfg s a t) : Asks t := by
  have conn : t.conn = s.conn ∨ t.conn = none → ∀ c, t.conn = some c → Asked t c := by
    rintro (heq | heq) c hc
    · have hold := heq.symm.trans hc
      exact (hi.conn c hold).move (hw.conn_open c hold).1 hm
    · cases heq.symm.trans hc
  have setup : ∀ c, s.reader = .storePending c ∨ s.reader = .setConn c → Asked t c := by
    intro c hc
    refine (hi.setup c hc).move (hw.setup_open c ?_).1 hm
    rcases hc with hc | hc <;> rw [hc] <;> rfl
  cases hm with
  | reader hl => exact ⟨conn (Or.inl rfl), by cases hl <;> simp⟩
  | storePending hpc =>
    refine ⟨conn (Or.inl rfl), ?_⟩
    rintro c (hc | hc) <;> cases hc
    exact setup _ (Or.inl hpc)
  | publish hpc hmu hc =>
    refine ⟨?_, by simp [hwant]⟩
    rintro c ⟨⟩
    exact setup _ (Or.inr hpc)
  | dialled hpc => exact ⟨conn (Or.inl rfl), by simp [hwant]⟩
  | optionSent hpc =>
    refine ⟨conn (Or.inl rfl), ?_⟩
    rintro c (hc | hc) <;> cases hc
    refine ⟨optionRequest, ?_, rfl⟩
    simp [St.write, St.setConnAt]
  | drop h hpc hmu hc => exact ⟨conn (Or.inr rfl), setup⟩
  | readerDrop hpc hmu hc => exact ⟨conn (Or.inr rfl), by simp⟩
  | _ => first
    | exact ⟨conn (Or.inl rfl), setup⟩
    | exact ⟨conn (Or.inl rfl), by simp⟩

theorem asks_new (hwant : cfg.wantExceptions = true) : Asks (new cfg) where
  conn c hc := by
    cases hc
    exact ⟨optionRequest, by simp [new, hwant], rfl⟩
  setup c hc := by rcases hc with hc | hc <;> cases hc

theorem unforged_of_timely (hg : timely (s, x) a = true) : unforged (s, x) a = true :=
  (Bool.and_eq_true_iff.mp hg).1

theorem Enabled.run {y : St × History} (hwant : cfg.wantExceptions = true)
    (h : Reachable (traced (step cfg) History.note) timely (new cfg, {}) y) :
    Enabled y.1 y.2.log ∧ Asks y.1 := by
  have hall : Trusted y.1 ∧ Aligned y.1 y.2.log ∧ Enabled y.1 y.2.log ∧ Asks y.1 := by
    refine h.invariant
      (I := fun y => Trusted y.1 ∧ Aligned y.1 y.2.log ∧ Enabled y.1 y.2.log ∧ Asks y.1)
      ⟨trusted_new cfg, aligned_new hwant, .of_not_on nofun, asks_new hwant⟩ ?_
    rintro y act z ⟨htr, hal, hen, hask⟩ hg hstep
    obtain ⟨hs, hz⟩ := traced_eq_some.mp hstep
    have hm := step_move hs
    rw [hz]
    exact ⟨htr.move (unforged_of_timely hg) hm, hal.move hwant htr.clean htr.wires hm,
      hen.move hal hwant hg hm, hask.move htr.rounds.wired hwant hm⟩
  exact hall.2.2

theorem Unasked.run {y : St × History} (hwant : cfg.wantExceptions = false)
    (h : Reachable (traced (step cfg) History.note) timely (new cfg, {}) y) : Unasked y.1 := by
  have hall : Trusted y.1 ∧ Unasked y.1 := by
    refine h.invariant (I := fun y => Trusted y.1 ∧ Unasked y.1)
      ⟨trusted_new cfg, unasked_new hwant⟩ ?_
    rintro y act z ⟨htr, hun⟩ hg hstep
    have hm := step_move (traced_eq_some.mp hstep).1
    exact ⟨htr.move (unforged_of_timely hg) hm, hun.move hwant htr.wires htr.clean hm⟩
  exact hall.2

theorem exceptions_of_connection (cfg : Cfg) (y : St × History)
    (hy : Reachable (traced (step cfg) History.note) timely (new cfg, {}) y) (c : ℕ)
    (hc : y.1.conn = some c) (he : exceptionsEnabled y.1 = true) :
    (∃ r ∈ (y.1.conns c).reqs, r.dataType = dtOptionReq) ∧ acknowledged y.2.log c = true := by
  have hon : y.1.exceptionsState = .on := by simpa [exceptionsEnabled] using he
  cases hwant : cfg.wantExceptions with
  | true =>
    obtain ⟨hen, hask⟩ := Enabled.run hwant hy
    exact ⟨hask.conn c hc, hen.acked c hon hc⟩
  | false => exact absurd hon (Unasked.run hwant hy).off

def acceptTwiceActs : List Act :=
  acceptActs ++ redialActs ++ [.optionReq none, .reader, .reader, .reader, .process, .process,
    .answer 1 0 dtOptionRes optionExceptions] ++ passActs 2

theorem exceptions_of_connection_redialled :
    ∃ y, run (traced (step exceptionsCfg) History.note) timely (new exceptionsCfg, {})
        acceptTwiceActs = some y ∧ y.1.conn = some 1 ∧ exceptionsEnabled y.1 = true ∧
      acknowledged y.2.log 1 = true := by
  obtain ⟨y, hy, hc, he⟩ : ∃ y, run (traced (step exceptionsCfg) History.note) timely
      (new exceptionsCfg, {}) acceptTwiceActs = some y ∧ y.1.conn = some 1 ∧
      exceptionsEnabled y.1 = true := ⟨_, rfl, rfl, rfl⟩
  exact ⟨y, hy, hc, he, (exceptions_of_connection exceptionsCfg y ⟨_, hy⟩ 1 hc he).2⟩

/-- `readLoop` receives the acknowledgement and loses the connection, and `connect` publishes
the next one before `processLoop` has taken it. -/
def overtakenActs : List Act :=
  [.answer 0 0 dtOptionRes optionExceptions] ++ passActs 0 ++ redialActs ++
    [.optionReq none, .reader, .reader] ++ List.replicate 4 .process

theorem exceptions_of_earlier_connection :
    ∃ y, run (traced (step exceptionsCfg) History.note) always (new exceptionsCfg, {})
      overtakenActs = some y ∧ y.1.conn = some 1 ∧ exceptionsEnabled y.1 = true ∧
      acknowledged y.2.log 1 = false ∧ (y.1.conns 1).reqs = [optionRequest] ∧
      (y.1.conns 1).wire = [] ∧ y.1.inChan = [] :=
  ⟨_, rfl, rfl, rfl, rfl, rfl, rfl, rfl⟩

end Gearman.Client
