import Gearman.ClientMachine
import Gearman.Framing

/-!
# readLoop on the bytes of one connection

One iteration reads a packet and decodes it. A packet that does not decode is
reported and the loop goes on; only a failed read gives the connection up. The
results are about any number of whole packets at the front of what the connection
still delivers, in any chunking. `readPacket_step` ties an iteration to the step
the interleaving model takes for the same packet.
-/

namespace Gearman.Client
open Bytes Wire Bufio Framing

inductive Event
  | push (resp : Response)
  | report (err : Err)
  | lost (err : Err)
deriving DecidableEq, Repr

def readLoopStep (r : Reader) : Option (Event × Reader) :=
  match readPacket r with
  | none => none
  | some (.error err, r) => some (.lost err, r)
  | some (.ok packet, r) =>
    match decodeResponse packet with
    | none => none
    | some (.error err) => some (.report err, r)
    | some (.ok (resp, _)) => some (.push resp, r)

def readLoopRun : ℕ → Reader → Option (List Event × Reader)
  | 0, r => some ([], r)
  | n + 1, r => do
    let (event, r) ← readLoopStep r
    let (events, r) ← readLoopRun n r
    return (event :: events, r)

inductive Outcome (packet : Bytes) : Event → Prop
  | push {resp : Response} {l : ℕ} (h : decodeResponse packet = some (.ok (resp, l))) :
      Outcome packet (.push resp)
  | report {err : Err} (h : decodeResponse packet = some (.error err)) :
      Outcome packet (.report err)

/-- How the body of a decoded packet is found again in the response. -/
def Recovers (dataType : UInt32) (body : Bytes) (resp : Response) : Prop :=
  resp.dataType = dataType ∧
  if dataType = dtJobCreated then body = resp.handle
  else if splitsHandle dataType then
    ∃ data, resp.data = some data ∧ (0 : UInt8) ∉ resp.handle ∧ body = resp.handle ++ 0 :: data
  else if dataType = dtWorkFail then resp.handle = body.takeWhile (· ≠ 0)
  else resp.data = some body ∧ resp.handle = []

theorem takeWhile_append {a : Bytes} (h : (0 : UInt8) ∉ a) (r : Bytes) :
    (a ++ r).takeWhile (· ≠ 0) = a ++ r.takeWhile (· ≠ 0) :=
  List.takeWhile_append_of_pos (fun x hx => by
    have hne : x ≠ 0 := fun h0 => h (h0 ▸ hx)
    simpa using hne)

theorem decodeBody_workFail_split (packet : Bytes) {a : Bytes} (ha : (0 : UInt8) ∉ a) (r : Bytes) :
    decodeBody packet dtWorkFail (a ++ 0 :: r) =
      some (.ok { dataType := dtWorkFail, handle := a }) := by
  have hs : slice (a ++ 0 :: r) 0 a.length = some a := slice_front _ _ rfl
  simp only [decodeBody, if_neg (show dtWorkFail ≠ dtJobCreated by decide),
    show splitsHandle dtWorkFail = false from rfl, Bool.false_eq_true, if_false, if_true,
    indexByte_append a r ha, hs, Option.bind_eq_bind, Option.bind_some, Option.pure_def]

/-- Every body is rejected for want of a separator or decoded so that it can be
found again; the split is by the packet's type and then by its separators. -/
theorem decodeBody_cases (packet : Bytes) (dataType : UInt32) (body : Bytes) :
    (splitsHandle dataType = true ∧ (0 : UInt8) ∉ body ∧
      decodeBody packet dataType body = some (.error (invalidData packet))) ∨
    ¬ (splitsHandle dataType = true ∧ (0 : UInt8) ∉ body) ∧
      ∃ resp, decodeBody packet dataType body = some (.ok resp) ∧ Recovers dataType body resp := by
  by_cases hc : dataType = dtJobCreated
  · subst hc
    refine Or.inr ⟨fun h => absurd h.1 (by decide), { dataType := dtJobCreated, handle := body },
      ?_, rfl, ?_⟩
    · simp [decodeBody]
    · simp
  by_cases hs : splitsHandle dataType = true
  · rcases split_cases 0 body with h | ⟨handle, data, rfl, hh⟩
    · exact Or.inl ⟨hs, h, decodeBody_unsplit hs packet h⟩
    · refine Or.inr ⟨fun h => absurd h.2 (by simp), _, decodeBody_split hs packet hh data, rfl, ?_⟩
      rw [if_neg hc, if_pos hs]
      exact ⟨data, rfl, hh, rfl⟩
  by_cases hf : dataType = dtWorkFail
  · subst hf
    right
    refine ⟨fun h => absurd h.1 hs, ?_⟩
    rcases split_cases 0 body with h | ⟨handle, rest, rfl, hh⟩
    · refine ⟨_, decodeBody_workFail packet h, rfl, ?_⟩
      rw [if_neg hc, if_neg hs, if_pos rfl]
      simpa using (takeWhile_append h []).symm
    · refine ⟨_, decodeBody_workFail_split packet hh rest, rfl, ?_⟩
      rw [if_neg hc, if_neg hs, if_pos rfl]
      simpa using (takeWhile_append hh (0 :: rest)).symm
  · refine Or.inr ⟨fun h => absurd h.1 hs, { dataType, data := some body }, ?_, rfl, ?_⟩
    · simp [decodeBody, hc, hs, hf]
    · simp [hc, hs, hf]

theorem decodeResponse_cases (dataType : UInt32) {body : Bytes}
    (hb : body.length ≤ maxPacketLength) :
    (splitsHandle dataType = true ∧ (0 : UInt8) ∉ body ∧
      ∃ err, decodeResponse (frame res dataType body) = some (.error err)) ∨
    ¬ (splitsHandle dataType = true ∧ (0 : UInt8) ∉ body) ∧
      ∃ resp, decodeResponse (frame res dataType body) =
        some (.ok (resp, (frame res dataType body).length)) ∧ Recovers dataType body resp := by
  rw [decodeResponse_frame _ _ (lt_of_le_of_lt hb (by decide)), frame_length]
  rcases decodeBody_cases (frame res dataType body) dataType body with
    ⟨hs, hn, h⟩ | ⟨hn, resp, h, hr⟩
  · exact Or.inl ⟨hs, hn, _, by rw [h]; rfl⟩
  · refine Or.inr ⟨hn, resp, ?_, hr⟩
    rw [h, Nat.add_comm]
    rfl

theorem outcome_exists {p : Bytes} (h : WellFormed p) : ∃ event, Outcome p event := by
  obtain ⟨dataType, body, rfl, hb⟩ := h
  rcases decodeResponse_cases dataType hb with ⟨-, -, err, he⟩ | ⟨-, resp, hr, -⟩
  · exact ⟨_, .report he⟩
  · exact ⟨_, .push hr⟩

theorem readLoopStep_outcome {r r' : Reader} {packet : Bytes} {event : Event}
    (hread : readPacket r = some (.ok packet, r')) (ho : Outcome packet event) :
    readLoopStep r = some (event, r') := by
  rw [readLoopStep, hread]
  dsimp only
  cases ho with
  | push h => rw [h]
  | report h => rw [h]

theorem readLoopStep_ok {p : Bytes} (hp : WellFormed p) {r : Reader} (hsz : 0 < r.size)
    {rest : Bytes} (hc : r.content = p ++ rest) :
    ∃ event r', readLoopStep r = some (event, r') ∧ Outcome p event ∧ r'.content = rest ∧
      r'.size = r.size := by
  obtain ⟨event, ho⟩ := outcome_exists hp
  obtain ⟨dataType, body, rfl, hb⟩ := hp
  obtain ⟨r', hread, hrest, hsize⟩ := readPacket_ok hsz hb hc
  exact ⟨event, r', readLoopStep_outcome hread ho, ho, hrest, hsize⟩

theorem readLoopRun_packets (ps : List Bytes) (hps : ∀ p ∈ ps, WellFormed p) (r : Reader)
    (hsz : 0 < r.size) {rest : Bytes} (hc : r.content = ps.flatten ++ rest) :
    ∃ events r', readLoopRun ps.length r = some (events, r') ∧
      List.Forall₂ Outcome ps events ∧ r'.content = rest := by
  induction ps generalizing r with
  | nil => exact ⟨[], r, rfl, .nil, by simpa using hc⟩
  | cons p ps ih =>
    have hfront : r.content = p ++ (ps.flatten ++ rest) := by simpa using hc
    obtain ⟨event, r₁, hstep, ho, hcont, hsize⟩ := readLoopStep_ok (hps p (by simp)) hsz hfront
    obtain ⟨events, r₂, hrun, hos, hrest⟩ := ih (fun q hq => hps q (by simp [hq])) r₁
      (hsize ▸ hsz) hcont
    refine ⟨event :: events, r₂, ?_, .cons ho hos, hrest⟩
    simp only [List.length_cons, readLoopRun, hstep, hrun, Option.bind_eq_bind, Option.bind_some,
      Option.pure_def]

def Event.Applied (s t : St) (c : ℕ) (answers : Option ℕ) : Event → Prop
  | .push resp => t.reader = .send ⟨resp, c, answers⟩ ∧ t.errs = s.errs
  | .report err => t.reader = .loop ∧ t.errs = s.errs ++ [err]
  | .lost _ => False

theorem readPacket_step (cfg : Cfg) {s : St} {c : ℕ} {f : Frame} {tail : List Frame}
    (hr : s.reader = .read c) (hw : (s.conns c).wire = f :: tail) {event : Event}
    (ho : Outcome (frame res f.dataType f.body) event) :
    ∃ t, step cfg s .readPacket = some t ∧ event.Applied s t c f.answers ∧
      (t.conns c).wire = tail ∧ t.conn = s.conn ∧ t.nconn = s.nconn := by
  have hst : step cfg s .readPacket =
      received (s.setConnAt c { s.conns c with wire := tail }) c f.answers
        (decodeResponse (frame res f.dataType f.body)) := by
    simp only [step, readPacketStep, hr, hw]
  have hwire : ((s.setConnAt c { s.conns c with wire := tail }).conns c).wire = tail := by
    simp [St.setConnAt]
  cases ho with
  | push h =>
    rw [h] at hst
    exact ⟨_, hst, ⟨rfl, rfl⟩, hwire, rfl, rfl⟩
  | report h =>
    rw [h] at hst
    exact ⟨_, hst, ⟨rfl, rfl⟩, hwire, rfl, rfl⟩

theorem malformed_body_costs_only_itself (ps : List Bytes) (hps : ∀ p ∈ ps, WellFormed p)
    (r : Reader) (hsz : 0 < r.size) (rest : Bytes) (hc : r.content = ps.flatten ++ rest) :
    (∃ events r', readLoopRun ps.length r = some (events, r') ∧
      List.Forall₂ Outcome ps events ∧ r'.content = rest) ∧
    (∀ dataType body, body.length ≤ maxPacketLength →
      ((∃ err, decodeResponse (frame res dataType body) = some (.error err)) ↔
        splitsHandle dataType = true ∧ (0 : UInt8) ∉ body) ∧
      ∀ resp l, decodeResponse (frame res dataType body) = some (.ok (resp, l)) →
        Recovers dataType body resp) ∧
    ∀ cfg s c f tail event, s.reader = .read c → (s.conns c).wire = f :: tail →
      Outcome (frame res f.dataType f.body) event →
        ∃ t, step cfg s .readPacket = some t ∧ event.Applied s t c f.answers ∧
          (t.conns c).wire = tail ∧ t.conn = s.conn ∧ t.nconn = s.nconn := by
  refine ⟨readLoopRun_packets ps hps r hsz hc, ?_, ?_⟩
  · intro dataType body hb
    rcases decodeResponse_cases dataType hb with ⟨hs, hn, err, he⟩ | ⟨hn, resp, hd, hr⟩
    · refine ⟨⟨fun _ => ⟨hs, hn⟩, fun _ => ⟨err, he⟩⟩, ?_⟩
      intro resp l hd
      cases he.symm.trans hd
    · constructor
      · constructor
        · rintro ⟨err, he⟩
          cases hd.symm.trans he
        · exact fun h => absurd h hn
      · intro resp' l hd'
        cases hd.symm.trans hd'
        exact hr
  · intro cfg s c f tail event hr hw ho
    exact readPacket_step cfg hr hw ho

def mixedPackets : List Bytes :=
  [frame res dtWorkData [72, 0, 7], frame res dtWorkComplete [72], frame res dtJobCreated [72]]

theorem mixedPackets_cost :
    ∃ events r', readLoopRun 3 (newReader 4096 [⟨mixedPackets.flatten, List.cons_ne_nil _ _⟩]) =
        some (events, r') ∧
      List.Forall₂ Outcome mixedPackets events ∧ r'.content = [] :=
  (malformed_body_costs_only_itself mixedPackets
    (by
      simp only [mixedPackets, List.forall_mem_cons, List.not_mem_nil, false_imp_iff,
        forall_true_iff, and_true]
      exact ⟨⟨_, _, rfl, by decide⟩, ⟨_, _, rfl, by decide⟩, ⟨_, _, rfl, by decide⟩⟩)
    (newReader 4096 [⟨mixedPackets.flatten, List.cons_ne_nil _ _⟩]) (by decide) [] rfl).1

end Gearman.Client
