import Gearman.Framing
import Gearman.WorkerExec

/-!
# Agreement of the two codecs across the job server

From worker to client the server replaces the request magic and keeps type and
body; `Delivered` says what the client then reads and decodes, for every pooled
buffer the worker encodes into and every chunking the client reads from. From
client to worker the server splits a submit at its first two NULs and hands the
pieces on behind a handle.
-/

namespace Gearman.CodecAgreement
open Bytes Wire Bufio

def relay (packet : Bytes) : Bytes := putUint32 Client.res ++ packet.drop 4

theorem relay_frame (magic dataType : UInt32) (body : Bytes) :
    relay (frame magic dataType body) = frame Client.res dataType body := by
  have h : (frame magic dataType body).drop 4 =
      putUint32 dataType ++ (putUint32 (UInt32.ofNat body.length) ++ body) := by
    rw [frame, header, List.append_assoc, List.append_assoc]
    exact List.drop_left' rfl
  rw [relay, h, frame, header, List.append_assoc, List.append_assoc]

/-- Whatever buffer the worker encodes `outpack` into, the client reads the relayed
bytes as one packet and decodes it to `resp`. -/
def Delivered (outpack : Worker.OutPack) (resp : Client.Response) : Prop :=
  ∀ buf, ∃ out, outpack.encodeInto buf = some out ∧
    ∀ (r : Reader) (rest : Bytes), 0 < r.size → r.content = relay out.data ++ rest →
      ∃ packet r' n, Client.readPacket r = some (.ok packet, r') ∧ r'.content = rest ∧
        Client.decodeResponse packet = some (.ok (resp, n))

theorem delivered {outpack : Worker.OutPack} {resp : Client.Response}
    (hl : outpack.body.length ≤ Client.maxPacketLength)
    (hd : ∀ packet, Client.decodeBody packet outpack.dataType outpack.body = some (.ok resp)) :
    Delivered outpack resp := by
  intro buf
  obtain ⟨spare, henc⟩ := outpack.encodeInto_eq buf
  refine ⟨_, henc, ?_⟩
  intro r rest hsz hc
  rw [relay_frame] at hc
  obtain ⟨r', hread, hrest, -⟩ := Client.readPacket_ok hsz hl hc
  refine ⟨_, r', outpack.body.length + Client.minPacketLength, hread, hrest, ?_⟩
  rw [Client.decodeResponse_frame _ _ (lt_of_le_of_lt hl (by decide)), hd]
  rfl

theorem progress_delivered {dataType : UInt32} {p : Worker.InPack} {data : Bytes}
    (hf : dataType ≠ Worker.dtWorkFail) (hs : Client.splitsHandle dataType = true)
    (hz : (0 : UInt8) ∉ p.handle)
    (hl : p.handle.length + 1 + data.length ≤ Client.maxPacketLength) :
    Delivered { dataType, data := p.handle ++ 0 :: data }
      { dataType, data := some data, handle := p.handle } := by
  have hb : Worker.OutPack.body { dataType, data := p.handle ++ 0 :: data } =
      p.handle ++ 0 :: data := by
    simp [Worker.OutPack.body, hf]
  apply delivered
  · rw [hb, List.length_append, List.length_cons]
    omega
  · intro packet
    rw [hb]
    exact Client.decodeBody_split hs packet hz data

theorem result_delivered {p : Worker.InPack} (hh : p.handle ≠ []) (hz : (0 : UInt8) ∉ p.handle)
    (r : Worker.Result)
    (hl : (Worker.resultPack p r).body.length ≤ Client.maxPacketLength) :
    ∃ resp, Delivered (Worker.resultPack p r) resp ∧ resp.handle = p.handle ∧
      resp.result =
        if r.err = none then (some r.data, none)
        else if r.data = [] then (none, some .workFail)
        else (some r.data, some .workException) := by
  by_cases he : r.err = none
  · have ht : (Worker.resultPack p r).dataType = Client.dtWorkComplete := by
      simp only [Worker.resultPack, he, if_true]
      rfl
    have hb : (Worker.resultPack p r).body = p.handle ++ 0 :: r.data := by
      simp only [Worker.OutPack.body, ht]
      simp [Worker.resultPack, hh, Client.dtWorkComplete, Worker.dtWorkFail]
    refine ⟨{ dataType := Client.dtWorkComplete, data := some r.data, handle := p.handle },
      delivered hl ?_, rfl, ?_⟩
    · intro packet
      rw [ht, hb]
      exact Client.decodeBody_split (by decide) packet hz r.data
    · simp [Client.Response.result, he, Client.dtWorkComplete, Client.dtWorkFail,
        Client.dtWorkException]
  · by_cases hd : r.data = []
    · have ht : (Worker.resultPack p r).dataType = Client.dtWorkFail := by
        simp only [Worker.resultPack, he, hd, if_false, List.length_nil, if_true]
        rfl
      have hb : (Worker.resultPack p r).body = p.handle := by
        simp only [Worker.OutPack.body, ht]
        simp [Worker.resultPack, Client.dtWorkFail, Worker.dtWorkFail]
      refine ⟨{ dataType := Client.dtWorkFail, handle := p.handle }, delivered hl ?_, rfl, ?_⟩
      · intro packet
        rw [ht, hb]
        exact Client.decodeBody_workFail packet hz
      · simp [Client.Response.result, he, hd]
    · have ht : (Worker.resultPack p r).dataType = Client.dtWorkException := by
        simp only [Worker.resultPack, he, hd, if_false, List.length_eq_zero_iff]
        rfl
      have hb : (Worker.resultPack p r).body = p.handle ++ 0 :: r.data := by
        simp only [Worker.OutPack.body, ht]
        simp [Worker.resultPack, hh, Client.dtWorkException, Worker.dtWorkFail]
      refine ⟨{ dataType := Client.dtWorkException, data := some r.data, handle := p.handle },
        delivered hl ?_, rfl, ?_⟩
      · intro packet
        rw [ht, hb]
        exact Client.decodeBody_split (by decide) packet hz r.data
      · simp [Client.Response.result, he, hd, Client.dtWorkFail, Client.dtWorkException]

theorem worker_to_client (raw : Bytes) (p : Worker.InPack) (l : ℕ)
    (hdec : Worker.decodeInPack raw = some (.ok (p, l))) (hh : p.handle ≠ []) :
    (∀ data, p.handle.length + 1 + data.length ≤ Client.maxPacketLength →
      ∃ out resp, p.sendData data = some out ∧ Delivered out resp ∧ resp.handle = p.handle ∧
        resp.update = (some data, none)) ∧
    (∀ data, p.handle.length + 1 + data.length ≤ Client.maxPacketLength →
      ∃ out resp, p.sendWarning data = some out ∧ Delivered out resp ∧ resp.handle = p.handle ∧
        resp.update = (some data, some .workWarning)) ∧
    (∀ data err, (Worker.resultPack p { data, err }).body.length ≤ Client.maxPacketLength →
      ∃ resp, Delivered (Worker.resultPack p { data, err }) resp ∧ resp.handle = p.handle ∧
        resp.result =
          if err = none then (some data, none)
          else if data = [] then (none, some .workFail)
          else (some data, some .workException)) := by
  have hz := Worker.decodeInPack_handle hdec
  refine ⟨?_, ?_, ?_⟩
  · intro data hl
    exact ⟨_, _, Worker.InPack.sendProgress_eq _ p data,
      progress_delivered (by decide) (by decide) hz hl, rfl, by
        simp [Client.Response.update, Worker.dtWorkData, Client.dtWorkData, Client.dtWorkWarning]⟩
  · intro data hl
    exact ⟨_, _, Worker.InPack.sendProgress_eq _ p data,
      progress_delivered (by decide) (by decide) hz hl, rfl, by
        simp [Client.Response.update, Worker.dtWorkWarning, Client.dtWorkData,
          Client.dtWorkWarning]⟩
  · intro data err hl
    exact result_delivered hh hz { data, err } hl

theorem worker_to_client_nul_data :
    ∃ out resp, (Worker.Exec.demoPack [102]).sendData [0, 1] = some out ∧ Delivered out resp ∧
      resp.handle = [72] ∧ resp.update = (some [0, 1], none) :=
  (worker_to_client (frame Worker.res Worker.dtJobAssign [72, 0, 102, 0])
    { dataType := Worker.dtJobAssign, handle := [72], fn := [102] } 16 rfl (by decide)).1
    [0, 1] (by decide)

def serverSplit (body : Bytes) : Option (Bytes × Bytes × Bytes) := do
  let i ← indexByte 0 body
  let rest := body.drop (i + 1)
  let j ← indexByte 0 rest
  return (body.take i, rest.take j, rest.drop (j + 1))

def assignBody (handle : Bytes) (job : Bytes × Bytes × Bytes) : Bytes :=
  handle ++ 0 :: (job.1 ++ 0 :: (job.2.1 ++ 0 :: job.2.2))

theorem serverSplit_eq {a b : Bytes} (ha : (0 : UInt8) ∉ a) (hb : (0 : UInt8) ∉ b) (d : Bytes) :
    serverSplit (a ++ 0 :: (b ++ 0 :: d)) = some (a, b, d) := by
  simp only [serverSplit, indexByte_append _ _ ha, drop_after, indexByte_append _ _ hb,
    Option.bind_eq_bind, Option.bind_some, Option.pure_def, List.take_left]

/-- A submit body has two separators, wherever NULs stand in its fields. -/
theorem jobBody_split (funcname id data : Bytes) :
    ∃ a b d, Client.jobBody funcname id data = a ++ 0 :: (b ++ 0 :: d) ∧ (0 : UInt8) ∉ a ∧
      (0 : UInt8) ∉ b := by
  have hrest : ∀ x y : Bytes, ∃ b d, x ++ 0 :: y = b ++ 0 :: d ∧ (0 : UInt8) ∉ b := by
    intro x y
    rcases split_cases 0 (x ++ 0 :: y) with h | ⟨b, d, hbd, hb⟩
    · simp at h
    · exact ⟨b, d, hbd, hb⟩
  rcases split_cases 0 funcname with hf | ⟨a, f, rfl, ha⟩
  · obtain ⟨b, d, hbd, hb⟩ := hrest id data
    exact ⟨funcname, b, d, by rw [Client.jobBody, hbd], hf, hb⟩
  · obtain ⟨b, d, hbd, hb⟩ := hrest f (id ++ 0 :: data)
    exact ⟨a, b, d, by rw [Client.jobBody, List.append_assoc, List.cons_append, hbd], ha, hb⟩

theorem client_to_worker (t : UInt32) (funcname id data handle : Bytes)
    (hz : (0 : UInt8) ∉ handle)
    (hl : handle.length + 1 + (Client.jobBody funcname id data).length ≤ Worker.maxPacketLength) :
    ∃ packet job, Client.encodeJob t funcname id data = some packet ∧
      serverSplit (packet.drop Client.minPacketLength) = some job ∧
      ∀ (r : Reader) (rest : Bytes), 12 ≤ r.size →
        r.content = frame Worker.res Worker.dtJobAssignUniq (assignBody handle job) ++ rest →
        ∃ raw r' p l, Worker.read r = some (.ok raw, r') ∧ r'.content = rest ∧
          Worker.decodeInPack raw = some (.ok (p, l)) ∧
          ((p.handle = handle ∧ p.fn = funcname ∧ p.uniqueId = id ∧ p.data = data) ↔
            (0 : UInt8) ∉ funcname ∧ (0 : UInt8) ∉ id) := by
  obtain ⟨a, b, d, hsplit, ha, hb⟩ := jobBody_split funcname id data
  have hlen : (assignBody handle (a, b, d)).length ≤ Worker.maxPacketLength := by
    rw [assignBody, ← hsplit, List.length_append, List.length_cons]
    omega
  refine ⟨_, (a, b, d), Client.encodeJob_eq t funcname id data, ?_, ?_⟩
  · rw [frame, show Client.minPacketLength = (header Client.req t
      (Client.jobBody funcname id data).length).length from rfl, List.drop_left, hsplit]
    exact serverSplit_eq ha hb d
  · intro r rest hsz hc
    obtain ⟨r', hread, hrest, -⟩ := Worker.read_ok hsz hlen hc
    refine ⟨_, r',
      { dataType := Worker.dtJobAssignUniq, handle, fn := a, uniqueId := b, data := d },
      (assignBody handle (a, b, d)).length + Worker.minPacketLength, hread, hrest, ?_, ?_⟩
    · rw [Worker.decodeInPack_frame _ _ (lt_of_le_of_lt hlen (by decide)), assignBody,
        Worker.InPack.decodeFields_uniq _ rfl hz ha hb d]
      rfl
    · constructor
      · rintro ⟨-, rfl, rfl, -⟩
        exact ⟨ha, hb⟩
      · rintro ⟨hf, hi⟩
        obtain ⟨rfl, hrest⟩ := split_unique hf ha hsplit
        obtain ⟨rfl, rfl⟩ := split_unique hi hb hrest
        exact ⟨rfl, rfl, rfl, rfl⟩

theorem client_to_worker_nul_data :
    ∃ packet job, Client.encodeJob Client.dtSubmitJob [102] [49] [0, 5] = some packet ∧
      serverSplit (packet.drop Client.minPacketLength) = some job ∧
      ∀ (r : Reader) (rest : Bytes), 12 ≤ r.size →
        r.content = frame Worker.res Worker.dtJobAssignUniq (assignBody [72] job) ++ rest →
        ∃ raw r' p l, Worker.read r = some (.ok raw, r') ∧ r'.content = rest ∧
          Worker.decodeInPack raw = some (.ok (p, l)) ∧
          p.handle = [72] ∧ p.fn = [102] ∧ p.uniqueId = [49] ∧ p.data = [0, 5] := by
  obtain ⟨packet, job, henc, hjob, hread⟩ :=
    client_to_worker Client.dtSubmitJob [102] [49] [0, 5] [72] (by decide) (by decide)
  refine ⟨packet, job, henc, hjob, ?_⟩
  intro r rest hsz hc
  obtain ⟨raw, r', p, l, hr, hrest, hdec, hiff⟩ := hread r rest hsz hc
  exact ⟨raw, r', p, l, hr, hrest, hdec, hiff.mpr (by decide)⟩

end Gearman.CodecAgreement
