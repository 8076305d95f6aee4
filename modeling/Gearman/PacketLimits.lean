import Gearman.CodecAgreement

/-!
# Lengths the writers may send and the readers accept

Both readers refuse a body of more than `maxPacketLength` bytes, while no writer
looks at the length it puts into the header. What each writer sends is a frame
around a body whose length is a sum of its arguments' lengths, so the two sides
agree exactly when that sum is within the readers' bound.
-/

namespace Gearman.PacketLimits
open Bytes Wire Bufio CodecAgreement

inductive Written
  | job (dataType : UInt32) (funcname id data : Bytes)
  | echo (data : Bytes)
  | result (inpack : Worker.InPack) (r : Worker.Result)
  | sendData (inpack : Worker.InPack) (data : Bytes)
  | sendWarning (inpack : Worker.InPack) (data : Bytes)

/-- The bytes handed to the connection; the worker encodes into a pooled buffer. -/
def Written.packet (buf : Worker.Slice) : Written → Option Bytes
  | .job dataType funcname id data => Client.encodeJob dataType funcname id data
  | .echo data => Client.encodeRequest Client.dtEchoReq data
  | .result inpack r => ((Worker.resultPack inpack r).encodeInto buf).map Worker.Slice.data
  | .sendData inpack data =>
    (inpack.sendData data).bind (fun out => (out.encodeInto buf).map Worker.Slice.data)
  | .sendWarning inpack data =>
    (inpack.sendWarning data).bind (fun out => (out.encodeInto buf).map Worker.Slice.data)

def Written.size : Written → ℕ
  | .job _ funcname id data => funcname.length + 1 + (id.length + 1 + data.length)
  | .echo data => data.length
  | .result inpack r =>
    if r.err ≠ none ∧ r.data = [] then inpack.handle.length
    else if inpack.handle = [] then r.data.length
    else inpack.handle.length + 1 + r.data.length
  | .sendData inpack data => inpack.handle.length + 1 + data.length
  | .sendWarning inpack data => inpack.handle.length + 1 + data.length

def Acceptable (packet : Bytes) : Prop :=
  ∃ n, (slice packet 8 12).bind uint32 = some n ∧ n.toNat = (packet.drop 12).length ∧
    n.toNat ≤ Client.maxPacketLength ∧ n.toNat ≤ Worker.maxPacketLength

theorem acceptable_frame (magic dataType : UInt32) (body : Bytes) :
    Acceptable (frame magic dataType body) ↔ body.length ≤ Client.maxPacketLength := by
  have hword : (slice (frame magic dataType body) 8 12).bind uint32 =
      some (UInt32.ofNat body.length) := by
    rw [frame, header_bodyLen]
    exact uint32_word _
  have hdrop : (frame magic dataType body).drop 12 = body := List.drop_left' rfl
  constructor
  · rintro ⟨n, hn, hlen, hmax, -⟩
    rw [hdrop] at hlen
    rwa [← hlen]
  · intro hle
    have hn := toNat_bodyLen (lt_of_le_of_lt hle (show Client.maxPacketLength < lengthBound by
      decide))
    exact ⟨_, hword, by rw [hdrop, hn], by rwa [hn], by rwa [hn]⟩

theorem encodeInto_frame (outpack : Worker.OutPack) (buf : Worker.Slice) :
    (outpack.encodeInto buf).map Worker.Slice.data =
      some (frame Worker.req outpack.dataType outpack.body) := by
  obtain ⟨spare, h⟩ := outpack.encodeInto_eq buf
  rw [h]
  rfl

theorem resultPack_length (inpack : Worker.InPack) (r : Worker.Result) :
    (Worker.resultPack inpack r).body.length = (Written.result inpack r).size := by
  by_cases he : r.err = none
  · by_cases hh : inpack.handle = []
    · simp [Worker.OutPack.body, Worker.resultPack, Written.size, he, hh, Worker.dtWorkComplete,
        Worker.dtWorkFail]
    · simp [Worker.OutPack.body, Worker.resultPack, Written.size, he, hh, Worker.dtWorkComplete,
        Worker.dtWorkFail]
      omega
  · by_cases hd : r.data = []
    · simp [Worker.OutPack.body, Worker.resultPack, Written.size, he, hd]
    · by_cases hh : inpack.handle = []
      · simp [Worker.OutPack.body, Worker.resultPack, Written.size, he, hd, hh,
          Worker.dtWorkException, Worker.dtWorkFail]
      · simp [Worker.OutPack.body, Worker.resultPack, Written.size, he, hd, hh,
          Worker.dtWorkException, Worker.dtWorkFail]
        omega

theorem progress_frame {dataType : UInt32} (hf : dataType ≠ Worker.dtWorkFail)
    (inpack : Worker.InPack) (data : Bytes) (buf : Worker.Slice) :
    ((Worker.InPack.sendProgress dataType inpack data).bind
      (fun out => (out.encodeInto buf).map Worker.Slice.data)) =
      some (frame Worker.req dataType (inpack.handle ++ 0 :: data)) := by
  rw [Worker.InPack.sendProgress_eq, Option.bind_some, encodeInto_frame]
  simp [Worker.OutPack.body, hf]

theorem Written.packet_frame (w : Written) (buf : Worker.Slice) :
    ∃ magic dataType body, w.packet buf = some (frame magic dataType body) ∧
      body.length = w.size := by
  cases w with
  | job dataType funcname id data =>
    exact ⟨_, _, _, Client.encodeJob_eq dataType funcname id data, by
      simp only [Client.jobBody, List.length_append, List.length_cons, size]
      omega⟩
  | echo data => exact ⟨_, _, _, Client.encodeRequest_eq Client.dtEchoReq data, rfl⟩
  | result inpack r => exact ⟨_, _, _, encodeInto_frame _ buf, resultPack_length inpack r⟩
  | sendData inpack data =>
    exact ⟨_, _, _, progress_frame (by decide) inpack data buf, by
      simp only [List.length_append, List.length_cons, size]
      omega⟩
  | sendWarning inpack data =>
    exact ⟨_, _, _, progress_frame (by decide) inpack data buf, by
      simp only [List.length_append, List.length_cons, size]
      omega⟩

theorem written_acceptable_iff (w : Written) (buf : Worker.Slice) :
    ∃ packet, w.packet buf = some packet ∧
      (Acceptable packet ↔ w.size ≤ Client.maxPacketLength) := by
  obtain ⟨magic, dataType, body, hp, hl⟩ := w.packet_frame buf
  exact ⟨_, hp, by rw [acceptable_frame, hl]⟩

/-- A packet of more than the readers' bound is refused by both, up to the length where
its word wraps. -/
theorem overlong_refused {magic dataType : UInt32} {body : Bytes}
    (hl : Client.maxPacketLength < body.length) (hb : body.length < lengthBound) {r : Reader}
    {rest : Bytes} (hsz : 12 ≤ r.size)
    (hc : r.content = relay (frame magic dataType body) ++ rest) :
    (∃ e r', Client.readPacket r = some (.error e, r')) ∧
      ∃ e r', Worker.read r = some (.error e, r') := by
  rw [relay_frame, frame, List.append_assoc] at hc
  have hstop : Framing.Stops r.content .overLong :=
    ⟨dataType, body.length, body ++ rest, hc, hl, hb⟩
  obtain ⟨e, r', hread, -⟩ := Worker.read_stop hsz hstop
  exact ⟨Client.readPacket_stop (lt_of_lt_of_le (by decide) hsz) hstop, e, r', hread⟩

theorem written_refused (w : Written) (buf : Worker.Slice)
    (hl : Client.maxPacketLength < w.size) (hb : w.size < lengthBound) :
    ∃ packet, w.packet buf = some packet ∧ ¬ Acceptable packet ∧
      ∀ (r : Reader) (rest : Bytes), 12 ≤ r.size → r.content = relay packet ++ rest →
        (∃ e r', Client.readPacket r = some (.error e, r')) ∧
        ∃ e r', Worker.read r = some (.error e, r') := by
  obtain ⟨magic, dataType, body, hp, hlen⟩ := w.packet_frame buf
  rw [← hlen] at hl hb
  refine ⟨_, hp, ?_, fun r rest hsz hc => overlong_refused hl hb hsz hc⟩
  rw [acceptable_frame]
  exact not_le.mpr hl

theorem payload_at_limit_refused :
    ∃ data : Bytes, data.length = Client.maxPacketLength ∧
      ∃ packet, (Written.job Client.dtSubmitJob [102] [49] data).packet ⟨[], []⟩ = some packet ∧
        ¬ Acceptable packet ∧
        ∀ (r : Reader) (rest : Bytes), 12 ≤ r.size → r.content = relay packet ++ rest →
          (∃ e r', Client.readPacket r = some (.error e, r')) ∧
          ∃ e r', Worker.read r = some (.error e, r') := by
  obtain ⟨data, hdata⟩ : ∃ data : Bytes, data.length = Client.maxPacketLength :=
    ⟨_, List.length_replicate (a := (0 : UInt8))⟩
  have hsize : (Written.job Client.dtSubmitJob [102] [49] data).size =
      Client.maxPacketLength + 4 := by
    simp only [Written.size, hdata, List.length_singleton]
    omega
  refine ⟨data, hdata, written_refused _ _ ?_ ?_⟩
  · rw [hsize]
    decide
  · rw [hsize]
    decide

end Gearman.PacketLimits
