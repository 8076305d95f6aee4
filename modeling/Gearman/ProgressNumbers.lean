import Gearman.CodecAgreement
import Gearman.JobFields
import Gearman.StatusGrammar

/-!
# Progress numbers from UpdateStatus to Status

The worker prints two signed numbers behind the job handle, the server changes
the magic of the packet, and the client splits at the first NUL and parses two
unsigned numbers. The trip works for every job whose packet has a body of less
than four gigabytes, and for no other: the length word of a longer packet wraps
and the client finds no separator in what is left.
-/

namespace Gearman.CodecAgreement
open Bytes Wire Bufio

theorem int64_bounds (n : Int64) : -2 ^ 63 ≤ n.toInt ∧ n.toInt < 2 ^ 63 :=
  ⟨n.le_toInt, n.toInt_lt⟩

theorem formatInt64_length_le (n : Int64) : (Decimal.formatInt n.toInt).length ≤ 20 := by
  have h := int64_bounds n
  exact Decimal.formatInt_length_le (k := 18) (by omega)

/-- A status update decodes to its handle, and its numbers are read back when both
are non-negative and rejected otherwise. -/
def ProgressArrives (p : Worker.InPack) (numerator denominator : Int64) : Prop :=
  ∃ out, p.updateStatus numerator denominator = some out ∧
    ∀ buf, ∃ enc resp n, out.encodeInto buf = some enc ∧
      Client.decodeResponse (relay enc.data) = some (.ok (resp, n)) ∧ resp.handle = p.handle ∧
      ((0 ≤ numerator.toInt ∧ 0 ≤ denominator.toInt) →
        ∃ status, resp.status = (some status, none) ∧
          (status.numerator : ℤ) = numerator.toInt ∧
          (status.denominator : ℤ) = denominator.toInt) ∧
      (¬ (0 ≤ numerator.toInt ∧ 0 ≤ denominator.toInt) → ∃ e, resp.status.2 = some e)

theorem statusBody_length (handle : Bytes) (numerator denominator : Int64) :
    handle.length < (Worker.InPack.statusBody handle numerator denominator).length ∧
      (Worker.InPack.statusBody handle numerator denominator).length ≤ handle.length + 42 := by
  have hn := formatInt64_length_le numerator
  have hd := formatInt64_length_le denominator
  simp only [Worker.InPack.statusBody, List.length_append, List.length_cons]
  omega

theorem status_split {resp : Client.Response} {n d : Bytes} (hn : (0 : UInt8) ∉ n)
    (h : resp.data = some (n ++ 0 :: d)) :
    resp.status = Client.Status.parseNumbers
      { handle := resp.handle, known := true, running := true, numerator := 0, denominator := 0 }
      n d := by
  simp [Client.Response.status, h, splitN_append hn]

theorem status_numbers {resp : Client.Response} {numerator denominator : Int64}
    (h : resp.data = some (Decimal.formatInt numerator.toInt ++
      0 :: Decimal.formatInt denominator.toInt)) :
    ((0 ≤ numerator.toInt ∧ 0 ≤ denominator.toInt) →
      ∃ status, resp.status = (some status, none) ∧
        (status.numerator : ℤ) = numerator.toInt ∧
        (status.denominator : ℤ) = denominator.toInt) ∧
    (¬ (0 ≤ numerator.toInt ∧ 0 ≤ denominator.toInt) → ∃ e, resp.status.2 = some e) := by
  have hs := status_split (Decimal.zero_notMem_formatInt _) h
  have hn := Client.numeral_formatInt (n := numerator.toInt)
    ((int64_bounds numerator).2.trans (by decide))
  have hd := Client.numeral_formatInt (n := denominator.toInt)
    ((int64_bounds denominator).2.trans (by decide))
  constructor
  · rintro ⟨hnn, hdn⟩
    exact ⟨_, hs.trans (Client.Status.parseNumbers_ok _ (hn.mpr hnn) (hd.mpr hdn)),
      Client.value_formatInt hnn, Client.value_formatInt hdn⟩
  · intro hneg
    apply Option.ne_none_iff_exists'.mp
    rw [hs, Ne, Client.Status.parseNumbers_iff, hn, hd]
    exact hneg

def statusPack (p : Worker.InPack) (numerator denominator : Int64) : Worker.OutPack where
  dataType := Worker.dtWorkStatus
  data := Worker.InPack.statusBody p.handle numerator denominator

theorem statusPack_encode (p : Worker.InPack) (numerator denominator : Int64)
    (buf : Worker.Slice) :
    ∃ spare, (statusPack p numerator denominator).encodeInto buf =
      some ⟨frame Worker.req Worker.dtWorkStatus
        (Worker.InPack.statusBody p.handle numerator denominator), spare⟩ := by
  have hb : (statusPack p numerator denominator).body =
      Worker.InPack.statusBody p.handle numerator denominator := by
    simp [Worker.OutPack.body, statusPack, Worker.dtWorkStatus, Worker.dtWorkFail]
  have h := (statusPack p numerator denominator).encodeInto_eq buf
  rwa [hb] at h

theorem progress_arrives {p : Worker.InPack} (hz : (0 : UInt8) ∉ p.handle)
    (numerator denominator : Int64)
    (hl : (Worker.InPack.statusBody p.handle numerator denominator).length < lengthBound) :
    ProgressArrives p numerator denominator := by
  refine ⟨_, p.updateStatus_eq numerator denominator, ?_⟩
  intro buf
  obtain ⟨spare, henc⟩ := statusPack_encode p numerator denominator buf
  refine ⟨_, { dataType := Client.dtWorkStatus, handle := p.handle,
               data := some (Decimal.formatInt numerator.toInt ++
                 0 :: Decimal.formatInt denominator.toInt) },
    (Worker.InPack.statusBody p.handle numerator denominator).length + 12, henc, ?_, rfl,
    status_numbers rfl⟩
  rw [relay_frame, Client.decodeResponse_frame _ _ hl,
    show Worker.dtWorkStatus = Client.dtWorkStatus from rfl, Worker.InPack.statusBody,
    Client.decodeBody_split (by decide) _ hz]
  rfl

theorem progress_lost {p : Worker.InPack} (hz : (0 : UInt8) ∉ p.handle)
    (numerator denominator : Int64)
    (hl : lengthBound ≤ (Worker.InPack.statusBody p.handle numerator denominator).length) :
    ¬ ProgressArrives p numerator denominator := by
  rintro ⟨out, hout, harr⟩
  rw [Worker.InPack.updateStatus_eq] at hout
  cases hout
  obtain ⟨enc, resp, n, henc, hdec, -⟩ := harr ⟨[], []⟩
  obtain ⟨spare, henc'⟩ := statusPack_encode p numerator denominator ⟨[], []⟩
  cases henc'.symm.trans henc
  -- the wrapped length stops inside the handle
  have hle : (Worker.InPack.statusBody p.handle numerator denominator).length % lengthBound ≤
      p.handle.length := by
    have hlen := (statusBody_length p.handle numerator denominator).2
    generalize (Worker.InPack.statusBody p.handle numerator denominator).length = l at hl hlen
    simp only [lengthBound] at hl ⊢
    omega
  have hnul : (0 : UInt8) ∉ (Worker.InPack.statusBody p.handle numerator denominator).take
      ((Worker.InPack.statusBody p.handle numerator denominator).length % lengthBound) := by
    generalize (Worker.InPack.statusBody p.handle numerator denominator).length % lengthBound = k
      at hle
    intro hmem
    rw [Worker.InPack.statusBody, List.take_append_of_le_length hle] at hmem
    exact hz (List.mem_of_mem_take hmem)
  rw [relay_frame, Client.decodeResponse_wraps,
    Client.decodeBody_unsplit (by decide) _ hnul] at hdec
  cases hdec

/-- The trip works exactly for the packets whose length fits the length word, and
every job the worker has read is one of them. -/
theorem progress_arrives_iff (p : Worker.InPack) (hz : (0 : UInt8) ∉ p.handle)
    (numerator denominator : Int64) :
    (ProgressArrives p numerator denominator ↔
      (Worker.InPack.statusBody p.handle numerator denominator).length < lengthBound) ∧
    ∀ r r' data l, Worker.read r = some (.ok data, r') →
      Worker.decodeInPack data = some (.ok (p, l)) → ProgressArrives p numerator denominator := by
  refine ⟨⟨?_, progress_arrives hz numerator denominator⟩, ?_⟩
  · intro h
    by_contra hl
    exact progress_lost hz numerator denominator (not_lt.mp hl) h
  · intro r r' data l hread hdec
    have hp := Worker.read_handle_length hread hdec
    have hb := (statusBody_length p.handle numerator denominator).2
    exact progress_arrives hz numerator denominator
      (lt_of_le_of_lt (hb.trans (Nat.add_le_add_right hp 42)) (by decide))

theorem progress_arrives_at_limits :
    ProgressArrives { dataType := Worker.dtJobAssign, handle := [72] } 9223372036854775807
      (-9223372036854775808) :=
  (progress_arrives_iff { dataType := Worker.dtJobAssign, handle := [72] } (by decide)
    9223372036854775807 (-9223372036854775808)).1.mpr (by decide +kernel)

theorem progress_of_huge_handle_lost :
    ∃ p : Worker.InPack, (0 : UInt8) ∉ p.handle ∧ ¬ ProgressArrives p 0 0 := by
  have hz : (0 : UInt8) ∉ List.replicate lengthBound (72 : UInt8) := by
    intro h
    exact absurd (List.eq_of_mem_replicate h) (by decide)
  refine ⟨{ dataType := Worker.dtJobAssign, handle := List.replicate lengthBound 72 }, hz, ?_⟩
  apply progress_lost hz
  have h := (statusBody_length (List.replicate lengthBound 72) 0 0).1
  rw [List.length_replicate] at h
  exact h.le

end Gearman.CodecAgreement
