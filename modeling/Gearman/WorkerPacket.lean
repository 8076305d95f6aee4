import Gearman.Bufio
import Gearman.Decimal
import Gearman.Wire

/-!
# The worker's packets: the pooled encoder and the job decoder

`encodeInto` writes into a reused slice when its capacity suffices, so a slice is
its visible bytes and the spare bytes of its capacity, both with arbitrary old
contents. `decodeInPack` scans the separators of a job in place and assigns its
fields all or not at all. The type numbers are the worker's own, maintained apart
from the client's.
-/

namespace Gearman.Worker
open Bytes Wire

def queueSize : ℕ := 8
def minPacketLength : ℕ := 12
def maxPacketLength : ℕ := 67108864

def req : UInt32 := 5391697
def res : UInt32 := 5391699
def resStr : Bytes := [0, 82, 69, 83]

def dtCanDo : UInt32 := 1
def dtCantDo : UInt32 := 2
def dtResetAbilities : UInt32 := 3
def dtPreSleep : UInt32 := 4
def dtNoop : UInt32 := 6
def dtNoJob : UInt32 := 10
def dtJobAssign : UInt32 := 11
def dtWorkStatus : UInt32 := 12
def dtWorkComplete : UInt32 := 13
def dtWorkFail : UInt32 := 14
def dtEchoReq : UInt32 := 16
def dtEchoRes : UInt32 := 17
def dtError : UInt32 := 19
def dtSetClientId : UInt32 := 22
def dtCanDoTimeout : UInt32 := 23
def dtWorkException : UInt32 := 25
def dtWorkData : UInt32 := 28
def dtWorkWarning : UInt32 := 29
def dtGrabJobUniq : UInt32 := 30
def dtJobAssignUniq : UInt32 := 31

inductive Arg
  | bytes (b : Bytes)
  | int (n : ℕ)
deriving DecidableEq, Repr

inductive Err
  | noneAgents
  | noneFuncs
  | timeOut
  | unknown
  | errorf (format : String) (args : List Arg)
  | read (e : Bufio.ReadErr)
  | op (temporary : Bool)
  | user (e : Bytes)
deriving DecidableEq, Repr

def invalidData (data : Bytes) : Err := .errorf "Invalid data: %v" [.bytes data]
def notEnoughData (data : Bytes) : Err := .errorf "Not enough data: %v" [.bytes data]

def getError (data : Bytes) : Err :=
  match indexByte 0 data with
  | none => .errorf "Not a error data: %v" [.bytes data]
  | some i => .errorf "%s: %s" [.bytes (data.take i), .bytes (data.drop (i + 1))]

def getBuffer (l : ℕ) : Bytes := zeros l

structure OutPack where
  dataType : UInt32
  data : Bytes := []
  handle : Bytes := []
deriving DecidableEq, Repr

/-- A byte slice: the visible bytes and the rest of its capacity. -/
structure Slice where
  data : Bytes
  spare : Bytes

namespace Slice
def cap (s : Slice) : ℕ := s.data.length + s.spare.length
def reslice (s : Slice) (n : ℕ) : Slice :=
  ⟨(s.data ++ s.spare).take n, (s.data ++ s.spare).drop n⟩
theorem reslice_length {s : Slice} {n : ℕ} (h : n ≤ s.cap) : (s.reslice n).data.length = n := by
  simpa [reslice, cap] using h
end Slice

namespace OutPack

def bodyLen (outpack : OutPack) : ℕ :=
  if outpack.dataType = dtWorkFail then outpack.handle.length
  else outpack.data.length + if outpack.handle ≠ [] then outpack.handle.length + 1 else 0

def encodeBody (outpack : OutPack) (data : Bytes) : Option Bytes :=
  let i := minPacketLength
  let hi := outpack.handle.length + i
  if outpack.handle ≠ [] then do
    let (data, _) ← copyTo data i hi outpack.handle
    if outpack.dataType ≠ dtWorkFail then do
      let data ← setAt data hi 0
      let (data, _) ← copyTo data (hi + 1) data.length outpack.data
      return data
    else return data
  else if outpack.dataType ≠ dtWorkFail then do
    let (data, _) ← copyTo data i data.length outpack.data
    return data
  else return data

def encodeInto (outpack : OutPack) (buf : Slice) : Option Slice := do
  let n := outpack.bodyLen + minPacketLength
  let out := if buf.cap < n then ⟨getBuffer n, []⟩ else buf.reslice n
  let data ← putHeader out.data (putUint32 req) outpack.dataType outpack.bodyLen
  let data ← outpack.encodeBody data
  return ⟨data, out.spare⟩

def encode (outpack : OutPack) : Option Slice := outpack.encodeInto ⟨[], []⟩

def body (outpack : OutPack) : Bytes :=
  if outpack.dataType = dtWorkFail then outpack.handle
  else if outpack.handle = [] then outpack.data
  else outpack.handle ++ 0 :: outpack.data

theorem bodyLen_eq (outpack : OutPack) : outpack.bodyLen = outpack.body.length := by
  by_cases hf : outpack.dataType = dtWorkFail
  · simp [bodyLen, body, hf]
  · by_cases hh : outpack.handle = []
    · simp [bodyLen, body, hf, hh]
    · simp [bodyLen, body, hf, hh]
      omega

theorem encodeBody_eq (outpack : OutPack) (hdr r : Bytes) (hh : hdr.length = minPacketLength)
    (hr : r.length = outpack.bodyLen) :
    outpack.encodeBody (hdr ++ r) = some (hdr ++ outpack.body) := by
  rw [bodyLen_eq] at hr
  by_cases hf : outpack.dataType = dtWorkFail
  · simp only [body, hf, if_true] at hr
    by_cases hn : outpack.handle = []
    · have hr0 : r = [] := by simpa [hn] using hr
      simp [encodeBody, body, hf, hn, hr0]
    · have hc : copyTo (hdr ++ r) minPacketLength (outpack.handle.length + minPacketLength)
          outpack.handle = some (hdr ++ outpack.handle, outpack.handle.length) := by
        simpa using copyTo_append hdr r [] outpack.handle hh.symm hr (Nat.add_comm _ _).le
          (by simp; omega)
      simp [encodeBody, body, hf, hn, hc]
  · by_cases hn : outpack.handle = []
    · simp only [body, hf, hn, if_true, if_false] at hr
      have hc : copyTo (hdr ++ r) minPacketLength (hdr ++ r).length outpack.data =
          some (hdr ++ outpack.data, outpack.data.length) := by
        have h := copyTo_append hdr r [] outpack.data (j := (hdr ++ r).length) hh.symm hr
          (by simp; omega) (by simp)
        simpa only [List.append_nil] using h
      simp only [encodeBody, body, hf, hn, ne_eq, not_true_eq_false, not_false_eq_true, if_true,
        if_false, hc, Option.bind_eq_bind, Option.bind_some, Option.pure_def]
    · simp only [body, hf, hn, if_false, List.length_append, List.length_cons] at hr
      obtain ⟨x, s, rfl, hx⟩ : ∃ x s, r = x ++ s ∧ x.length = outpack.handle.length :=
        ⟨r.take outpack.handle.length, r.drop outpack.handle.length,
          (List.take_append_drop _ _).symm, by simp; omega⟩
      cases s with
      | nil => simp at hr; omega
      | cons c s =>
        have hs : s.length = outpack.data.length := by simp at hr; omega
        have hc : copyTo (hdr ++ (x ++ c :: s)) minPacketLength
            (outpack.handle.length + minPacketLength) outpack.handle =
            some ((hdr ++ outpack.handle) ++ c :: s, outpack.handle.length) := by
          rw [← List.append_assoc]
          exact copyTo_append hdr x (c :: s) outpack.handle hh.symm hx (Nat.add_comm _ _).le
            (by simp; omega)
        have hset : setAt ((hdr ++ outpack.handle) ++ c :: s)
            (outpack.handle.length + minPacketLength) 0 =
            some ((hdr ++ outpack.handle ++ [0]) ++ s ++ []) := by
          rw [setAt_append _ _ _ _ (by simp; omega)]
          simp
        have hd := copyTo_append (hdr ++ outpack.handle ++ [0]) s [] outpack.data
          (i := outpack.handle.length + minPacketLength + 1)
          (j := ((hdr ++ outpack.handle ++ [0]) ++ s ++ []).length) (by simp; omega) hs
          (by simp; omega) le_rfl
        simp only [encodeBody, hf, hn, ne_eq, not_false_eq_true, if_true, hc, hset, hd,
          Option.bind_eq_bind, Option.bind_some, Option.pure_def]
        simp [body, hf, hn]

theorem encodeInto_eq (outpack : OutPack) (buf : Slice) :
    ∃ spare, outpack.encodeInto buf = some ⟨frame req outpack.dataType outpack.body, spare⟩ := by
  have hout : (if buf.cap < outpack.bodyLen + minPacketLength then
      (⟨getBuffer (outpack.bodyLen + minPacketLength), []⟩ : Slice)
      else buf.reslice (outpack.bodyLen + minPacketLength)).data.length =
      outpack.bodyLen + minPacketLength := by
    split_ifs with hcap
    · simp [getBuffer]
    · exact Slice.reslice_length (by omega)
  simp only [encodeInto]
  generalize (if buf.cap < outpack.bodyLen + minPacketLength then
      (⟨getBuffer (outpack.bodyLen + minPacketLength), []⟩ : Slice)
      else buf.reslice (outpack.bodyLen + minPacketLength)) = out at hout
  have hhead := putHeader_eq req outpack.dataType outpack.bodyLen (b := out.data)
    (by simp [hout, minPacketLength])
  have hbody := outpack.encodeBody_eq (header req outpack.dataType outpack.bodyLen)
    (out.data.drop 12) rfl (by simp [hout, minPacketLength])
  refine ⟨out.spare, ?_⟩
  simp only [hhead, hbody, Option.bind_eq_bind, Option.bind_some, Option.pure_def, frame,
    ← bodyLen_eq]

theorem encodeInto_spare {outpack : OutPack} {buf out : Slice}
    (h : outpack.encodeInto buf = some out) (hn : outpack.bodyLen + minPacketLength ≤ buf.cap) :
    out.spare = (buf.reslice (outpack.bodyLen + minPacketLength)).spare := by
  obtain ⟨hdr, -, h⟩ := Option.bind_eq_some_iff.mp h
  obtain ⟨data, -, h⟩ := Option.bind_eq_some_iff.mp h
  cases h
  simp only [if_neg (not_lt.mpr hn)]

/-- A packet that fits is encoded in place. -/
theorem encodeInto_cap {outpack : OutPack} {buf out : Slice}
    (h : outpack.encodeInto buf = some out) (hn : outpack.bodyLen + minPacketLength ≤ buf.cap) :
    out.cap = buf.cap := by
  obtain ⟨spare, henc⟩ := outpack.encodeInto_eq buf
  have hspare := encodeInto_spare h hn
  obtain rfl := Option.some.inj (henc.symm.trans h)
  have hlen : (frame req outpack.dataType outpack.body).length =
      outpack.bodyLen + minPacketLength := by
    rw [frame_length, bodyLen_eq, Nat.add_comm, minPacketLength]
  have hrest : spare.length + (outpack.bodyLen + minPacketLength) = buf.cap := by
    rw [show spare = _ from hspare, Slice.reslice, List.length_drop, List.length_append]
    exact Nat.sub_add_cancel hn
  rw [Slice.cap, hlen, Nat.add_comm, hrest]

end OutPack

structure InPack where
  dataType : UInt32
  data : Bytes := []
  handle : Bytes := []
  uniqueId : Bytes := []
  fn : Bytes := []
  a : Option ℕ := none
deriving DecidableEq, Repr

namespace InPack

/-- `SendData` and `SendWarning` differ in the packet type alone. -/
def sendProgress (dataType : UInt32) (inpack : InPack) (data : Bytes) : Option OutPack := do
  let hl := inpack.handle.length
  let l := hl + data.length + 1
  let out := getBuffer l
  let (out, _) ← copyTo out 0 out.length inpack.handle
  let (out, _) ← copyTo out (hl + 1) out.length data
  return { dataType, data := out }

def sendData (inpack : InPack) (data : Bytes) : Option OutPack :=
  sendProgress dtWorkData inpack data

def sendWarning (inpack : InPack) (data : Bytes) : Option OutPack :=
  sendProgress dtWorkWarning inpack data

theorem sendProgress_eq (dataType : UInt32) (inpack : InPack) (data : Bytes) :
    sendProgress dataType inpack data =
      some { dataType, data := inpack.handle ++ 0 :: data } := by
  have hz : getBuffer (inpack.handle.length + data.length + 1) =
      [] ++ zeros inpack.handle.length ++ (0 :: zeros data.length) := by
    rw [getBuffer, Nat.add_assoc, zeros_add, zeros_succ, List.nil_append]
  have hh := copyTo_append [] (zeros inpack.handle.length) (0 :: zeros data.length) inpack.handle
    (i := 0) (j := ([] ++ zeros inpack.handle.length ++ (0 :: zeros data.length)).length) rfl
    (by simp) (by simp) le_rfl
  have hd := copyTo_append (inpack.handle ++ [0]) (zeros data.length) [] data
    (i := inpack.handle.length + 1)
    (j := ((inpack.handle ++ [0]) ++ zeros data.length ++ []).length) (by simp) (by simp)
    (by simp; omega) le_rfl
  have hs : [] ++ inpack.handle ++ (0 :: zeros data.length) =
      (inpack.handle ++ [0]) ++ zeros data.length ++ [] := by simp
  simp only [sendProgress, hz, hh, hs, hd, Option.bind_eq_bind, Option.bind_some, Option.pure_def]
  simp

def updateStatus (inpack : InPack) (numerator denominator : Int64) : Option OutPack := do
  let n := Decimal.formatInt numerator.toInt
  let d := Decimal.formatInt denominator.toInt
  let hl := inpack.handle.length
  let nl := n.length
  let dl := d.length
  let out := getBuffer (hl + nl + dl + 2)
  let (out, _) ← copyTo out 0 out.length inpack.handle
  let (out, _) ← copyTo out (hl + 1) out.length n
  let (out, _) ← copyTo out (hl + nl + 2) out.length d
  return { dataType := dtWorkStatus, data := out }

def statusBody (handle : Bytes) (numerator denominator : Int64) : Bytes :=
  handle ++ 0 :: (Decimal.formatInt numerator.toInt ++ 0 :: Decimal.formatInt denominator.toInt)

theorem updateStatus_eq (inpack : InPack) (numerator denominator : Int64) :
    inpack.updateStatus numerator denominator =
      some { dataType := dtWorkStatus,
             data := statusBody inpack.handle numerator denominator } := by
  unfold updateStatus statusBody
  generalize Decimal.formatInt numerator.toInt = n
  generalize Decimal.formatInt denominator.toInt = d
  generalize inpack.handle = h
  have hz : getBuffer (h.length + n.length + d.length + 2) =
      [] ++ zeros h.length ++ 0 :: (zeros n.length ++ 0 :: zeros d.length) := by
    rw [show h.length + n.length + d.length + 2 = h.length + (n.length + (d.length + 1) + 1) by
      omega, getBuffer, zeros_add, zeros_succ, zeros_add, zeros_succ, List.nil_append]
  have hh := copyTo_append [] (zeros h.length) (0 :: (zeros n.length ++ 0 :: zeros d.length)) h
    (i := 0) (j := ([] ++ zeros h.length ++ 0 :: (zeros n.length ++ 0 :: zeros d.length)).length)
    rfl (by simp) (by simp) le_rfl
  have hn := copyTo_append (h ++ [0]) (zeros n.length) (0 :: zeros d.length) n
    (i := h.length + 1) (j := ((h ++ [0]) ++ zeros n.length ++ 0 :: zeros d.length).length)
    (by simp) (by simp) (by simp; omega) le_rfl
  have hd := copyTo_append (h ++ 0 :: (n ++ [0])) (zeros d.length) [] d
    (i := h.length + n.length + 2)
    (j := ((h ++ 0 :: (n ++ [0])) ++ zeros d.length ++ []).length) (by simp; omega) (by simp)
    (by simp; omega) le_rfl
  have e₁ : [] ++ h ++ 0 :: (zeros n.length ++ 0 :: zeros d.length) =
      (h ++ [0]) ++ zeros n.length ++ 0 :: zeros d.length := by simp
  have e₂ : (h ++ [0]) ++ n ++ 0 :: zeros d.length =
      (h ++ 0 :: (n ++ [0])) ++ zeros d.length ++ [] := by simp
  simp only [hz, hh, e₁, hn, e₂, hd, Option.bind_eq_bind, Option.bind_some, Option.pure_def]
  simp

def decodeFields (inpack : InPack) (dt : Bytes) : Option InPack :=
  if inpack.dataType = dtJobAssign then
    match indexByte 0 dt with
    | none => return inpack
    | some i => do
      let rest ← slice dt (i + 1) dt.length
      match indexByte 0 rest with
      | none => return inpack
      | some j =>
        let j := j + (i + 1)
        let handle ← slice dt 0 i
        let fn ← slice dt (i + 1) j
        let data ← slice dt (j + 1) dt.length
        return { inpack with handle, fn, data }
  else if inpack.dataType = dtJobAssignUniq then
    match indexByte 0 dt with
    | none => return inpack
    | some i => do
      let rest ← slice dt (i + 1) dt.length
      match indexByte 0 rest with
      | none => return inpack
      | some j =>
        let j := j + (i + 1)
        let rest ← slice dt (j + 1) dt.length
        match indexByte 0 rest with
        | none => return inpack
        | some k =>
          let k := k + (j + 1)
          let handle ← slice dt 0 i
          let fn ← slice dt (i + 1) j
          let uniqueId ← slice dt (j + 1) k
          let data ← slice dt (k + 1) dt.length
          return { inpack with handle, fn, uniqueId, data }
  else return { inpack with data := dt }

end InPack

/-- What a job function tells the client while it runs. -/
inductive Update
  | data (b : Bytes)
  | warning (b : Bytes)
  | status (numerator denominator : Int64)
deriving DecidableEq, Repr

namespace Update

def send (inpack : InPack) : Update → Option OutPack
  | .data b => inpack.sendData b
  | .warning b => inpack.sendWarning b
  | .status numerator denominator => inpack.updateStatus numerator denominator

def pack (inpack : InPack) : Update → OutPack
  | .data b => { dataType := dtWorkData, data := inpack.handle ++ 0 :: b }
  | .warning b => { dataType := dtWorkWarning, data := inpack.handle ++ 0 :: b }
  | .status numerator denominator =>
    { dataType := dtWorkStatus, data := InPack.statusBody inpack.handle numerator denominator }

theorem send_eq (inpack : InPack) (u : Update) : u.send inpack = some (u.pack inpack) := by
  cases u with
  | data b => exact inpack.sendProgress_eq _ b
  | warning b => exact inpack.sendProgress_eq _ b
  | status numerator denominator => exact inpack.updateStatus_eq numerator denominator

end Update

def decodeChecked (data : Bytes) (dl : ℕ) : Option (Except Err (InPack × ℕ)) :=
  if data.length < dl + minPacketLength then return .error (notEnoughData data)
  else do
    let dt ← slice data minPacketLength (dl + minPacketLength)
    if dt.length ≠ dl then return .error (invalidData data)
    else do
      let dataType ← (slice data 4 8).bind uint32
      let inpack ← InPack.decodeFields { dataType } dt
      return .ok (inpack, dl + minPacketLength)

def decodeInPack (data : Bytes) : Option (Except Err (InPack × ℕ)) :=
  if data.length < minPacketLength then return .error (invalidData data)
  else do
    let dl ← (slice data 8 12).bind uint32
    decodeChecked data dl.toNat

theorem decodeInPack_frame (magic dataType : UInt32) {body : Bytes}
    (h : body.length < lengthBound) :
    decodeInPack (frame magic dataType body) =
      (InPack.decodeFields { dataType } body).map
        (fun p => Except.ok (p, body.length + minPacketLength)) := by
  have hshort : ¬ (frame magic dataType body).length < minPacketLength := by simp [minPacketLength]
  have hlen : ¬ (frame magic dataType body).length < body.length + minPacketLength := by
    simp [minPacketLength]
    omega
  have hword : (slice (frame magic dataType body) 8 12).bind uint32 =
      some (UInt32.ofNat body.length) := by
    rw [show slice (frame magic dataType body) 8 12 =
      some (putUint32 (UInt32.ofNat body.length)) from header_bodyLen ..]
    exact uint32_word _
  have htype : (slice (frame magic dataType body) 4 8).bind uint32 = some dataType := by
    rw [show slice (frame magic dataType body) 4 8 = some (putUint32 dataType) from header_type ..]
    exact uint32_word dataType
  have hbody : slice (frame magic dataType body) minPacketLength (body.length + minPacketLength) =
      some body := frame_body ..
  have hc : decodeChecked (frame magic dataType body) body.length =
      (InPack.decodeFields { dataType } body).map
        (fun p => Except.ok (p, body.length + minPacketLength)) := by
    simp only [decodeChecked, if_neg hlen, htype, hbody, Option.bind_eq_bind, Option.bind_some,
      Option.pure_def, ne_eq, not_true_eq_false, if_false]
    cases InPack.decodeFields { dataType } body with
    | none => rfl
    | some p => rfl
  rw [decodeInPack, if_neg hshort, hword, ← hc]
  exact congrArg (decodeChecked _) (toNat_bodyLen h)

namespace InPack

theorem decodeFields_uniq (inpack : InPack) (ht : inpack.dataType = dtJobAssignUniq)
    {handle fn uniqueId : Bytes} (hh : (0 : UInt8) ∉ handle) (hf : (0 : UInt8) ∉ fn)
    (hu : (0 : UInt8) ∉ uniqueId) (data : Bytes) :
    inpack.decodeFields (handle ++ 0 :: (fn ++ 0 :: (uniqueId ++ 0 :: data))) =
      some { inpack with handle, fn, uniqueId, data } := by
  have hne : dtJobAssignUniq ≠ dtJobAssign := by decide
  have s1 : slice (handle ++ 0 :: (fn ++ 0 :: (uniqueId ++ 0 :: data))) (handle.length + 1)
      (handle ++ 0 :: (fn ++ 0 :: (uniqueId ++ 0 :: data))).length =
      some (fn ++ 0 :: (uniqueId ++ 0 :: data)) := slice_after _ _ _ rfl rfl
  have s2 : slice (handle ++ 0 :: (fn ++ 0 :: (uniqueId ++ 0 :: data)))
      (fn.length + (handle.length + 1) + 1)
      (handle ++ 0 :: (fn ++ 0 :: (uniqueId ++ 0 :: data))).length =
      some (uniqueId ++ 0 :: data) := by
    have h := slice_after (handle ++ 0 :: fn) (uniqueId ++ 0 :: data) 0
      (i := fn.length + (handle.length + 1) + 1) (by simp; omega) rfl
    simpa only [List.append_assoc, List.cons_append] using h
  have s3 : slice (handle ++ 0 :: (fn ++ 0 :: (uniqueId ++ 0 :: data))) 0 handle.length =
      some handle := slice_front _ _ rfl
  have s4 : slice (handle ++ 0 :: (fn ++ 0 :: (uniqueId ++ 0 :: data))) (handle.length + 1)
      (fn.length + (handle.length + 1)) = some fn := by
    have h := slice_append (handle ++ [0]) fn (0 :: (uniqueId ++ 0 :: data))
      (i := handle.length + 1) (j := fn.length + (handle.length + 1)) (by simp) (by omega)
    simpa only [List.append_assoc, List.cons_append, List.nil_append] using h
  have s5 : slice (handle ++ 0 :: (fn ++ 0 :: (uniqueId ++ 0 :: data)))
      (fn.length + (handle.length + 1) + 1)
      (uniqueId.length + (fn.length + (handle.length + 1) + 1)) = some uniqueId := by
    have h := slice_append (handle ++ 0 :: fn ++ [0]) uniqueId (0 :: data)
      (i := fn.length + (handle.length + 1) + 1)
      (j := uniqueId.length + (fn.length + (handle.length + 1) + 1)) (by simp; omega) (by omega)
    simpa only [List.append_assoc, List.cons_append, List.nil_append] using h
  have s6 : slice (handle ++ 0 :: (fn ++ 0 :: (uniqueId ++ 0 :: data)))
      (uniqueId.length + (fn.length + (handle.length + 1) + 1) + 1)
      (handle ++ 0 :: (fn ++ 0 :: (uniqueId ++ 0 :: data))).length = some data := by
    have h := slice_after (handle ++ 0 :: (fn ++ 0 :: uniqueId)) data 0
      (i := uniqueId.length + (fn.length + (handle.length + 1) + 1) + 1) (by simp; omega) rfl
    simpa only [List.append_assoc, List.cons_append] using h
  simp only [decodeFields, if_neg hne, ht, if_true, indexByte_append _ _ hh,
    indexByte_append _ _ hf, indexByte_append _ _ hu, s1, s2, s3, s4, s5, s6,
    Option.bind_eq_bind, Option.bind_some, Option.pure_def]

/-- A decoded job handle never holds a NUL: it is empty or ends at the first one. -/
theorem decodeFields_handle {inpack p : InPack} {dt : Bytes} (hi : (0 : UInt8) ∉ inpack.handle)
    (h : inpack.decodeFields dt = some p) : (0 : UInt8) ∉ p.handle := by
  have hfront : ∀ {i : ℕ} {x : Bytes}, indexByte 0 dt = some i → slice dt 0 i = some x →
      (0 : UInt8) ∉ x := by
    intro i x hidx hsl
    obtain ⟨a, r, rfl, ha, rfl⟩ := indexByte_eq_some hidx
    rw [slice_front a _ rfl] at hsl
    cases hsl
    exact ha
  unfold decodeFields at h
  split at h
  · split at h
    · cases h
      exact hi
    · rename_i i hidx
      simp only [Option.bind_eq_bind, Option.bind_eq_some_iff] at h
      obtain ⟨rest, -, h⟩ := h
      split at h
      · cases h
        exact hi
      · simp only [Option.bind_eq_some_iff] at h
        obtain ⟨handle, hsl, fn, -, data, -, h⟩ := h
        cases h
        exact hfront hidx hsl
  · split at h
    · split at h
      · cases h
        exact hi
      · rename_i i hidx
        simp only [Option.bind_eq_bind, Option.bind_eq_some_iff] at h
        obtain ⟨rest, -, h⟩ := h
        split at h
        · cases h
          exact hi
        · simp only [Option.bind_eq_some_iff] at h
          obtain ⟨rest', -, h⟩ := h
          split at h
          · cases h
            exact hi
          · simp only [Option.bind_eq_some_iff] at h
            obtain ⟨handle, hsl, fn, -, u, -, data, -, h⟩ := h
            cases h
            exact hfront hidx hsl
    · cases h
      exact hi

end InPack

theorem decodeInPack_handle {raw : Bytes} {p : InPack} {l : ℕ}
    (h : decodeInPack raw = some (.ok (p, l))) : (0 : UInt8) ∉ p.handle := by
  unfold decodeInPack at h
  split at h
  · cases h
  · simp only [Option.bind_eq_bind, Option.bind_eq_some_iff] at h
    obtain ⟨dl, -, h⟩ := h
    unfold decodeChecked at h
    split at h
    · cases h
    · simp only [Option.bind_eq_bind, Option.bind_eq_some_iff] at h
      obtain ⟨dt, -, h⟩ := h
      split at h
      · cases h
      · simp only [Option.bind_eq_some_iff] at h
        obtain ⟨t, -, q, hq, h⟩ := h
        cases h
        exact InPack.decodeFields_handle (by simp) hq

end Gearman.Worker
