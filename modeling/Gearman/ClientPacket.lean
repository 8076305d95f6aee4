import Gearman.Bufio
import Gearman.Decimal
import Gearman.Wire

/-!
# The client's packets: request encoders and the response decoder

`newPacket` hands out one zeroed buffer as its header and its body region, and the
encoders fill the body in place with hand-kept offsets. `decodeResponse` splits a
body at its first NUL for the types that carry a handle. Each function returns
`none` where the source would panic on an index.
-/

namespace Gearman.Client
open Bytes Wire

def queueSize : ℕ := 8
def minPacketLength : ℕ := 12
def maxPacketLength : ℕ := 67108864

def req : UInt32 := 5391697
def reqStr : Bytes := [0, 82, 69, 81]
def res : UInt32 := 5391699
def resStr : Bytes := [0, 82, 69, 83]

def dtSubmitJob : UInt32 := 7
def dtJobCreated : UInt32 := 8
def dtWorkStatus : UInt32 := 12
def dtWorkComplete : UInt32 := 13
def dtWorkFail : UInt32 := 14
def dtGetStatus : UInt32 := 15
def dtEchoReq : UInt32 := 16
def dtEchoRes : UInt32 := 17
def dtSubmitJobBg : UInt32 := 18
def dtError : UInt32 := 19
def dtStatusRes : UInt32 := 20
def dtSubmitJobHigh : UInt32 := 21
def dtWorkException : UInt32 := 25
def dtOptionReq : UInt32 := 26
def dtOptionRes : UInt32 := 27
def dtWorkData : UInt32 := 28
def dtWorkWarning : UInt32 := 29
def dtSubmitJobHighBg : UInt32 := 32
def dtSubmitJobLow : UInt32 := 33
def dtSubmitJobLowBg : UInt32 := 34

/-- The in-process marker `connect` pushes; one above every 31-bit type. -/
def dtOptionSent : UInt32 := 2147483648

def optionExceptions : Bytes := [101, 120, 99, 101, 112, 116, 105, 111, 110, 115]

inductive Arg
  | bytes (b : Bytes)
  | int (n : ℕ)
deriving DecidableEq, Repr

inductive Err
  | workWarning
  | invalidId
  | workFail
  | workException
  | dataType
  | lostConn
  | errorf (format : String) (args : List Arg)
  | read (e : Bufio.ReadErr)
  | op (timeout : Bool)
deriving DecidableEq, Repr

def invalidData (data : Bytes) : Err := .errorf "Invalid data: %v" [.bytes data]

def getError (data : Bytes) : Err :=
  match indexByte 0 data with
  | none => .errorf "Not a error data: %v" [.bytes data]
  | some i => .errorf "%s: %s" [.bytes (data.take i), .bytes (data.drop (i + 1))]

def getBuffer (l : ℕ) : Bytes := zeros l

/-- The header region and the body region of one zeroed packet buffer. -/
def newPacket (dataType : UInt32) (bodyLen : ℕ) : Option (Bytes × Bytes) := do
  let packet := getBuffer (minPacketLength + bodyLen)
  let packet ← putHeader packet reqStr dataType bodyLen
  let hdr ← slice packet 0 minPacketLength
  let body ← slice packet minPacketLength packet.length
  return (hdr, body)

def encodeRequest (dataType : UInt32) (arg : Bytes) : Option Bytes := do
  let (hdr, body) ← newPacket dataType arg.length
  let (body, _) ← copyTo body 0 body.length arg
  return hdr ++ body

def encodeRequestString (dataType : UInt32) (arg : Bytes) : Option Bytes :=
  encodeRequest dataType arg

def encodeJob (dataType : UInt32) (funcname id data : Bytes) : Option Bytes := do
  let (hdr, body) ← newPacket dataType (funcname.length + 1 + id.length + 1 + data.length)
  let (body, n) ← copyTo body 0 body.length funcname
  let body ← setAt body n 0
  let n := n + 1
  let (body, m) ← copyTo body n body.length id
  let n := n + m
  let body ← setAt body n 0
  let n := n + 1
  let (body, _) ← copyTo body n body.length data
  return hdr ++ body

theorem newPacket_eq (dataType : UInt32) (n : ℕ) :
    newPacket dataType n = some (header req dataType n, zeros n) := by
  have hh : putHeader (getBuffer (minPacketLength + n)) reqStr dataType n =
      some (header req dataType n ++ zeros n) := by
    have h := putHeader_eq req dataType n (b := zeros minPacketLength ++ zeros n)
      (by simp [minPacketLength])
    rw [getBuffer, zeros_add]
    rwa [show (zeros minPacketLength ++ zeros n).drop 12 = zeros n from List.drop_left' rfl] at h
  have hf : slice (header req dataType n ++ zeros n) 0 minPacketLength =
      some (header req dataType n) := slice_front _ _ rfl
  have hb : slice (header req dataType n ++ zeros n) minPacketLength
      (header req dataType n ++ zeros n).length = some (zeros n) := slice_tail _ _ rfl rfl
  simp only [newPacket, hh, hf, hb, Option.bind_eq_bind, Option.bind_some, Option.pure_def]

theorem encodeRequest_eq (dataType : UInt32) (arg : Bytes) :
    encodeRequest dataType arg = some (frame req dataType arg) := by
  have h : copyTo (zeros arg.length) 0 arg.length arg = some (arg, arg.length) := by
    simpa using copyTo_append [] (zeros arg.length) [] arg (j := arg.length) rfl
      (by simp) (by simp) (by simp)
  simp [encodeRequest, newPacket_eq, h, frame]

def jobBody (funcname id data : Bytes) : Bytes := funcname ++ 0 :: (id ++ 0 :: data)

theorem encodeJob_eq (dataType : UInt32) (funcname id data : Bytes) :
    encodeJob dataType funcname id data = some (frame req dataType (jobBody funcname id data)) := by
  have hz : zeros (funcname.length + 1 + id.length + 1 + data.length) =
      [] ++ zeros funcname.length ++ (0 :: (zeros id.length ++ 0 :: zeros data.length)) := by
    rw [zeros_add, zeros_add, zeros_add, zeros_add]
    simp [zeros_succ]
  have h1 : copyTo (zeros (funcname.length + 1 + id.length + 1 + data.length)) 0
      (zeros (funcname.length + 1 + id.length + 1 + data.length)).length funcname =
      some (funcname ++ 0 :: (zeros id.length ++ 0 :: zeros data.length), funcname.length) := by
    rw [hz]
    exact copyTo_append _ _ _ _ rfl (by simp) (by simp) le_rfl
  have h2 : setAt (funcname ++ 0 :: (zeros id.length ++ 0 :: zeros data.length))
      funcname.length 0 =
        some ((funcname ++ [0]) ++ zeros id.length ++ 0 :: zeros data.length) := by
    rw [setAt_append _ _ _ _ rfl]
    simp
  have h3 : copyTo ((funcname ++ [0]) ++ zeros id.length ++ 0 :: zeros data.length)
      (funcname.length + 1) ((funcname ++ [0]) ++ zeros id.length ++ 0 :: zeros data.length).length
      id = some ((funcname ++ [0]) ++ id ++ 0 :: zeros data.length, id.length) :=
    copyTo_append _ _ _ _ (by simp) (by simp) (by simp; omega) le_rfl
  have h4 : setAt ((funcname ++ [0]) ++ id ++ 0 :: zeros data.length)
      (funcname.length + 1 + id.length) 0 =
      some ((funcname ++ 0 :: (id ++ [0])) ++ zeros data.length ++ []) := by
    rw [setAt_append _ _ _ _ (by simp; omega)]
    simp
  have h5 : copyTo ((funcname ++ 0 :: (id ++ [0])) ++ zeros data.length ++ [])
      (funcname.length + 1 + id.length + 1)
      ((funcname ++ 0 :: (id ++ [0])) ++ zeros data.length ++ []).length data =
      some ((funcname ++ 0 :: (id ++ [0])) ++ data ++ [], data.length) :=
    copyTo_append _ _ _ _ (by simp; omega) (by simp) (by simp; omega) le_rfl
  have hl : (jobBody funcname id data).length =
      funcname.length + 1 + id.length + 1 + data.length := by
    simp [jobBody]
    omega
  simp only [encodeJob, newPacket_eq, h1, h2, h3, h4, h5, Option.bind_eq_bind, Option.bind_some,
    Option.pure_def, frame, hl]
  simp [jobBody]

structure Response where
  dataType : UInt32
  data : Option Bytes := none
  handle : Bytes := []
deriving DecidableEq, Repr

def splitsHandle (dataType : UInt32) : Bool :=
  dataType = dtStatusRes || dataType = dtWorkData || dataType = dtWorkWarning ||
    dataType = dtWorkStatus || dataType = dtWorkComplete || dataType = dtWorkException

def decodeBody (packet : Bytes) (dataType : UInt32) (dt : Bytes) : Option (Except Err Response) :=
  if dataType = dtJobCreated then return .ok { dataType, handle := dt }
  else if splitsHandle dataType then
    match indexByte 0 dt with
    | none => return .error (invalidData packet)
    | some i => do
      let handle ← slice dt 0 i
      let data ← slice dt (i + 1) dt.length
      return .ok { dataType, data := some data, handle }
  else if dataType = dtWorkFail then
    match indexByte 0 dt with
    | some i => do
      let handle ← slice dt 0 i
      return .ok { dataType, handle }
    | none => return .ok { dataType, handle := dt }
  else return .ok { dataType, data := some dt }

def decodeChecked (data : Bytes) (dl : ℕ) : Option (Except Err (Response × ℕ)) :=
  if data.length < minPacketLength + dl then return .error (invalidData data)
  else do
    let dt ← slice data minPacketLength (dl + minPacketLength)
    if dt.length ≠ dl then return .error (invalidData data)
    else do
      let dataType ← (slice data 4 8).bind uint32
      let resp ← decodeBody data dataType dt
      return resp.map (·, dl + minPacketLength)

def decodeResponse (data : Bytes) : Option (Except Err (Response × ℕ)) :=
  if data.length < minPacketLength then return .error (invalidData data)
  else do
    let dl ← (slice data 8 12).bind uint32
    decodeChecked data dl.toNat

theorem decodeChecked_front (magic dataType : UInt32) (n : ℕ) (dt rest : Bytes) :
    decodeChecked (header magic dataType n ++ dt ++ rest) dt.length =
      (decodeBody (header magic dataType n ++ dt ++ rest) dataType dt).map
        (Except.map (·, dt.length + minPacketLength)) := by
  have hlen : ¬ (header magic dataType n ++ dt ++ rest).length < minPacketLength + dt.length := by
    simp [minPacketLength]
  have htype : (slice (header magic dataType n ++ dt ++ rest) 4 8).bind uint32 =
      some dataType := by
    rw [List.append_assoc, header_type]
    exact uint32_word dataType
  have hbody : slice (header magic dataType n ++ dt ++ rest) minPacketLength
      (dt.length + minPacketLength) = some dt :=
    slice_append _ _ _ rfl (Nat.add_comm _ _)
  simp only [decodeChecked, if_neg hlen, htype, hbody, Option.bind_eq_bind, Option.bind_some,
    Option.pure_def, ne_eq, not_true_eq_false, if_false]
  cases decodeBody (header magic dataType n ++ dt ++ rest) dataType dt with
  | none => rfl
  | some r => rfl

/-- A length past 32 bits wraps in the header, and the decoder takes it at its word. -/
theorem decodeResponse_wraps (magic dataType : UInt32) (body : Bytes) :
    decodeResponse (frame magic dataType body) =
      (decodeBody (frame magic dataType body) dataType
        (body.take (body.length % lengthBound))).map
        (Except.map (·, body.length % lengthBound + minPacketLength)) := by
  have hlen : ¬ (frame magic dataType body).length < minPacketLength := by simp [minPacketLength]
  have hword : (slice (frame magic dataType body) 8 12).bind uint32 =
      some (UInt32.ofNat body.length) := by
    rw [show slice (frame magic dataType body) 8 12 =
      some (putUint32 (UInt32.ofNat body.length)) from header_bodyLen ..]
    exact uint32_word _
  have hn : (UInt32.ofNat body.length).toNat = body.length % lengthBound := UInt32.toNat_ofNat'
  have ht : (body.take (body.length % lengthBound)).length = body.length % lengthBound := by
    simpa using Nat.mod_le _ _
  have hsplit : frame magic dataType body = header magic dataType body.length ++
      body.take (body.length % lengthBound) ++ body.drop (body.length % lengthBound) := by
    rw [List.append_assoc, List.take_append_drop, frame]
  have hc := decodeChecked_front magic dataType body.length
    (body.take (body.length % lengthBound)) (body.drop (body.length % lengthBound))
  rw [← hsplit, ht] at hc
  rw [decodeResponse, if_neg hlen, hword, ← hc]
  exact congrArg (decodeChecked _) hn

theorem decodeResponse_frame (magic dataType : UInt32) {body : Bytes}
    (h : body.length < lengthBound) :
    decodeResponse (frame magic dataType body) =
      (decodeBody (frame magic dataType body) dataType body).map
        (Except.map (·, body.length + minPacketLength)) := by
  rw [decodeResponse_wraps, Nat.mod_eq_of_lt h, List.take_length]

theorem decodeBody_split {dataType : UInt32} (ht : splitsHandle dataType = true) (packet : Bytes)
    {handle : Bytes} (hh : (0 : UInt8) ∉ handle) (data : Bytes) :
    decodeBody packet dataType (handle ++ 0 :: data) =
      some (.ok { dataType, data := some data, handle }) := by
  have hc : dataType ≠ dtJobCreated := by
    rintro rfl
    exact absurd ht (by decide)
  have hs : slice (handle ++ 0 :: data) (handle.length + 1) (handle ++ 0 :: data).length =
      some data := slice_after _ _ _ rfl rfl
  have hf : slice (handle ++ 0 :: data) 0 handle.length = some handle := slice_front _ _ rfl
  simp only [decodeBody, if_neg hc, ht, if_true, indexByte_append _ _ hh, hf, hs,
    Option.bind_eq_bind, Option.bind_some, Option.pure_def]

theorem decodeBody_unsplit {dataType : UInt32} (ht : splitsHandle dataType = true)
    (packet : Bytes) {dt : Bytes} (h : (0 : UInt8) ∉ dt) :
    decodeBody packet dataType dt = some (.error (invalidData packet)) := by
  have hc : dataType ≠ dtJobCreated := by
    rintro rfl
    exact absurd ht (by decide)
  simp only [decodeBody, if_neg hc, ht, if_true, (indexByte_eq_none dt).mpr h, Option.pure_def]

theorem decodeBody_workFail (packet : Bytes) {handle : Bytes} (hh : (0 : UInt8) ∉ handle) :
    decodeBody packet dtWorkFail handle = some (.ok { dataType := dtWorkFail, handle }) := by
  have hn := (indexByte_eq_none handle).mpr hh
  simp [decodeBody, hn, show splitsHandle dtWorkFail = false from rfl,
    show dtWorkFail ≠ dtJobCreated by decide]

def Response.result (resp : Response) : Option Bytes × Option Err :=
  if resp.dataType = dtWorkFail then (none, some .workFail)
  else if resp.dataType = dtWorkException then (resp.data, some .workException)
  else if resp.dataType = dtWorkComplete then (resp.data, none)
  else (none, some .dataType)

def Response.update (resp : Response) : Option Bytes × Option Err :=
  if resp.dataType ≠ dtWorkData ∧ resp.dataType ≠ dtWorkWarning then (none, some .dataType)
  else (resp.data, if resp.dataType = dtWorkWarning then some .workWarning else none)

structure Status where
  handle : Bytes
  known : Bool
  running : Bool
  numerator : ℕ
  denominator : ℕ
deriving DecidableEq, Repr

def parseUintLoop : ℕ → Bytes → ℕ × Bool
  | n, [] => (n, false)
  | n, b :: bs =>
    if !Decimal.isDigit b then (0, true)
    else if 2 ^ 64 ≤ 10 * n + (b.toNat - 48) then (2 ^ 64 - 1, true)
    else parseUintLoop (10 * n + (b.toNat - 48)) bs

/-- `strconv.ParseUint` in base 10 on 64 bits: the value, and whether there is an error. -/
def parseUint (s : Bytes) : ℕ × Bool := if s = [] then (0, true) else parseUintLoop 0 s

def invalidInteger (field : Bytes) : Err := .errorf "Invalid Integer: %s" [.bytes field]

/-- The tail `Status` and `_status` share. A number that does not parse leaves a
half-filled status beside the error. -/
def Status.parseNumbers (status : Status) (numerator denominator : Bytes) :
    Option Status × Option Err :=
  let status := { status with numerator := (parseUint numerator).1 }
  if (parseUint numerator).2 then (some status, some (invalidInteger numerator))
  else
    let status := { status with denominator := (parseUint denominator).1 }
    if (parseUint denominator).2 then (some status, some (invalidInteger denominator))
    else (some status, none)

def Response.status (resp : Response) : Option Status × Option Err :=
  let data := resp.data.getD []
  match splitN 0 2 data with
  | [numerator, denominator] =>
    let status : Status :=
      { handle := resp.handle, known := true, running := true, numerator := 0, denominator := 0 }
    status.parseNumbers numerator denominator
  | _ => (none, some (invalidData data))

/-- The first `n` fields and what follows their separators. -/
def cutFields : ℕ → Bytes → Option (List Bytes × Bytes)
  | 0, rest => some ([], rest)
  | n + 1, rest => do
    let j ← indexByte 0 rest
    let (fields, tail) ← cutFields n (rest.drop (j + 1))
    return (rest.take j :: fields, tail)

/-- A number that does not parse leaves a half-filled status beside the error. -/
def Response._status (resp : Response) : Option Status × Option Err :=
  let data := resp.data.getD []
  match cutFields 3 data with
  | some ([known :: _, running :: _, numerator], denominator) =>
    let status : Status :=
      { handle := resp.handle, known := known = 49, running := running = 49,
        numerator := (parseUint numerator).1, denominator := 0 }
    if (parseUint numerator).2 then (some status, some (invalidInteger numerator))
    else
      let status := { status with denominator := (parseUint denominator).1 }
      if (parseUint denominator).2 then (some status, some (invalidInteger denominator))
      else (some status, none)
  | _ => (none, some (invalidData data))

end Gearman.Client
