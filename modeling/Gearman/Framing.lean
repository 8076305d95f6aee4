import Gearman.ClientPacket
import Gearman.WorkerPacket

/-!
# Framing: the two readers cut the same packets out of a stream

`Client.readPacket` reads the header into scratch with `io.ReadFull`, while
`Worker.read` peeks at it, copies it and discards it. Both are reduced to `next`,
one greedy cut at the front of the bytes still to come. The greedy parse itself
is stated without either reader: well-formed packets back to back, then a rest
that is truncated, has another magic or declares a longer body.
-/

namespace Gearman
open Bytes Wire Bufio

/-- The tail both readers share: one slice for header and body, the body filled by
`io.ReadFull`. -/
def readBody (hdr : Bytes) (bodyLen : ℕ) (r : Reader) :
    Option (Except ReadErr Bytes × Reader) := do
  let packet := zeros (12 + bodyLen)
  let (packet, _) ← copyTo packet 0 packet.length hdr
  if 0 < bodyLen then
    match r.readFull bodyLen with
    | (.error e, r) => return (.error e, r)
    | (.ok body, r) => do
      let (packet, _) ← copyTo packet 12 packet.length body
      return (.ok packet, r)
  else return (.ok packet, r)

namespace Client

def badMagic (hdr : Bytes) : Err :=
  .errorf "bad packet magic %q, want %q" [.bytes (hdr.take 4), .bytes resStr]

def overLong (bodyLen : ℕ) : Err :=
  .errorf "packet body of %d bytes exceeds the %d-byte limit"
    [.int bodyLen, .int maxPacketLength]

def readPacket (r : Reader) : Option (Except Err Bytes × Reader) :=
  match r.readFull minPacketLength with
  | (.error e, r) => return (.error (.read e), r)
  | (.ok hdr, r) => do
    let magic ← (slice hdr 0 4).bind uint32
    if magic ≠ res then return (.error (badMagic hdr), r)
    else do
      let bodyLen ← (slice hdr 8 12).bind uint32
      if maxPacketLength < bodyLen.toNat then return (.error (overLong bodyLen.toNat), r)
      else do
        let (packet, r) ← readBody hdr bodyLen.toNat r
        return (packet.mapError .read, r)

end Client

namespace Worker

def badMagic (hdr : Bytes) : Err :=
  .errorf "bad packet magic %q, want %q" [.bytes (hdr.take 4), .bytes resStr]

def overLong (bodyLen : ℕ) : Err :=
  .errorf "packet body of %d bytes exceeds the %d-byte limit"
    [.int bodyLen, .int maxPacketLength]

/-- A rejected header stays buffered: both tests precede `discard`. -/
def read (r : Reader) : Option (Except Err Bytes × Reader) :=
  match r.peek minPacketLength with
  | (.error e, r) => return (.error (.read e), r)
  | (.ok hdr, r) => do
    let magic ← (slice hdr 0 4).bind uint32
    if magic ≠ res then return (.error (badMagic hdr), r)
    else do
      let bodyLen ← (slice hdr 8 12).bind uint32
      if maxPacketLength < bodyLen.toNat then return (.error (overLong bodyLen.toNat), r)
      else do
        let (data, r) ← readBody hdr bodyLen.toNat (r.discard minPacketLength)
        return (data.mapError .read, r)

inductive Reaction
  | again
  | disconnect
  | redial
deriving DecidableEq, Repr

def onReadError : Err → Reaction
  | .op true => .again
  | .op false => .disconnect
  | .read .eof => .disconnect
  | .read .unexpectedEOF => .disconnect
  | _ => .redial

end Worker

namespace Framing

inductive Cause
  | truncated
  | badMagic
  | overLong
deriving DecidableEq, Repr

def WellFormed (p : Bytes) : Prop :=
  ∃ dataType body, p = frame Client.res dataType body ∧ body.length ≤ Client.maxPacketLength

def Stops (s : Bytes) : Cause → Prop
  | .truncated => s.length < 12 ∨ ∃ dataType n r, s = header Client.res dataType n ++ r ∧
      n ≤ Client.maxPacketLength ∧ r.length < n
  | .badMagic => ∃ magic dataType n r, s = header magic dataType n ++ r ∧ magic ≠ Client.res
  | .overLong => ∃ dataType n r, s = header Client.res dataType n ++ r ∧
      Client.maxPacketLength < n ∧ n < lengthBound

/-- Whole packets back to back, up to the first position where none starts. -/
def GreedyParse (s : Bytes) (ps : List Bytes) (c : Cause) : Prop :=
  ∃ rest, s = ps.flatten ++ rest ∧ (∀ p ∈ ps, WellFormed p) ∧ Stops rest c

def cut (s : Bytes) : Except Cause (Bytes × Bytes) :=
  match uint32 s, uint32 (s.drop 8) with
  | some magic, some n =>
    if magic ≠ Client.res then .error .badMagic
    else if Client.maxPacketLength < n.toNat then .error .overLong
    else if s.length < 12 + n.toNat then .error .truncated
    else .ok (s.take (12 + n.toNat), s.drop (12 + n.toNat))
  | _, _ => .error .truncated

theorem uint32_length {b : Bytes} {v : UInt32} (h : uint32 b = some v) : 4 ≤ b.length := by
  match b, h with
  | _ :: _ :: _ :: _ :: _, _ => simp

theorem cut_short {s : Bytes} (hs : s.length < 12) : cut s = .error .truncated := by
  unfold cut
  split
  · rename_i magic n _ hl
    have hlen := uint32_length hl
    rw [List.length_drop] at hlen
    omega
  · rfl

theorem header_surj_of_le {s : Bytes} (h : 12 ≤ s.length) :
    ∃ magic dataType n r, s = header magic dataType n ++ r ∧ n < lengthBound := by
  obtain ⟨magic, dataType, n, hh, hn⟩ := header_surj (b := s.take 12) (by simp; omega)
  exact ⟨magic, dataType, n, s.drop 12, by rw [← hh, List.take_append_drop], hn⟩

theorem cut_header (magic dataType : UInt32) {n : ℕ} (hn : n < lengthBound) (r : Bytes) :
    cut (header magic dataType n ++ r) =
      if magic ≠ Client.res then .error .badMagic
      else if Client.maxPacketLength < n then .error .overLong
      else if r.length < n then .error .truncated
      else .ok (header magic dataType n ++ r.take n, r.drop n) := by
  have hm : uint32 (header magic dataType n ++ r) = some magic := by
    rw [header, List.append_assoc, List.append_assoc]
    exact uint32_putUint32 _ _
  have hl : uint32 ((header magic dataType n ++ r).drop 8) = some (UInt32.ofNat n) := by
    rw [header, List.append_assoc]
    exact uint32_putUint32 _ _
  have ht : (header magic dataType n ++ r).take (12 + n) = header magic dataType n ++ r.take n := by
    rw [List.take_append, header_length, Nat.add_sub_cancel_left,
      List.take_of_length_le (by simp)]
  have hd : (header magic dataType n ++ r).drop (12 + n) = r.drop n := by
    rw [List.drop_append, header_length, Nat.add_sub_cancel_left,
      List.drop_eq_nil_of_le (by simp), List.nil_append]
  simp only [cut, hm, hl, toNat_bodyLen hn, ht, hd, List.length_append, header_length,
    Nat.add_lt_add_iff_left]

theorem cut_ok {s p rest : Bytes} (h : cut s = .ok (p, rest)) : s = p ++ rest ∧ WellFormed p := by
  by_cases hs : s.length < 12
  · rw [cut_short hs] at h
    cases h
  · obtain ⟨magic, dataType, n, r, rfl, hn⟩ := header_surj_of_le (not_lt.mp hs)
    rw [cut_header magic dataType hn] at h
    split_ifs at h with hm hlong hshort
    cases h
    rw [ne_eq, not_not] at hm
    have hl : (r.take n).length = n := by
      rw [List.length_take]
      omega
    refine ⟨by rw [List.append_assoc, List.take_append_drop], dataType, r.take n, ?_, by omega⟩
    rw [frame, hl, hm]

theorem cut_stop {s : Bytes} {c : Cause} (h : cut s = .error c) : Stops s c := by
  by_cases hs : s.length < 12
  · rw [cut_short hs] at h
    cases h
    exact Or.inl hs
  · obtain ⟨magic, dataType, n, r, rfl, hn⟩ := header_surj_of_le (not_lt.mp hs)
    rw [cut_header magic dataType hn] at h
    split_ifs at h with hm hlong hshort
    · cases h
      exact ⟨magic, dataType, n, r, rfl, hm⟩
    · cases h
      rw [ne_eq, not_not] at hm
      exact ⟨dataType, n, r, by rw [hm], hlong, hn⟩
    · cases h
      rw [ne_eq, not_not] at hm
      exact Or.inr ⟨dataType, n, r, by rw [hm], by omega, hshort⟩

def greedyFrom : ℕ → Bytes → List Bytes × Cause
  | 0, _ => ([], .truncated)
  | fuel + 1, s =>
    match cut s with
    | .error c => ([], c)
    | .ok (p, rest) => (p :: (greedyFrom fuel rest).1, (greedyFrom fuel rest).2)

def greedy (s : Bytes) : List Bytes × Cause := greedyFrom (s.length + 1) s

theorem WellFormed.length_pos {p : Bytes} (h : WellFormed p) : 0 < p.length := by
  obtain ⟨dataType, body, rfl, -⟩ := h
  simp

theorem greedyFrom_parse (fuel : ℕ) (s : Bytes) (hf : s.length < fuel) :
    GreedyParse s (greedyFrom fuel s).1 (greedyFrom fuel s).2 := by
  induction fuel generalizing s with
  | zero => omega
  | succ fuel ih =>
    cases hc : cut s with
    | error c =>
      simp only [greedyFrom, hc]
      exact ⟨s, rfl, by simp, cut_stop hc⟩
    | ok q =>
      obtain ⟨p, rest⟩ := q
      obtain ⟨rfl, hp⟩ := cut_ok hc
      have hpos := hp.length_pos
      rw [List.length_append] at hf
      obtain ⟨tail, hrest, hps, hstop⟩ := ih rest (by omega)
      simp only [greedyFrom, hc]
      refine ⟨tail, ?_, ?_, hstop⟩
      · rw [List.flatten_cons, List.append_assoc, ← hrest]
      · intro q hq
        rcases List.mem_cons.mp hq with rfl | hq
        · exact hp
        · exact hps q hq

theorem greedy_parse (s : Bytes) : GreedyParse s (greedy s).1 (greedy s).2 :=
  greedyFrom_parse _ _ (Nat.lt_succ_self _)

theorem GreedyParse.length_le {s : Bytes} {ps : List Bytes} {c : Cause}
    (h : GreedyParse s ps c) : ps.length ≤ s.length := by
  obtain ⟨rest, rfl, hps, -⟩ := h
  rw [List.length_append, List.length_flatten]
  have hsum : ∀ l : List Bytes, (∀ p ∈ l, WellFormed p) → l.length ≤ (l.map List.length).sum := by
    intro l
    induction l with
    | nil => simp
    | cons p l ih =>
      intro hl
      have hp := (hl p (by simp)).length_pos
      have ht := ih (fun q hq => hl q (by simp [hq]))
      simp only [List.length_cons, List.map_cons, List.sum_cons]
      omega
  exact (hsum ps hps).trans (Nat.le_add_right _ _)

theorem header_take (magic dataType : UInt32) (n : ℕ) (r : Bytes) :
    (header magic dataType n ++ r).take 12 = header magic dataType n := List.take_left' rfl

theorem header_drop (magic dataType : UInt32) (n : ℕ) (r : Bytes) :
    (header magic dataType n ++ r).drop 12 = r := List.drop_left' rfl

theorem magicWord (magic dataType : UInt32) (n : ℕ) :
    (slice (header magic dataType n) 0 4).bind uint32 = some magic := by
  have h := header_magic magic dataType n []
  rw [List.append_nil] at h
  rw [h]
  exact uint32_word magic

theorem lengthWord (magic dataType : UInt32) (n : ℕ) :
    (slice (header magic dataType n) 8 12).bind uint32 = some (UInt32.ofNat n) := by
  have h := header_bodyLen magic dataType n []
  rw [List.append_nil] at h
  rw [h]
  exact uint32_word _

theorem copyHeader {hdr : Bytes} (hh : hdr.length = 12) (n : ℕ) :
    copyTo (zeros (12 + n)) 0 (zeros (12 + n)).length hdr = some (hdr ++ zeros n, 12) := by
  have h := copyTo_append [] (zeros 12) (zeros n) hdr (i := 0) (j := 12 + n) rfl (by simp [hh])
    (by simp [hh]) (by simp)
  rw [← hh]
  simpa [zeros_add, hh] using h

theorem copyBody {hdr : Bytes} (hh : hdr.length = 12) (body : Bytes) :
    copyTo (hdr ++ zeros body.length) 12 (hdr ++ zeros body.length).length body =
      some (hdr ++ body, body.length) := by
  have h := copyTo_append hdr (zeros body.length) [] body (i := 12)
    (j := (hdr ++ zeros body.length).length) hh.symm (by simp) (by simp [hh]) (by simp)
  simpa only [List.append_nil] using h

theorem readBody_ok {hdr : Bytes} (hh : hdr.length = 12) {r : Reader} (hsz : 0 < r.size)
    {body rest : Bytes} (hc : r.content = body ++ rest) :
    ∃ r', readBody hdr body.length r = some (.ok (hdr ++ body), r') ∧ r'.content = rest ∧
      r'.size = r.size := by
  have hcopy := copyHeader hh body.length
  by_cases hpos : 0 < body.length
  · obtain ⟨r', hread, hcont, hsize⟩ := readFull_ok (r := r) (k := body.length) hsz (by simp [hc])
    rw [hc, List.take_left] at hread
    rw [hc, List.drop_left] at hcont
    refine ⟨r', ?_, hcont, hsize⟩
    simp only [readBody, hcopy, hpos, if_true, hread, copyBody hh, Option.bind_eq_bind,
      Option.bind_some, Option.pure_def]
  · have hb : body = [] := List.length_eq_zero_iff.mp (by omega)
    subst hb
    refine ⟨r, ?_, by simpa using hc, rfl⟩
    simp only [readBody, hcopy, hpos, if_false, Option.bind_eq_bind, Option.bind_some,
      Option.pure_def]
    simp

theorem readBody_short {hdr : Bytes} (hh : hdr.length = 12) {r : Reader} (hsz : 0 < r.size)
    {n : ℕ} (hc : r.content.length < n) :
    ∃ e r', readBody hdr n r = some (.error e, r') ∧ (e = .eof ∨ e = .unexpectedEOF) ∧
      r'.content = [] ∧ r'.size = r.size := by
  obtain ⟨e, r', hread, he⟩ := readFull_short hsz hc
  have hpos : 0 < n := by omega
  refine ⟨e, r', ?_, he⟩
  simp only [readBody, copyHeader hh n, hpos, if_true, hread, Option.bind_eq_bind,
    Option.bind_some, Option.pure_def]

end Framing

namespace Client
open Framing

theorem readPacket_ok {r : Reader} (hsz : 0 < r.size) {dataType : UInt32} {body rest : Bytes}
    (hb : body.length ≤ maxPacketLength) (hc : r.content = frame res dataType body ++ rest) :
    ∃ r', readPacket r = some (.ok (frame res dataType body), r') ∧ r'.content = rest ∧
      r'.size = r.size := by
  have hc' : r.content = header res dataType body.length ++ (body ++ rest) := by
    rw [hc, frame, List.append_assoc]
  obtain ⟨r₁, hread, hcont, hsize⟩ := readFull_ok (r := r) (k := minPacketLength) hsz (by
    rw [hc', List.length_append, header_length]
    exact Nat.le_add_right _ _)
  rw [hc', minPacketLength, header_take] at hread
  rw [hc', minPacketLength, header_drop] at hcont
  obtain ⟨r₂, hbody, hcont₂, hsize₂⟩ := readBody_ok (header_length res dataType body.length)
    (hsize ▸ hsz) hcont
  have hlen : (UInt32.ofNat body.length).toNat = body.length :=
    toNat_bodyLen (lt_of_le_of_lt hb (by decide))
  refine ⟨r₂, ?_, hcont₂, hsize₂.trans hsize⟩
  simp only [readPacket, minPacketLength, hread, magicWord, lengthWord, hlen, if_neg hb.not_gt,
    Option.bind_eq_bind, Option.bind_some, ne_eq, not_true_eq_false, if_false, hbody, frame,
    Except.mapError, Option.pure_def]

theorem readPacket_stop {r : Reader} (hsz : 0 < r.size) {c : Cause} (hc : Stops r.content c) :
    ∃ e r', readPacket r = some (.error e, r') := by
  by_cases hl : r.content.length < 12
  · obtain ⟨e, r', hread, -⟩ := readFull_short (r := r) (k := minPacketLength) hsz hl
    exact ⟨.read e, r', by simp only [readPacket, hread, Option.pure_def]⟩
  · obtain ⟨r₁, hread, hcont, hsize⟩ := readFull_ok (r := r) (k := minPacketLength) hsz
      (not_lt.mp hl)
    cases c with
    | truncated =>
      rcases hc with hc | ⟨dataType, n, rest, hs, hn, hr⟩
      · exact absurd hc hl
      · rw [hs, minPacketLength, header_take] at hread
        rw [hs, minPacketLength, header_drop] at hcont
        obtain ⟨e, r₂, hbody, -⟩ := readBody_short (header_length res dataType n) (hsize ▸ hsz)
          (hcont ▸ hr)
        have hlen : (UInt32.ofNat n).toNat = n := toNat_bodyLen (lt_of_le_of_lt hn (by decide))
        refine ⟨.read e, r₂, ?_⟩
        simp only [readPacket, minPacketLength, hread, magicWord, lengthWord, hlen,
          if_neg hn.not_gt, Option.bind_eq_bind, Option.bind_some, ne_eq, not_true_eq_false,
          if_false, hbody, Except.mapError, Option.pure_def]
    | badMagic =>
      obtain ⟨magic, dataType, n, rest, hs, hm⟩ := hc
      rw [hs, minPacketLength, header_take] at hread
      refine ⟨badMagic (header magic dataType n), r₁, ?_⟩
      simp only [readPacket, minPacketLength, hread, magicWord, Option.bind_eq_bind,
        Option.bind_some, ne_eq, hm, not_false_eq_true, if_true, Option.pure_def]
    | overLong =>
      obtain ⟨dataType, n, rest, hs, hn, hlt⟩ := hc
      rw [hs, minPacketLength, header_take] at hread
      have hlen : (UInt32.ofNat n).toNat = n := toNat_bodyLen hlt
      refine ⟨overLong n, r₁, ?_⟩
      simp only [readPacket, minPacketLength, hread, magicWord, lengthWord, hlen, if_pos hn,
        Option.bind_eq_bind, Option.bind_some, ne_eq, not_true_eq_false, if_false, Option.pure_def]

end Client

namespace Worker
open Framing

theorem read_ok {r : Reader} (hsz : 12 ≤ r.size) {dataType : UInt32} {body rest : Bytes}
    (hb : body.length ≤ maxPacketLength) (hc : r.content = frame res dataType body ++ rest) :
    ∃ r', read r = some (.ok (frame res dataType body), r') ∧ r'.content = rest ∧
      r'.size = r.size := by
  have hc' : r.content = header res dataType body.length ++ (body ++ rest) := by
    rw [hc, frame, List.append_assoc]
  obtain ⟨r₁, hpeek, hcont, hsize, hbuf⟩ := peek_ok (r := r) (n := 12) hsz (by
    rw [hc', List.length_append, header_length]
    exact Nat.le_add_right _ _)
  rw [hc', header_take] at hpeek
  have hrest : (r₁.discard 12).content = body ++ rest := by
    rw [discard_content hbuf, hcont, hc', header_drop]
  obtain ⟨r₂, hbody, hcont₂, hsize₂⟩ := readBody_ok (header_length res dataType body.length)
    (r := r₁.discard 12) (show 0 < r₁.size by omega) hrest
  have hlen : (UInt32.ofNat body.length).toNat = body.length :=
    toNat_bodyLen (lt_of_le_of_lt hb (by decide))
  refine ⟨r₂, ?_, hcont₂, hsize₂.trans hsize⟩
  simp only [read, minPacketLength, hpeek, magicWord, lengthWord, hlen, if_neg hb.not_gt,
    Option.bind_eq_bind, Option.bind_some, ne_eq, not_true_eq_false, if_false, hbody, frame,
    Except.mapError, Option.pure_def]

theorem read_short {r : Reader} (hsz : 12 ≤ r.size) (hl : r.content.length < 12) :
    ∃ r', read r = some (.error (.read .eof), r') ∧ r'.content = r.content ∧ r'.size = r.size := by
  obtain ⟨r', hpeek, hkeep⟩ := peek_short (r := r) (n := minPacketLength) hsz hl
  exact ⟨r', by simp only [read, hpeek, Option.pure_def], hkeep⟩

theorem read_body_short {r : Reader} (hsz : 12 ≤ r.size) {dataType : UInt32} {n : ℕ}
    {front : Bytes} (hc : r.content = header res dataType n ++ front) (hn : n ≤ maxPacketLength)
    (hf : front.length < n) :
    ∃ e r', read r = some (.error (.read e), r') ∧ (e = .eof ∨ e = .unexpectedEOF) ∧
      r'.content = [] ∧ r'.size = r.size := by
  obtain ⟨r₁, hpeek, hcont, hsize, hbuf⟩ := peek_ok (r := r) (n := 12) hsz (by
    rw [hc, List.length_append, header_length]
    exact Nat.le_add_right _ _)
  rw [hc, header_take] at hpeek
  have hrest : (r₁.discard 12).content = front := by
    rw [discard_content hbuf, hcont, hc, header_drop]
  obtain ⟨e, r₂, hbody, he, hempty, hsize₂⟩ := readBody_short (header_length res dataType n)
    (r := r₁.discard 12) (show 0 < r₁.size by omega) (hrest ▸ hf)
  have hlen : (UInt32.ofNat n).toNat = n := toNat_bodyLen (lt_of_le_of_lt hn (by decide))
  refine ⟨e, r₂, ?_, he, hempty, hsize₂.trans hsize⟩
  simp only [read, minPacketLength, hpeek, magicWord, lengthWord, hlen, if_neg hn.not_gt,
    Option.bind_eq_bind, Option.bind_some, ne_eq, not_true_eq_false, if_false, hbody,
    Except.mapError, Option.pure_def]

theorem read_stop {r : Reader} (hsz : 12 ≤ r.size) {c : Cause} (hc : Stops r.content c) :
    ∃ e r', read r = some (.error e, r') ∧
      (c = .truncated → e = .read .eof ∨ e = .read .unexpectedEOF) := by
  by_cases hl : r.content.length < 12
  · obtain ⟨r', hread, -⟩ := read_short hsz hl
    exact ⟨.read .eof, r', hread, fun _ => Or.inl rfl⟩
  · obtain ⟨r₁, hpeek, hcont, hsize, hbuf⟩ := peek_ok (r := r) (n := 12) hsz
      (not_lt.mp hl)
    cases c with
    | truncated =>
      rcases hc with hc | ⟨dataType, n, rest, hs, hn, hr⟩
      · exact absurd hc hl
      · obtain ⟨e, r₂, hread, he, -⟩ := read_body_short hsz hs hn hr
        exact ⟨.read e, r₂, hread, fun _ => he.imp (congrArg Err.read) (congrArg Err.read)⟩
    | badMagic =>
      obtain ⟨magic, dataType, n, rest, hs, hm⟩ := hc
      change magic ≠ res at hm
      rw [hs, header_take] at hpeek
      refine ⟨badMagic (header magic dataType n), r₁, ?_, fun h => by cases h⟩
      simp only [read, minPacketLength, hpeek, magicWord, Option.bind_eq_bind, Option.bind_some,
        ne_eq, hm, not_false_eq_true, if_true, Option.pure_def]
    | overLong =>
      obtain ⟨dataType, n, rest, hs, hn, hlt⟩ := hc
      change r.content = header res dataType n ++ rest at hs
      change maxPacketLength < n at hn
      rw [hs, header_take] at hpeek
      have hlen : (UInt32.ofNat n).toNat = n := toNat_bodyLen hlt
      refine ⟨overLong n, r₁, ?_, fun h => by cases h⟩
      simp only [read, minPacketLength, hpeek, magicWord, lengthWord, hlen,
        if_pos hn, Option.bind_eq_bind, Option.bind_some, ne_eq, not_true_eq_false, if_false,
        Option.pure_def]

theorem read_inv {r r' : Reader} {data : Bytes} (h : read r = some (.ok data, r')) :
    WellFormed data ∧ r.content = data ++ r'.content := by
  by_cases hsz : 12 ≤ r.size
  · cases hc : cut r.content with
    | error c =>
      obtain ⟨e, r₁, hread, -⟩ := read_stop hsz (cut_stop hc)
      rw [hread] at h
      cases h
    | ok q =>
      obtain ⟨p, rest⟩ := q
      obtain ⟨hs, dataType, body, rfl, hb⟩ := cut_ok hc
      obtain ⟨r₁, hread, hrest, -⟩ := read_ok hsz hb hs
      rw [hread] at h
      cases h
      exact ⟨⟨dataType, body, rfl, hb⟩, by rw [hrest]; exact hs⟩
  · obtain ⟨e, r₁, hpeek⟩ := peek_small (r := r) (n := minPacketLength) (not_le.mp hsz)
    simp only [read, hpeek] at h
    cases h

end Worker

namespace Framing

def readAll {ε : Type} (readOne : Reader → Option (Except ε Bytes × Reader)) :
    ℕ → Reader → Option (List Bytes × ε)
  | 0, _ => none
  | fuel + 1, r =>
    match readOne r with
    | none => none
    | some (.error e, _) => some ([], e)
    | some (.ok p, r') => (readAll readOne fuel r').map (fun q => (p :: q.1, q.2))

theorem readAll_greedy {ε : Type} {readOne : Reader → Option (Except ε Bytes × Reader)}
    {m : ℕ} {P : Cause → ε → Prop}
    (hok : ∀ r dataType body rest, m ≤ r.size → body.length ≤ Client.maxPacketLength →
      r.content = frame Client.res dataType body ++ rest →
      ∃ r', readOne r = some (.ok (frame Client.res dataType body), r') ∧ r'.content = rest ∧
        r'.size = r.size)
    (hstop : ∀ r c, m ≤ r.size → Stops r.content c →
      ∃ e r', readOne r = some (.error e, r') ∧ P c e)
    {ps : List Bytes} {c : Cause} {r : Reader} (hm : m ≤ r.size)
    (hg : GreedyParse r.content ps c) (fuel : ℕ) (hf : ps.length < fuel) :
    ∃ e, readAll readOne fuel r = some (ps, e) ∧ P c e := by
  obtain ⟨rest, hc, hps, hs⟩ := hg
  induction ps generalizing r fuel with
  | nil =>
    obtain ⟨e, r', hread, he⟩ := hstop r c hm (by simpa [hc] using hs)
    cases fuel with
    | zero => omega
    | succ fuel => exact ⟨e, by simp only [readAll, hread], he⟩
  | cons p ps ih =>
    obtain ⟨dataType, body, rfl, hb⟩ := hps p (by simp)
    obtain ⟨r', hread, hcont, hsize⟩ := hok r dataType body (ps.flatten ++ rest) hm hb
      (by simp [hc])
    cases fuel with
    | zero => omega
    | succ fuel =>
      obtain ⟨e, hrun, he⟩ := ih (r := r') (by omega) fuel (by simpa using hf) hcont
        (fun q hq => hps q (by simp [hq]))
      exact ⟨e, by simp only [readAll, hread, hrun, Option.map_some], he⟩

def defaultBufSize : ℕ := 4096

/-- Both readers return the greedy parse of the stream before their first error,
for every chunking of it; a truncated stream sends `work` down its disconnect path. -/
theorem framers_agree (src : List Chunk) (extra : ℕ) :
    GreedyParse (flat src) (greedy (flat src)).1 (greedy (flat src)).2 ∧
    (∃ e, readAll Client.readPacket ((flat src).length + 1 + extra)
      (newReader defaultBufSize src) = some ((greedy (flat src)).1, e)) ∧
    ∃ e, readAll Worker.read ((flat src).length + 1 + extra)
      (newReader defaultBufSize src) = some ((greedy (flat src)).1, e) ∧
      ((greedy (flat src)).2 = .truncated →
        (e = .read .eof ∨ e = .read .unexpectedEOF) ∧ Worker.onReadError e = .disconnect) := by
  have hg := greedy_parse (flat src)
  have hf : (greedy (flat src)).1.length < (flat src).length + 1 + extra := by
    have := hg.length_le
    omega
  refine ⟨hg, ?_, ?_⟩
  · obtain ⟨e, hrun, -⟩ := readAll_greedy (m := 1) (P := fun _ (_ : Client.Err) => True)
      (fun r dataType body rest hm hb hc => Client.readPacket_ok hm hb hc)
      (fun r c hm hc => by
        obtain ⟨e, r', h⟩ := Client.readPacket_stop hm hc
        exact ⟨e, r', h, trivial⟩)
      (r := newReader defaultBufSize src) (show 1 ≤ 4096 by decide) hg _ hf
    exact ⟨e, hrun⟩
  · obtain ⟨e, hrun, he⟩ := readAll_greedy (m := 12)
      (P := fun c (e : Worker.Err) => c = .truncated → e = .read .eof ∨ e = .read .unexpectedEOF)
      (fun r dataType body rest hm hb hc => Worker.read_ok hm hb hc)
      (fun r c hm hc => Worker.read_stop hm hc)
      (r := newReader defaultBufSize src) (show 12 ≤ 4096 by decide) hg _ hf
    refine ⟨e, hrun, fun ht => ⟨he ht, ?_⟩⟩
    rcases he ht with rfl | rfl <;> rfl

end Framing
end Gearman
