import Gearman.JobFields

/-!
# work() on a connection that fails for a moment

A temporary error ends one read of the socket without a byte and the next read
goes on with the stream. The bytes before it are then a source that has ended, so
a connection is a sequence of sources: the end of all but the last of them is a
temporary error, the end of the last is the end of the connection. `read` keeps an
incomplete header in its buffer and loses an incomplete body together with its
header, and `work` reacts to both by reading again.
-/

namespace Gearman.Worker
open Bytes Wire Bufio Framing

/-- The source being read, and what follows each of the errors to come. -/
structure FlakyConn where
  reader : Reader
  later : List (List Chunk)

namespace FlakyConn

def dial (src : List Chunk) (later : List (List Chunk)) : FlakyConn :=
  ⟨newReader defaultBufSize src, later⟩

def resume (r : Reader) (src : List Chunk) : Reader := { r with src := r.src ++ src }

def read (c : FlakyConn) : Option (Except Err Bytes × FlakyConn) :=
  match Worker.read c.reader with
  | none => none
  | some (.ok data, r) => some (.ok data, { c with reader := r })
  | some (.error e, r) =>
    match c.later with
    | [] => some (.error e, { c with reader := r })
    | src :: later =>
      if e = .read .eof ∨ e = .read .unexpectedEOF then
        some (.error (.op true), ⟨resume r src, later⟩)
      else some (.error e, { c with reader := r })

end FlakyConn

inductive Turn
  | forward (data : Bytes) (inpack : InPack)
  | report (err : Err)
  | again
  | leave (reaction : Reaction)

def workTurn (c : FlakyConn) : Option (Turn × FlakyConn) :=
  match c.read with
  | none => none
  | some (.error e, c) =>
    match onReadError e with
    | .again => some (.again, c)
    | reaction => some (.leave reaction, c)
  | some (.ok data, c) =>
    match decodeInPack data with
    | none => none
    | some (.error err) => some (.report err, c)
    | some (.ok (inpack, _)) => some (.forward data inpack, c)

def workForwards : ℕ → FlakyConn → Option (List Bytes)
  | 0, _ => some []
  | n + 1, c =>
    match workTurn c with
    | none => none
    | some (.forward data _, c) => (workForwards n c).map (data :: ·)
    | some (.report _, c) => workForwards n c
    | some (.again, c) => workForwards n c
    | some (.leave _, _) => some []

def InBody (ps : List Bytes) (o : ℕ) : Prop :=
  ∃ pre p post, ps = pre ++ p :: post ∧ pre.flatten.length + 12 ≤ o ∧
    o < pre.flatten.length + p.length

/-- The stream offsets of the temporary errors, the first one after `n` bytes. -/
def errorOffsets : ℕ → List (List Chunk) → List ℕ
  | _, [] => []
  | n, src :: later => n :: errorOffsets (n + (flat src).length) later

theorem InBody.cons {ps : List Bytes} {o : ℕ} (p : Bytes) (h : InBody ps o) :
    InBody (p :: ps) (p.length + o) := by
  obtain ⟨pre, q, post, rfl, hlo, hhi⟩ := h
  refine ⟨p :: pre, q, post, rfl, ?_, ?_⟩
  · rw [List.flatten_cons, List.length_append]
    omega
  · rw [List.flatten_cons, List.length_append]
    omega

theorem errorOffsets_add (k n : ℕ) (later : List (List Chunk)) :
    errorOffsets (k + n) later = (errorOffsets n later).map (k + ·) := by
  induction later generalizing n with
  | nil => rfl
  | cons src later ih => rw [errorOffsets, Nat.add_assoc, ih, errorOffsets, List.map_cons]

structure InStep (ps : List Bytes) (c : FlakyConn) : Prop where
  whole : ∀ p ∈ ps, WellFormed p
  size : 12 ≤ c.reader.size
  content : c.reader.content ++ (c.later.map flat).flatten = ps.flatten
  clear : ∀ o ∈ errorOffsets c.reader.content.length c.later, ¬ InBody ps o

theorem flat_append (xs ys : List Chunk) : flat (xs ++ ys) = flat xs ++ flat ys := by
  simp [flat]

@[simp] theorem resume_content (r : Reader) (src : List Chunk) :
    (FlakyConn.resume r src).content = r.content ++ flat src := by
  simp [FlakyConn.resume, Reader.content, flat_append]

theorem workTurn_ok {c : FlakyConn} {r : Reader} {data : Bytes} {inpack : InPack} {l : ℕ}
    (hread : read c.reader = some (.ok data, r))
    (hdec : decodeInPack data = some (.ok (inpack, l))) :
    workTurn c = some (.forward data inpack, { c with reader := r }) := by
  rw [workTurn, FlakyConn.read, hread]
  dsimp only
  rw [hdec]

theorem workTurn_temporary {c : FlakyConn} {r : Reader} {e : ReadErr}
    (hread : read c.reader = some (.error (.read e), r)) (he : e = .eof ∨ e = .unexpectedEOF)
    {src : List Chunk} {later : List (List Chunk)} (hlater : c.later = src :: later) :
    workTurn c = some (.again, ⟨FlakyConn.resume r src, later⟩) := by
  have hend : Err.read e = .read .eof ∨ Err.read e = .read .unexpectedEOF :=
    he.imp (congrArg Err.read) (congrArg Err.read)
  simp only [workTurn, FlakyConn.read, hread, hlater, if_pos hend, onReadError]

theorem turn_forward {p : Bytes} {ps : List Bytes} {c : FlakyConn} (h : InStep (p :: ps) c)
    (hl : p.length ≤ c.reader.content.length) :
    ∃ inpack c', workTurn c = some (.forward p inpack, c') ∧ InStep ps c' ∧ c'.later = c.later := by
  obtain ⟨dataType, body, rfl, hb⟩ := h.whole p (by simp)
  obtain ⟨rest, hrest⟩ : ∃ rest, c.reader.content = frame res dataType body ++ rest := by
    have hpre : frame res dataType body <+: c.reader.content :=
      List.prefix_of_prefix_length_le ⟨ps.flatten, rfl⟩ ⟨_, h.content⟩ hl
    exact ⟨_, hpre.choose_spec.symm⟩
  obtain ⟨r', hread, hcont, hsize⟩ := read_ok h.size hb hrest
  refine ⟨splitFields dataType body, { c with reader := r' },
    workTurn_ok hread (decodeInPack_split dataType hb), ?_, rfl⟩
  refine ⟨fun q hq => h.whole q (by simp [hq]), hsize ▸ h.size, ?_, ?_⟩
  · have hc := h.content
    rw [hrest, List.append_assoc, List.flatten_cons] at hc
    rw [hcont]
    exact List.append_cancel_left hc
  · intro o ho hin
    rw [hcont] at ho
    refine h.clear ((frame res dataType body).length + o) ?_ (hin.cons _)
    rw [hrest, List.length_append, errorOffsets_add]
    exact List.mem_map_of_mem ho

theorem turn_again {ps : List Bytes} {c : FlakyConn} (h : InStep ps c)
    (hl : c.reader.content.length < 12) {src : List Chunk} {later : List (List Chunk)}
    (hlater : c.later = src :: later) :
    ∃ c', workTurn c = some (.again, c') ∧ InStep ps c' ∧ c'.later = later := by
  obtain ⟨r', hread, hcont, hsize⟩ := read_short h.size hl
  refine ⟨_, workTurn_temporary hread (Or.inl rfl) hlater, ?_, rfl⟩
  have hc := h.content
  have hclear := h.clear
  rw [hlater] at hc hclear
  refine ⟨h.whole, hsize ▸ h.size, ?_, ?_⟩
  · simpa [hcont] using hc
  · intro o ho
    apply hclear o
    rw [errorOffsets, List.mem_cons]
    right
    simpa [hcont] using ho

theorem turn_leave {c : FlakyConn} (hsz : 12 ≤ c.reader.size) (hc : c.reader.content = [])
    (hlater : c.later = []) : ∃ c', workTurn c = some (.leave .disconnect, c') := by
  obtain ⟨r', hread, -⟩ := read_short hsz (by simp [hc])
  exact ⟨{ c with reader := r' }, by simp [workTurn, FlakyConn.read, hread, hlater, onReadError]⟩

theorem InStep.turn {ps : List Bytes} {c : FlakyConn} (h : InStep ps c) :
    (∃ p ps' inpack c', ps = p :: ps' ∧ workTurn c = some (.forward p inpack, c') ∧
      InStep ps' c' ∧ c'.later = c.later) ∨
    (∃ src later c', c.later = src :: later ∧ workTurn c = some (.again, c') ∧ InStep ps c' ∧
      c'.later = later) ∨
    (ps = [] ∧ ∃ c', workTurn c = some (.leave .disconnect, c')) := by
  cases ps with
  | nil =>
    have hc : c.reader.content = [] ∧ (c.later.map flat).flatten = [] := by
      simpa using h.content
    cases hlater : c.later with
    | nil => exact Or.inr (Or.inr ⟨rfl, turn_leave h.size hc.1 hlater⟩)
    | cons src later =>
      obtain ⟨c', ht, hs, hl⟩ := turn_again h (by simp [hc.1]) hlater
      exact Or.inr (Or.inl ⟨src, later, c', rfl, ht, hs, hl⟩)
  | cons p ps =>
    by_cases hl : p.length ≤ c.reader.content.length
    · obtain ⟨inpack, c', ht, hs, hlater⟩ := turn_forward h hl
      exact Or.inl ⟨p, ps, inpack, c', rfl, ht, hs, hlater⟩
    · cases hlater : c.later with
      | nil =>
        have hc := congrArg List.length h.content
        simp only [hlater, List.map_nil, List.flatten_nil, List.append_nil, List.flatten_cons,
          List.length_append] at hc
        omega
      | cons src later =>
        -- the source ends inside this packet, so inside its header
        have hshort : c.reader.content.length < 12 := by
          by_contra hge
          refine h.clear c.reader.content.length (by simp [hlater, errorOffsets])
            ⟨[], p, ps, rfl, ?_, ?_⟩
          · simpa using hge
          · simpa using hl
        obtain ⟨c', ht, hs, hl'⟩ := turn_again h hshort hlater
        exact Or.inr (Or.inl ⟨src, later, c', rfl, ht, hs, hl'⟩)

theorem workForwards_prefix (n : ℕ) {ps : List Bytes} {c : FlakyConn} (h : InStep ps c) :
    ∃ out, workForwards n c = some out ∧ out <+: ps := by
  induction n generalizing ps c with
  | zero => exact ⟨[], rfl, List.nil_prefix⟩
  | succ n ih =>
    rcases h.turn with ⟨p, ps', inpack, c', rfl, ht, hs, -⟩ | ⟨src, later, c', -, ht, hs, -⟩ |
      ⟨rfl, c', ht⟩
    · obtain ⟨out, hout, hpre⟩ := ih hs
      exact ⟨p :: out, by simp only [workForwards, ht, hout, Option.map_some],
        List.cons_prefix_cons.mpr ⟨rfl, hpre⟩⟩
    · obtain ⟨out, hout, hpre⟩ := ih hs
      exact ⟨out, by simp only [workForwards, ht, hout], hpre⟩
    · exact ⟨[], by simp only [workForwards, ht], List.nil_prefix⟩

theorem workForwards_all (n : ℕ) {ps : List Bytes} {c : FlakyConn} (h : InStep ps c)
    (hn : ps.length + c.later.length < n) : workForwards n c = some ps := by
  induction n generalizing ps c with
  | zero => omega
  | succ n ih =>
    rcases h.turn with ⟨p, ps', inpack, c', rfl, ht, hs, hl⟩ | ⟨src, later, c', hl, ht, hs, hl'⟩ |
      ⟨rfl, c', ht⟩
    · have hrun := ih hs (by rw [hl]; simp only [List.length_cons] at hn; omega)
      simp only [workForwards, ht, hrun, Option.map_some]
    · have hrun := ih hs (by rw [hl']; simp only [hl, List.length_cons] at hn; omega)
      simp only [workForwards, ht, hrun]
    · simp only [workForwards, ht]

theorem turn_body_error {c : FlakyConn} (hsz : 12 ≤ c.reader.size) {dataType : UInt32}
    {front back : Bytes} (hback : back ≠ []) (hb : (front ++ back).length ≤ maxPacketLength)
    (hc : c.reader.content = header res dataType (front ++ back).length ++ front)
    {src : List Chunk} {later : List (List Chunk)} (hlater : c.later = src :: later) :
    ∃ c', workTurn c = some (.again, c') ∧ c'.reader.content = flat src ∧ c'.later = later := by
  have hf : front.length < (front ++ back).length := by
    have := List.length_pos_of_ne_nil hback
    rw [List.length_append]
    omega
  obtain ⟨e, r', hread, he, hempty, hsize⟩ := read_body_short hsz hc hb hf
  exact ⟨_, workTurn_temporary hread he hlater, by simp [hempty], rfl⟩

theorem work_in_step_without_body_errors (ps : List Bytes) (hps : ∀ p ∈ ps, WellFormed p)
    (src : List Chunk) (later : List (List Chunk))
    (hstream : flat src ++ (later.map flat).flatten = ps.flatten)
    (hclear : ∀ o ∈ errorOffsets (flat src).length later, ¬ InBody ps o) :
    (∀ n, ∃ out, workForwards n (.dial src later) = some out ∧ out <+: ps) ∧
    (∀ n, ps.length + later.length < n → workForwards n (.dial src later) = some ps) ∧
    ∀ c dataType front back next rest, 12 ≤ c.reader.size → back ≠ [] →
      (front ++ back).length ≤ maxPacketLength →
      c.reader.content = header res dataType (front ++ back).length ++ front →
      c.later = next :: rest →
      ∃ c', workTurn c = some (.again, c') ∧ c'.reader.content = flat next ∧ c'.later = rest := by
  have h : InStep ps (.dial src later) := ⟨hps, show 12 ≤ 4096 by decide, hstream, hclear⟩
  refine ⟨fun n => workForwards_prefix n h, fun n hn => workForwards_all n h hn, ?_⟩
  intro c dataType front back next rest hsz hback hb hc hlater
  exact turn_body_error hsz hback hb hc hlater

def chunk (b : UInt8) (bs : Bytes) : Chunk := ⟨b :: bs, List.cons_ne_nil b bs⟩

theorem header_error_harmless :
    ∃ src later, flat src ++ (later.map flat).flatten = frame res dtNoop [] ∧
      later.length = 1 ∧ workForwards 3 (.dial src later) = some [frame res dtNoop []] := by
  refine ⟨[chunk 0 [82, 69]], [[chunk 83 [0, 0, 0, 6, 0, 0, 0, 0]]], rfl, rfl, ?_⟩
  refine (work_in_step_without_body_errors [frame res dtNoop []] ?_ _ _ rfl ?_).2.1 3 (by decide)
  · simp only [List.forall_mem_singleton]
    exact ⟨dtNoop, [], rfl, by decide⟩
  · simp only [errorOffsets, List.forall_mem_singleton]
    rintro ⟨pre, p, post, hps, hlo, -⟩
    exact absurd (Nat.le_of_add_left_le hlo) (by decide)

/-- A job whose body is a NOOP packet, cut by an error after its header: the loop
forwards a NOOP the server has not sent. -/
theorem body_error_forwards_body :
    ∃ p src later, WellFormed p ∧ flat src ++ (later.map flat).flatten = p ∧
      workForwards 2 (.dial src later) = some [frame res dtNoop []] ∧ p ≠ frame res dtNoop [] := by
  refine ⟨frame res dtJobAssign (frame res dtNoop []),
    [chunk 0 [82, 69, 83, 0, 0, 0, 11, 0, 0, 0, 12]],
    [[chunk 0 [82, 69, 83, 0, 0, 0, 6, 0, 0, 0, 0]]], ⟨_, _, rfl, by decide⟩, rfl, ?_, by decide⟩
  decide +kernel

end Gearman.Worker
