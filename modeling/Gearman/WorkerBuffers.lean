import Gearman.Transition
import Gearman.WorkerPacket

/-!
# The pool of encode buffers

`agent.write` takes a buffer from `encodeBufPool`, encodes its packet into it,
hands the bytes to the connection's writer and returns the buffer. Each agent
writes under its own lock, so a writer is a process that holds at most one buffer;
writers of different agents interleave at every step. The pool hands out any
buffer it holds or a new one, and the collector may empty it. `log` records what
each call of `write` handed to its connection, whole or cut short by an error.
-/

namespace Gearman.Worker.Buffers
open Bytes Wire Transition

def encodeBufSize : ℕ := 256
def encodeBufKeep : ℕ := 65536

inductive Pc
  | idle
  | got (outpack : OutPack) (p : Slice)
  | sending (outpack : OutPack) (p : Slice) (buf : Bytes) (i : ℕ)

structure Sent where
  outpack : OutPack
  bytes : Bytes
  ok : Bool

structure St where
  pool : List Slice
  writers : ℕ → Pc
  log : List Sent

def init : St := ⟨[], fun _ => .idle, []⟩

def newBuf : Slice := ⟨[], zeros encodeBufSize⟩

inductive Act
  | get (w : ℕ) (outpack : OutPack) (i : ℕ)
  | new (w : ℕ) (outpack : OutPack)
  | encode (w : ℕ)
  | write (w n : ℕ) (fails : Bool)
  | flush (w : ℕ) (fails : Bool)
  | collect (i : ℕ)

def St.setWriter (s : St) (w : ℕ) (pc : Pc) : St :=
  { s with writers := Function.update s.writers w pc }

/-- The deferred `Put`, on the way out of `write`. -/
def St.put (s : St) (w : ℕ) (p : Slice) (sent : Sent) : St :=
  { pool := p :: s.pool, writers := Function.update s.writers w .idle, log := sent :: s.log }

/-- `*p = buf` when the buffer is worth keeping. One that is not was allocated for
this packet, since a pooled buffer never exceeds the bound, so `*p` is untouched. -/
def keep (p buf : Slice) : Slice := if buf.cap ≤ encodeBufKeep then buf else p

def step (s : St) : Act → Option St
  | .get w outpack i =>
    match s.writers w, s.pool[i]? with
    | .idle, some p => some ({ s with pool := s.pool.eraseIdx i }.setWriter w (.got outpack p))
    | _, _ => none
  | .new w outpack =>
    match s.writers w with
    | .idle => some (s.setWriter w (.got outpack newBuf))
    | _ => none
  | .encode w =>
    match s.writers w with
    | .got outpack p =>
      (outpack.encodeInto p).map
        (fun buf => s.setWriter w (.sending outpack (keep p buf) buf.data 0))
    | _ => none
  | .write w n fails =>
    match s.writers w with
    | .sending outpack p buf i =>
      if i < buf.length ∧ i + n ≤ buf.length then
        if fails then some (s.put w p ⟨outpack, buf.take (i + n), false⟩)
        else some (s.setWriter w (.sending outpack p buf (i + n)))
      else none
    | _ => none
  | .flush w fails =>
    match s.writers w with
    | .sending outpack p buf i =>
      if buf.length ≤ i then some (s.put w p ⟨outpack, buf, !fails⟩) else none
    | _ => none
  | .collect i => some { s with pool := s.pool.eraseIdx i }

/-- The bytes of a packet, a function of the packet alone. -/
def wire (outpack : OutPack) : Bytes := frame req outpack.dataType outpack.body

def Pc.Clean : Pc → Prop
  | .idle => True
  | .got _ p => p.cap ≤ encodeBufKeep
  | .sending outpack p buf _ => p.cap ≤ encodeBufKeep ∧ buf = wire outpack

def Sent.Clean (e : Sent) : Prop :=
  e.bytes <+: wire e.outpack ∧ (e.ok = true → e.bytes = wire e.outpack)

structure Clean (s : St) : Prop where
  pool : ∀ b ∈ s.pool, b.cap ≤ encodeBufKeep
  writers : ∀ w, (s.writers w).Clean
  log : ∀ e ∈ s.log, e.Clean

theorem clean_init : Clean init := ⟨by simp [init], fun _ => trivial, by simp [init]⟩

theorem newBuf_cap : newBuf.cap = encodeBufSize := by simp [newBuf, Slice.cap]

theorem cap_keep {p : Slice} (hp : p.cap ≤ encodeBufKeep) (buf : Slice) :
    (keep p buf).cap ≤ encodeBufKeep := by
  unfold keep
  split_ifs with h
  · exact h
  · exact hp

theorem Clean.writer {s : St} (h : Clean s) {w : ℕ} {pc : Pc} (hpc : s.writers w = pc) :
    pc.Clean :=
  hpc ▸ h.writers w

theorem Clean.setWriter {s : St} (h : Clean s) (w : ℕ) {pc : Pc} (hpc : pc.Clean) :
    Clean (s.setWriter w pc) := by
  refine ⟨h.pool, ?_, h.log⟩
  intro v
  by_cases hv : v = w
  · subst hv
    simpa only [St.setWriter, Function.update_self] using hpc
  · simpa only [St.setWriter, Function.update_of_ne hv] using h.writers v

theorem Clean.erase {s : St} (h : Clean s) (i : ℕ) : Clean { s with pool := s.pool.eraseIdx i } :=
  ⟨fun b hb => h.pool b (List.mem_of_mem_eraseIdx hb), h.writers, h.log⟩

theorem Clean.put {s : St} (h : Clean s) (w : ℕ) {p : Slice} (hp : p.cap ≤ encodeBufKeep)
    {e : Sent} (he : e.Clean) : Clean (s.put w p e) := by
  have hw : Clean (s.setWriter w .idle) := h.setWriter w trivial
  refine ⟨?_, hw.writers, ?_⟩
  · intro b hb
    rcases List.mem_cons.mp hb with rfl | hb
    · exact hp
    · exact h.pool b hb
  · intro d hd
    rcases List.mem_cons.mp hd with rfl | hd
    · exact he
    · exact h.log d hd

theorem Clean.step {s t : St} {a : Act} (h : Clean s) (hst : step s a = some t) : Clean t := by
  cases a with
  | get w outpack i =>
    simp only [Buffers.step] at hst
    split at hst
    · rename_i p _ hp
      cases hst
      exact (h.erase i).setWriter w (h.pool p (List.mem_of_getElem? hp))
    · cases hst
  | new w outpack =>
    simp only [Buffers.step] at hst
    split at hst
    · cases hst
      exact h.setWriter w (newBuf_cap.trans_le (by decide))
    · cases hst
  | encode w =>
    simp only [Buffers.step] at hst
    split at hst
    · rename_i outpack p hpc
      have hp : p.cap ≤ encodeBufKeep := h.writer hpc
      obtain ⟨spare, henc⟩ := outpack.encodeInto_eq p
      rw [henc] at hst
      cases hst
      exact h.setWriter w ⟨cap_keep hp _, rfl⟩
    · cases hst
  | write w n fails =>
    simp only [Buffers.step] at hst
    split at hst
    · rename_i outpack p buf i hpc
      obtain ⟨hp, hbuf⟩ : p.cap ≤ encodeBufKeep ∧ buf = wire outpack := h.writer hpc
      split_ifs at hst
      · cases hst
        refine h.put w hp ⟨?_, fun hok => absurd hok Bool.false_ne_true⟩
        rw [hbuf]
        exact List.take_prefix _ _
      · cases hst
        exact h.setWriter w ⟨hp, hbuf⟩
    · cases hst
  | flush w fails =>
    simp only [Buffers.step] at hst
    split at hst
    · rename_i outpack p buf i hpc
      obtain ⟨hp, hbuf⟩ : p.cap ≤ encodeBufKeep ∧ buf = wire outpack := h.writer hpc
      split_ifs at hst
      cases hst
      exact h.put w hp ⟨by rw [hbuf], fun _ => hbuf⟩
    · cases hst
  | collect i =>
    cases hst
    exact h.erase i

theorem clean_reachable {s : St} (h : Reachable step always init s) : Clean s :=
  h.invariant clean_init (fun _ _ _ hi _ hst => hi.step hst)

theorem pooled_encoding_leaks_nothing (outpack : OutPack)
    (hb : outpack.body.length < lengthBound) :
    (∃ fresh, outpack.encode = some fresh ∧ fresh.data = wire outpack ∧
      ∀ buf, ∃ out, outpack.encodeInto buf = some out ∧ out.data = fresh.data) ∧
    wire outpack = putUint32 req ++ putUint32 outpack.dataType ++
      putUint32 (UInt32.ofNat outpack.body.length) ++ outpack.body ∧
    (UInt32.ofNat outpack.body.length).toNat = outpack.body.length ∧
    outpack.body = (if outpack.dataType = dtWorkFail then outpack.handle
      else if outpack.handle = [] then outpack.data
      else outpack.handle ++ 0 :: outpack.data) ∧
    ∀ s, Reachable step always init s →
      (∀ e ∈ s.log, e.outpack = outpack →
        e.bytes <+: wire outpack ∧ (e.ok = true → e.bytes = wire outpack)) ∧
      ∀ b ∈ s.pool, b.cap ≤ encodeBufKeep := by
  refine ⟨?_, rfl, toNat_bodyLen hb, rfl, ?_⟩
  · obtain ⟨spare, hfresh⟩ := outpack.encodeInto_eq ⟨[], []⟩
    refine ⟨_, hfresh, rfl, ?_⟩
    intro buf
    obtain ⟨spare', hout⟩ := outpack.encodeInto_eq buf
    exact ⟨_, hout, rfl⟩
  · intro s hs
    have hclean := clean_reachable hs
    refine ⟨?_, hclean.pool⟩
    rintro e he rfl
    exact hclean.log e he

def failPack : OutPack := { dataType := dtWorkFail, handle := [72] }

def resultThenFailure : List Act :=
  [.new 0 { dataType := dtWorkComplete, handle := [72], data := [1, 2, 3] }, .encode 0,
    .write 0 17 false, .flush 0 false, .get 1 failPack 0, .encode 1, .write 1 13 false,
    .flush 1 false]

theorem failure_after_result_is_clean :
    ∃ s, Reachable step always init s ∧
      (∃ e ∈ s.log, e.outpack = failPack ∧ e.ok = true ∧ e.bytes = wire failPack) ∧
      ∀ b ∈ s.pool, b.cap ≤ encodeBufKeep := by
  have hlast : ((run step always init resultThenFailure).bind (fun s => s.log.head?)).map
      (fun e => (e.outpack, e.ok)) = some (failPack, true) := by decide +kernel
  obtain ⟨e, he, hpack⟩ := Option.map_eq_some_iff.mp hlast
  obtain ⟨s, hs, hhead⟩ := Option.bind_eq_some_iff.mp he
  obtain ⟨hp, hok⟩ := Prod.mk.inj hpack
  have h := (pooled_encoding_leaks_nothing failPack (by decide)).2.2.2.2 s ⟨_, hs⟩
  have hmem := List.mem_of_mem_head? hhead
  exact ⟨s, ⟨_, hs⟩, ⟨e, hmem, hp, hok, (h.1 e hmem hp).2 hok⟩, h.2⟩

end Gearman.Worker.Buffers
