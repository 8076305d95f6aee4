import Gearman.Bytes

/-!
# A buffered reader over a finite sequence of reads

The source delivers a list of non-empty chunks and then end of file. One read of
at most `k` bytes returns a front of the head chunk and leaves the rest of it.
The reader keeps at most `size` unread bytes; `fill`, `Peek`, `Discard` and `Read`
move them as documented, and `readFull` is the loop of `io.ReadFull`. Each loop
carries a budget that its own argument bounds, since a read delivers at least one
byte. All results are stated over `content`, the bytes still to come, so nothing
they say depends on the chunking.
-/

namespace Gearman.Bufio

structure Chunk where
  bytes : Bytes
  nonempty : bytes ≠ []

def flat (src : List Chunk) : Bytes := (src.map Chunk.bytes).flatten

@[simp] theorem flat_nil : flat [] = [] := rfl

@[simp] theorem flat_cons (c : Chunk) (src : List Chunk) : flat (c :: src) = c.bytes ++ flat src :=
  rfl

inductive ReadErr
  | eof
  | unexpectedEOF
  | bufferFull
deriving DecidableEq, Repr

def connRead (k : ℕ) : List Chunk → Bytes × List Chunk
  | [] => ([], [])
  | c :: src =>
    if h : k < c.bytes.length then
      (c.bytes.take k, ⟨c.bytes.drop k, by simpa using h⟩ :: src)
    else (c.bytes, src)

theorem connRead_content (k : ℕ) (src : List Chunk) :
    (connRead k src).1 ++ flat (connRead k src).2 = flat src := by
  cases src with
  | nil => rfl
  | cons c src =>
    simp only [connRead]
    split_ifs with h
    · simp [← List.append_assoc]
    · simp

theorem connRead_length_le (k : ℕ) (src : List Chunk) : (connRead k src).1.length ≤ k := by
  cases src with
  | nil => simp [connRead]
  | cons c src =>
    simp only [connRead]
    split_ifs with h
    · simp
    · simpa using h

theorem connRead_pos {k : ℕ} (hk : 0 < k) {src : List Chunk} (hs : src ≠ []) :
    0 < (connRead k src).1.length := by
  cases src with
  | nil => exact absurd rfl hs
  | cons c src =>
    have hc := List.length_pos_of_ne_nil c.nonempty
    simp only [connRead]
    split_ifs with h
    · simp only [List.length_take]
      omega
    · exact hc

theorem flat_eq_nil {src : List Chunk} : flat src = [] ↔ src = [] := by
  cases src with
  | nil => simp
  | cons c src => simp [c.nonempty]

structure Reader where
  size : ℕ
  buf : Bytes
  src : List Chunk
  fits : buf.length ≤ size

def newReader (size : ℕ) (src : List Chunk) : Reader := ⟨size, [], src, Nat.zero_le _⟩

def Reader.content (r : Reader) : Bytes := r.buf ++ flat r.src

@[simp] theorem newReader_content (size : ℕ) (src : List Chunk) :
    (newReader size src).content = flat src := rfl

def Reader.fill (r : Reader) : Reader where
  size := r.size
  buf := r.buf ++ (connRead (r.size - r.buf.length) r.src).1
  src := (connRead (r.size - r.buf.length) r.src).2
  fits := by
    have h := connRead_length_le (r.size - r.buf.length) r.src
    have hf := r.fits
    simp only [List.length_append]
    omega

@[simp] theorem fill_size (r : Reader) : r.fill.size = r.size := rfl

@[simp] theorem fill_content (r : Reader) : r.fill.content = r.content := by
  simp only [Reader.content, Reader.fill, List.append_assoc, connRead_content]

theorem fill_grows {r : Reader} (hroom : r.buf.length < r.size) (hs : r.src ≠ []) :
    r.buf.length < r.fill.buf.length := by
  have h := connRead_pos (k := r.size - r.buf.length) (by omega) hs
  simp only [Reader.fill, List.length_append]
  omega

def peekLoop (n : ℕ) : ℕ → Reader → Reader
  | 0, r => r
  | fuel + 1, r =>
    if n ≤ r.buf.length ∨ r.size ≤ r.buf.length ∨ r.src.isEmpty then r
    else peekLoop n fuel r.fill

theorem peekLoop_frame (n fuel : ℕ) (r : Reader) :
    (peekLoop n fuel r).content = r.content ∧ (peekLoop n fuel r).size = r.size := by
  induction fuel generalizing r with
  | zero => exact ⟨rfl, rfl⟩
  | succ fuel ih =>
    simp only [peekLoop]
    split_ifs with h
    · exact ⟨rfl, rfl⟩
    · obtain ⟨hc, hs⟩ := ih r.fill
      exact ⟨hc.trans (fill_content r), hs⟩

theorem peekLoop_buffered {n : ℕ} (fuel : ℕ) {r : Reader} (hn : n ≤ r.size)
    (hc : n ≤ r.content.length) (hf : n ≤ r.buf.length + fuel) :
    n ≤ (peekLoop n fuel r).buf.length := by
  induction fuel generalizing r with
  | zero => simpa [peekLoop] using hf
  | succ fuel ih =>
    simp only [peekLoop]
    split_ifs with h
    · rcases h with h | h | h
      · exact h
      · exact hn.trans h
      · have hs : r.src = [] := by simpa using h
        simpa [Reader.content, hs] using hc
    · push Not at h
      obtain ⟨hlt, hroom, hs⟩ := h
      have hg := fill_grows hroom (by simpa using hs)
      exact ih (by simpa using hn) (by simpa using hc) (by omega)

def Reader.peek (r : Reader) (n : ℕ) : Except ReadErr Bytes × Reader :=
  let r' := peekLoop n n r
  if n ≤ r'.buf.length then (.ok (r'.buf.take n), r')
  else (.error (if r'.size ≤ r'.buf.length then .bufferFull else .eof), r')

theorem peek_ok {r : Reader} {n : ℕ} (hn : n ≤ r.size) (hc : n ≤ r.content.length) :
    ∃ r', r.peek n = (.ok (r.content.take n), r') ∧ r'.content = r.content ∧
      r'.size = r.size ∧ n ≤ r'.buf.length := by
  obtain ⟨hcont, hsize⟩ := peekLoop_frame n n r
  have hb := peekLoop_buffered n hn hc (Nat.le_add_left _ _)
  refine ⟨peekLoop n n r, ?_, hcont, hsize, hb⟩
  simp only [Reader.peek, if_pos hb, Prod.mk.injEq, and_true, Except.ok.injEq]
  rw [← hcont, Reader.content, List.take_append_of_le_length hb]

theorem peek_short {r : Reader} {n : ℕ} (hn : n ≤ r.size) (hc : r.content.length < n) :
    ∃ r', r.peek n = (.error .eof, r') ∧ r'.content = r.content ∧ r'.size = r.size := by
  obtain ⟨hcont, hsize⟩ := peekLoop_frame n n r
  have hlen : (peekLoop n n r).buf.length ≤ r.content.length := by
    rw [← hcont, Reader.content, List.length_append]
    omega
  have hb : ¬ n ≤ (peekLoop n n r).buf.length := by omega
  have hfull : ¬ (peekLoop n n r).size ≤ (peekLoop n n r).buf.length := by omega
  refine ⟨peekLoop n n r, ?_, hcont, hsize⟩
  simp only [Reader.peek, if_neg hb, if_neg hfull]

/-- A buffer smaller than the peek never satisfies it. -/
theorem peek_small {r : Reader} {n : ℕ} (hn : r.size < n) : ∃ e r', r.peek n = (.error e, r') := by
  have hsize := (peekLoop_frame n n r).2
  have hfits := (peekLoop n n r).fits
  have hb : ¬ n ≤ (peekLoop n n r).buf.length := by omega
  exact ⟨_, _, by simp only [Reader.peek, if_neg hb]; rfl⟩

def Reader.discard (r : Reader) (n : ℕ) : Reader where
  size := r.size
  buf := r.buf.drop n
  src := r.src
  fits := (List.length_drop ..).trans_le ((Nat.sub_le _ _).trans r.fits)

theorem discard_content {r : Reader} {n : ℕ} (hb : n ≤ r.buf.length) :
    (r.discard n).content = r.content.drop n := by
  simp only [Reader.discard, Reader.content, List.drop_append_of_le_length hb]

def Reader.read (r : Reader) (k : ℕ) : Except ReadErr Bytes × Reader :=
  if r.buf ≠ [] then (.ok (r.buf.take k), r.discard k)
  else if r.src.isEmpty then (.error .eof, r)
  else if r.size ≤ k then (.ok (connRead k r.src).1, { r with src := (connRead k r.src).2 })
  else (.ok (r.fill.buf.take k), r.fill.discard k)

theorem read_end {r : Reader} {k : ℕ} (hc : r.content = []) : r.read k = (.error .eof, r) := by
  simp only [Reader.content, List.append_eq_nil_iff, flat_eq_nil] at hc
  simp [Reader.read, hc.1, hc.2]

theorem read_front {r : Reader} {k : ℕ} (hk : 0 < k) (hsz : 0 < r.size) (hc : r.content ≠ []) :
    ∃ bs r', r.read k = (.ok bs, r') ∧ bs ++ r'.content = r.content ∧ r'.size = r.size ∧
      0 < bs.length ∧ bs.length ≤ k := by
  by_cases hbuf : r.buf = []
  · have hs : r.src ≠ [] := by
      intro hs
      exact hc (by simp [Reader.content, hbuf, hs])
    by_cases hlarge : r.size ≤ k
    · refine ⟨(connRead k r.src).1, { r with src := (connRead k r.src).2 }, ?_, ?_, rfl,
        connRead_pos hk hs, connRead_length_le k r.src⟩
      · simp [Reader.read, hbuf, hs, hlarge]
      · simp only [Reader.content, hbuf, List.nil_append, connRead_content]
    · have hg := fill_grows (r := r) (by simpa [hbuf] using hsz) hs
      refine ⟨r.fill.buf.take k, r.fill.discard k, ?_, ?_, rfl, ?_, List.length_take_le ..⟩
      · simp [Reader.read, hbuf, hs, hlarge]
      · rw [← fill_content r]
        simp [Reader.content, Reader.discard, ← List.append_assoc]
      · simp only [List.length_take]
        omega
  · have hpos := List.length_pos_of_ne_nil hbuf
    refine ⟨r.buf.take k, r.discard k, ?_, ?_, rfl, ?_, List.length_take_le ..⟩
    · simp [Reader.read, hbuf]
    · simp [Reader.content, Reader.discard, ← List.append_assoc]
    · simp only [List.length_take]
      omega

def readFullLoop (k : ℕ) : ℕ → Bytes → Reader → Except ReadErr Bytes × Reader
  | 0, got, r => (.ok got, r)
  | fuel + 1, got, r =>
    if k ≤ got.length then (.ok got, r)
    else
      match r.read (k - got.length) with
      | (.ok bs, r') => readFullLoop k fuel (got ++ bs) r'
      | (.error _, r') => (.error (if got.isEmpty then .eof else .unexpectedEOF), r')

/-- `io.ReadFull` into `k` bytes. Each round reads at least one byte, so `k + 1`
rounds reach either exit. -/
def Reader.readFull (r : Reader) (k : ℕ) : Except ReadErr Bytes × Reader :=
  readFullLoop k (k + 1) [] r

theorem readFullLoop_ok {k : ℕ} (fuel : ℕ) (got : Bytes) {r : Reader} (hsz : 0 < r.size)
    (hg : got.length ≤ k) (hc : k ≤ got.length + r.content.length) (hf : k < got.length + fuel) :
    ∃ r', readFullLoop k fuel got r = (.ok (got ++ r.content.take (k - got.length)), r') ∧
      r'.content = r.content.drop (k - got.length) ∧ r'.size = r.size := by
  induction fuel generalizing got r with
  | zero => omega
  | succ fuel ih =>
    by_cases hdone : k ≤ got.length
    · have hz : k - got.length = 0 := by omega
      refine ⟨r, ?_, by simp [hz], rfl⟩
      simp [readFullLoop, hdone, hz]
    · have hne : r.content ≠ [] := by
        intro h
        rw [h, List.length_nil] at hc
        omega
      obtain ⟨bs, r', hread, hcont, hsize, hpos, hle⟩ :=
        read_front (k := k - got.length) (by omega) hsz hne
      have hlen : bs.length + r'.content.length = r.content.length := by
        rw [← hcont, List.length_append]
      obtain ⟨r'', hloop, hdrop, hsize'⟩ := ih (got ++ bs) (r := r') (by omega)
        (by simp only [List.length_append]; omega) (by simp only [List.length_append]; omega)
        (by simp only [List.length_append]; omega)
      have hk : k - (got ++ bs).length = k - got.length - bs.length := by
        simp only [List.length_append]
        omega
      have htake : r.content.take (k - got.length) =
          bs ++ r'.content.take (k - got.length - bs.length) := by
        rw [← hcont, List.take_append, List.take_of_length_le hle]
      have hdrop' : r.content.drop (k - got.length) =
          r'.content.drop (k - got.length - bs.length) := by
        rw [← hcont, List.drop_append, List.drop_eq_nil_of_le hle, List.nil_append]
      refine ⟨r'', ?_, by rw [hdrop, hk, hdrop'], hsize'.trans hsize⟩
      simp only [readFullLoop, if_neg hdone, hread]
      rw [hloop, hk, htake, List.append_assoc]

theorem readFullLoop_short {k : ℕ} (fuel : ℕ) (got : Bytes) {r : Reader} (hsz : 0 < r.size)
    (hc : got.length + r.content.length < k) (hf : k < got.length + fuel) :
    ∃ e r', readFullLoop k fuel got r = (.error e, r') ∧ (e = .eof ∨ e = .unexpectedEOF) ∧
      r'.content = [] ∧ r'.size = r.size := by
  induction fuel generalizing got r with
  | zero => omega
  | succ fuel ih =>
    have hdone : ¬ k ≤ got.length := by omega
    by_cases hend : r.content = []
    · refine ⟨if got.isEmpty then .eof else .unexpectedEOF, r, ?_, ?_, hend, rfl⟩
      · simp only [readFullLoop, if_neg hdone, read_end hend]
      · split_ifs
        · exact Or.inl rfl
        · exact Or.inr rfl
    · obtain ⟨bs, r', hread, hcont, hsize, hpos, hle⟩ :=
        read_front (k := k - got.length) (by omega) hsz hend
      have hlen : bs.length + r'.content.length = r.content.length := by
        rw [← hcont, List.length_append]
      simp only [readFullLoop, if_neg hdone, hread]
      rw [← hsize]
      apply ih (got ++ bs) (by omega)
      · simp only [List.length_append]
        omega
      · simp only [List.length_append]
        omega

theorem readFull_ok {r : Reader} {k : ℕ} (hsz : 0 < r.size) (hc : k ≤ r.content.length) :
    ∃ r', r.readFull k = (.ok (r.content.take k), r') ∧ r'.content = r.content.drop k ∧
      r'.size = r.size := by
  simpa [Reader.readFull] using readFullLoop_ok (k + 1) [] hsz (Nat.zero_le _)
    (by simpa using hc) (by simp)

theorem readFull_short {r : Reader} {k : ℕ} (hsz : 0 < r.size) (hc : r.content.length < k) :
    ∃ e r', r.readFull k = (.error e, r') ∧ (e = .eof ∨ e = .unexpectedEOF) ∧
      r'.content = [] ∧ r'.size = r.size :=
  readFullLoop_short (k + 1) [] hsz (by simpa using hc) (by simp)

end Gearman.Bufio
