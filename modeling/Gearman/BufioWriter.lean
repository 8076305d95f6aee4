import Mathlib.Data.List.Basic
import Mathlib.Tactic

/-!
# A buffered writer over a connection whose writes may fail

A write on the connection puts out everything, or a front and an error: `fates` says
which, write by write. The writer keeps at most `size` items back and holds on to its
first error. `Takes w p w'` says what an operation that was given `p` has done with
it: as long as there is no error everything is on the connection or in the buffer, in
order; with an error a front of it is out, and from then on nothing changes.

`Line` is a connection with all that was ever given to it, packet by packet, and
`Carried` what a peer can have seen of them.
-/

namespace Gearman.Bufio
variable {α ε : Type}

inductive Outcome (ε : Type)
  | done
  | failed (n : ℕ) (e : ε)
deriving DecidableEq, Repr

structure Sink (α ε : Type) where
  out : List α := []
  fates : List (Outcome ε)

/-- When the list of fates is over, every further write succeeds. -/
def Sink.write (c : Sink α ε) (p : List α) : ℕ × Option ε × Sink α ε :=
  match c.fates with
  | [] => (p.length, none, ⟨c.out ++ p, []⟩)
  | .done :: rest => (p.length, none, ⟨c.out ++ p, rest⟩)
  | .failed n e :: rest => (min n p.length, some e, ⟨c.out ++ p.take n, rest⟩)

theorem Sink.write_cases (c : Sink α ε) (p : List α) :
    (∃ c', c.write p = (p.length, none, c') ∧ c'.out = c.out ++ p) ∨
      ∃ n e c', c.write p = (n, some e, c') ∧ n ≤ p.length ∧ c'.out = c.out ++ p.take n := by
  unfold Sink.write
  split
  · exact Or.inl ⟨_, rfl, rfl⟩
  · exact Or.inl ⟨_, rfl, rfl⟩
  · refine Or.inr ⟨_, _, _, rfl, ?_⟩
    exact ⟨Nat.min_le_right _ _, by simp [List.take_eq_take_min]⟩

structure Writer (α ε : Type) where
  size : ℕ
  buf : List α
  err : Option ε
  conn : Sink α ε
  fits : buf.length ≤ size

def newWriter (size : ℕ) (fates : List (Outcome ε)) : Writer α ε :=
  ⟨size, [], none, { fates }, Nat.zero_le _⟩

namespace Writer

def available (w : Writer α ε) : ℕ := w.size - w.buf.length

def flush (w : Writer α ε) : Option ε × Writer α ε :=
  match w.err with
  | some e => (some e, w)
  | none =>
    if w.buf.isEmpty then (none, w)
    else match w.conn.write w.buf with
      | (n, some e, conn) =>
        (some e, ⟨w.size, w.buf.drop n, some e, conn, by
          have := w.fits
          simp only [List.length_drop]
          omega⟩)
      | (_, none, conn) => (none, ⟨w.size, [], none, conn, Nat.zero_le _⟩)

def copyIn (w : Writer α ε) (p : List α) : Writer α ε where
  size := w.size
  buf := w.buf ++ p.take w.available
  err := w.err
  conn := w.conn
  fits := by
    have := w.fits
    simp only [available, List.length_append, List.length_take]
    omega

def turn (w : Writer α ε) (p : List α) : ℕ × Writer α ε :=
  if w.buf.isEmpty then
    match w.conn.write p with
    | (n, err, conn) => (n, { w with err, conn })
  else (min w.available p.length, (w.copyIn p).flush.2)

def writeLoop : ℕ → ℕ → List α → Writer α ε → ℕ × List α × Writer α ε
  | 0, nn, p, w => (nn, p, w)
  | fuel + 1, nn, p, w =>
    if w.available < p.length ∧ w.err.isNone then
      match w.turn p with
      | (n, w) => writeLoop fuel (nn + n) (p.drop n) w
    else (nn, p, w)

/-- Two turns are enough: the first empties the buffer, the second empties `p`. -/
def write (w : Writer α ε) (p : List α) : ℕ × Option ε × Writer α ε :=
  match writeLoop 2 0 p w with
  | (nn, rest, w) =>
    match w.err with
    | some e => (nn, some e, w)
    | none => (nn + min w.available rest.length, none, w.copyIn rest)

/-- The loop of a caller around `Write`, and the `Flush` after it. -/
def writeFrom : ℕ → List α → Writer α ε → Option ε × Writer α ε
  | _, [], w => w.flush
  | 0, _ :: _, w => (none, w)
  | fuel + 1, b :: p, w =>
    match w.write (b :: p) with
    | (_, some e, w) => (some e, w)
    | (n, none, w) => writeFrom fuel ((b :: p).drop n) w

def writeAll (w : Writer α ε) (p : List α) : Option ε × Writer α ε := writeFrom p.length p w

end Writer

structure Takes (w : Writer α ε) (p : List α) (w' : Writer α ε) : Prop where
  whole : w'.err = none → w'.conn.out ++ w'.buf = w.conn.out ++ w.buf ++ p
  front : w'.conn.out <+: w.conn.out ++ w.buf ++ p
  grows : w.conn.out <+: w'.conn.out
  stuck : ∀ e, w.err = some e → w' = w

variable {w w' w₁ w₂ : Writer α ε} {p q : List α}

theorem Takes.refl (w : Writer α ε) : Takes w [] w where
  whole := by simp
  front := by simp
  grows := List.prefix_rfl
  stuck := fun _ _ => rfl

theorem Takes.of_err (h : Takes w p w') {e : ε} (he : w'.err = some e) (q : List α) :
    Takes w (p ++ q) w' where
  whole := fun hn => by simp [he] at hn
  front := by
    rw [← List.append_assoc]
    exact h.front.trans (List.prefix_append _ _)
  grows := h.grows
  stuck := h.stuck

theorem Takes.trans (h : Takes w p w₁) (h' : Takes w₁ q w₂) : Takes w (p ++ q) w₂ := by
  cases he : w₁.err with
  | some e =>
    rw [h'.stuck e he]
    exact h.of_err he q
  | none =>
    have hw := h.whole he
    have hout : w₁.conn.out ++ w₁.buf ++ q = w.conn.out ++ w.buf ++ (p ++ q) := by
      rw [hw, List.append_assoc]
    refine ⟨fun hn => (h'.whole hn).trans hout, hout ▸ h'.front, h.grows.trans h'.grows, ?_⟩
    intro e hs
    obtain rfl := h.stuck e hs
    rw [hs] at he
    cases he

namespace Writer

theorem flush_err (w : Writer α ε) : w.flush.2.err = w.flush.1 := by
  unfold flush
  split
  · assumption
  · split
    · assumption
    · split <;> rfl

theorem flush_takes (w : Writer α ε) : Takes w [] w.flush.2 := by
  cases he : w.err with
  | some e =>
    simp only [flush, he]
    exact .refl w
  | none =>
    by_cases hb : w.buf.isEmpty
    · simp only [flush, he, hb, if_true]
      exact .refl w
    · simp only [flush, he, hb, Bool.false_eq_true, if_false]
      rcases w.conn.write_cases w.buf with ⟨c', hw, hout⟩ | ⟨n, e, c', hw, -, hout⟩
      · simp only [hw]
        refine ⟨fun _ => ?_, ?_, ?_, fun e h => by simp [he] at h⟩
        · simp [hout]
        · simp [hout]
        · exact hout ▸ List.prefix_append _ _
      · simp only [hw]
        refine ⟨fun h => (by cases h), ?_, ?_, fun e h => by simp [he] at h⟩
        · simp [hout, List.take_prefix]
        · exact hout ▸ List.prefix_append _ _

theorem flush_empties (h : w.flush.1 = none) : w.flush.2.buf = [] := by
  cases he : w.err with
  | some e => simp [flush, he] at h
  | none =>
    by_cases hb : w.buf.isEmpty
    · have hb' : w.buf = [] := by simpa using hb
      simp [flush, he, hb']
    · simp only [flush, he, hb, Bool.false_eq_true, if_false] at h ⊢
      rcases w.conn.write_cases w.buf with ⟨c', hw, -⟩ | ⟨n, e, c', hw, -, -⟩
      · rw [hw]
      · rw [hw] at h
        cases h

theorem copyIn_takes (he : w.err = none) : Takes w (p.take w.available) (w.copyIn p) where
  whole := by simp [copyIn]
  front := by simp [copyIn]
  grows := List.prefix_rfl
  stuck := fun e h => by simp [he] at h

theorem turn_takes (he : w.err = none) :
    Takes w (p.take (w.turn p).1) (w.turn p).2 := by
  by_cases hb : w.buf.isEmpty
  · have hb' : w.buf = [] := by simpa using hb
    simp only [turn, hb, if_true]
    rcases w.conn.write_cases p with ⟨c', hw, hout⟩ | ⟨n, e, c', hw, -, hout⟩
    · simp only [hw]
      refine ⟨fun _ => ?_, ?_, ?_, fun e h => by simp [he] at h⟩
      · simp [hout, hb']
      · simp [hout, hb']
      · exact hout ▸ List.prefix_append _ _
    · simp only [hw]
      refine ⟨fun h => (by cases h), ?_, ?_, fun e h => by simp [he] at h⟩
      · simp [hout, hb']
      · exact hout ▸ List.prefix_append _ _
  · simp only [turn, hb, Bool.false_eq_true, if_false]
    have h := (copyIn_takes (p := p) he).trans (flush_takes (w.copyIn p))
    rwa [List.append_nil, List.take_eq_take_min] at h

theorem turn_le (w : Writer α ε) (p : List α) : (w.turn p).1 ≤ p.length := by
  by_cases hb : w.buf.isEmpty
  · simp only [turn, hb, if_true]
    rcases w.conn.write_cases p with ⟨c', hw, -⟩ | ⟨n, e, c', hw, hle, -⟩
    · simp [hw]
    · simpa [hw] using hle
  · simp [turn, hb]

theorem turn_direct (hb : w.buf = []) (hn : (w.turn p).2.err = none) :
    (w.turn p).1 = p.length := by
  simp only [turn, hb, List.isEmpty_nil, if_true] at hn ⊢
  rcases w.conn.write_cases p with ⟨c', hw, -⟩ | ⟨n, e, c', hw, -, -⟩
  · rw [hw]
  · rw [hw] at hn
    cases hn

theorem turn_empties (hb : w.buf ≠ []) (hn : (w.turn p).2.err = none) :
    (w.turn p).2.buf = [] := by
  have hb' : w.buf.isEmpty = false := by simpa using hb
  simp only [turn, hb', Bool.false_eq_true, if_false] at hn ⊢
  rw [flush_err] at hn
  exact flush_empties hn

theorem writeLoop_stops {fuel nn : ℕ} (h : ¬ (w.available < p.length ∧ w.err.isNone)) :
    writeLoop fuel nn p w = (nn, p, w) := by
  cases fuel with
  | zero => rfl
  | succ fuel => rw [writeLoop, if_neg h]

theorem writeLoop_turn {fuel nn : ℕ} (h : w.available < p.length ∧ w.err.isNone) :
    writeLoop (fuel + 1) nn p w =
      writeLoop fuel (nn + (w.turn p).1) (p.drop (w.turn p).1) (w.turn p).2 := by
  rw [writeLoop, if_pos h]

theorem writeLoop_takes (fuel nn : ℕ) (p : List α) (w : Writer α ε) :
    ∃ q, p = q ++ (writeLoop fuel nn p w).2.1 ∧ (writeLoop fuel nn p w).1 = nn + q.length ∧
      Takes w q (writeLoop fuel nn p w).2.2 := by
  induction fuel generalizing nn p w with
  | zero => exact ⟨[], by simp [writeLoop], by simp [writeLoop], .refl w⟩
  | succ fuel ih =>
    by_cases hc : w.available < p.length ∧ w.err.isNone
    · have he : w.err = none := by simpa using hc.2
      obtain ⟨q, hp, hnn, ht⟩ := ih (nn + (w.turn p).1) (p.drop (w.turn p).1) (w.turn p).2
      rw [writeLoop_turn hc]
      refine ⟨p.take (w.turn p).1 ++ q, ?_, ?_, (turn_takes he).trans ht⟩
      · rw [List.append_assoc, ← hp, List.take_append_drop]
      · have hle := turn_le w p
        simp only [hnn, List.length_append, List.length_take]
        omega
    · rw [writeLoop_stops hc]
      exact ⟨[], by simp, by simp, .refl w⟩

theorem stopped_fits (h : ¬ (w.available < p.length ∧ w.err.isNone)) (hn : w.err = none) :
    p.length ≤ w.available := by
  simpa [hn] using h

theorem writeLoop_exits (hn : (writeLoop 2 0 p w).2.2.err = none) :
    (writeLoop 2 0 p w).2.1.length ≤ (writeLoop 2 0 p w).2.2.available := by
  by_cases hc : w.available < p.length ∧ w.err.isNone
  · rw [writeLoop_turn hc] at hn ⊢
    by_cases hc' : (w.turn p).2.available < (p.drop (w.turn p).1).length ∧
        (w.turn p).2.err.isNone
    · have he : (w.turn p).2.err = none := by simpa using hc'.2
      have hb : w.buf ≠ [] := by
        intro hb
        have hlt := hc'.1
        rw [turn_direct hb he, List.drop_length] at hlt
        exact Nat.not_lt_zero _ hlt
      rw [writeLoop_turn hc'] at hn ⊢
      simp only [writeLoop] at hn ⊢
      rw [turn_direct (turn_empties hb he) hn, List.drop_length]
      exact Nat.zero_le _
    · rw [writeLoop_stops hc'] at hn ⊢
      exact stopped_fits hc' hn
  · rw [writeLoop_stops hc] at hn ⊢
    exact stopped_fits hc hn

theorem write_takes (w : Writer α ε) (p : List α) :
    Takes w p (w.write p).2.2 ∧ (w.write p).2.2.err = (w.write p).2.1 ∧
      ((w.write p).2.1 = none → (w.write p).1 = p.length) := by
  obtain ⟨q, hp, hnn, ht⟩ := writeLoop_takes 2 0 p w
  have hexit := writeLoop_exits (p := p) (w := w)
  generalize hr : writeLoop 2 0 p w = r at hp hnn ht hexit
  obtain ⟨nn, rest, w'⟩ := r
  cases he : w'.err with
  | some e =>
    simp only [write, hr, he]
    exact ⟨hp ▸ ht.of_err he rest, trivial, fun h => by cases h⟩
  | none =>
    have hle : rest.length ≤ w'.available := hexit he
    have hcopy := copyIn_takes (p := rest) he
    rw [List.take_of_length_le hle] at hcopy
    simp only [write, hr, he]
    refine ⟨hp ▸ ht.trans hcopy, he, fun _ => ?_⟩
    have hlen := congrArg List.length hp
    simp only [List.length_append] at hlen
    simp only at hnn
    omega

theorem writeAll_takes (w : Writer α ε) (p : List α) :
    Takes w p (w.writeAll p).2 ∧ (w.writeAll p).2.err = (w.writeAll p).1 ∧
      ((w.writeAll p).1 = none → (w.writeAll p).2.buf = []) := by
  cases p with
  | nil => exact ⟨flush_takes w, flush_err w, flush_empties⟩
  | cons b p =>
    obtain ⟨ht, herr, hlen⟩ := write_takes w (b :: p)
    simp only [writeAll, List.length_cons, writeFrom]
    generalize w.write (b :: p) = r at ht herr hlen
    obtain ⟨n, err, w'⟩ := r
    cases err with
    | some e => exact ⟨ht, herr, fun h => by cases h⟩
    | none =>
      have hn : n = (b :: p).length := hlen rfl
      have hall := ht.trans (flush_takes w')
      rw [List.append_nil] at hall
      simp only [hn, List.drop_length, writeFrom]
      exact ⟨hall, flush_err w', flush_empties⟩

end Writer

structure Line (α ε : Type) where
  writer : Writer α ε
  offered : List (List α) := []

def newLine (size : ℕ) (fates : List (Outcome ε)) : Line α ε := { writer := newWriter size fates }

def Line.push (l : Line α ε) (p : List α) (w : Writer α ε) : Line α ε := ⟨w, l.offered ++ [p]⟩

/-- What is on the connection when `sent` were the packets written without an error: these,
then nothing; or these, then a front of the first one that failed, and no later one. -/
inductive Carried (l : Line α ε) (sent : List (List α)) : Prop
  | whole (herr : l.writer.err = none) (hbuf : l.writer.buf = []) (hsent : l.offered = sent)
      (hout : l.writer.conn.out = sent.flatten)
  | torn {e : ε} {p front : List α} (herr : l.writer.err = some e)
      (hsent : sent ++ [p] <+: l.offered) (hfront : front <+: p)
      (hout : l.writer.conn.out = sent.flatten ++ front)

variable {l : Line α ε} {sent : List (List α)}

theorem carried_newLine (size : ℕ) (fates : List (Outcome ε)) :
    Carried (newLine size fates : Line α ε) [] := .whole rfl rfl rfl rfl

theorem Carried.push_ok (h : Carried l sent) (hok : (l.writer.writeAll p).1 = none) :
    Carried (l.push p (l.writer.writeAll p).2) (sent ++ [p]) := by
  obtain ⟨ht, herr', hbuf'⟩ := l.writer.writeAll_takes p
  cases h with
  | whole herr hbuf hsent hout =>
    have hw := ht.whole (herr'.trans hok)
    rw [hbuf' hok, hbuf, List.append_nil, List.append_nil, hout] at hw
    exact .whole (herr'.trans hok) (hbuf' hok) (by simp [Line.push, hsent])
      (by simpa [Line.push] using hw)
  | torn herr hsent hfront hout =>
    rw [ht.stuck _ herr, herr, hok] at herr'
    cases herr'

theorem Carried.push_err (h : Carried l sent) {e : ε} (he : (l.writer.writeAll p).1 = some e) :
    Carried (l.push p (l.writer.writeAll p).2) sent := by
  obtain ⟨ht, herr', -⟩ := l.writer.writeAll_takes p
  cases h with
  | whole herr hbuf hsent hout =>
    obtain ⟨front, hfront⟩ := ht.grows
    have hpre := ht.front
    rw [← hfront, hbuf, List.append_nil, List.prefix_append_right_inj] at hpre
    refine .torn (herr'.trans he) (p := p) (by simp [Line.push, hsent]) hpre ?_
    rw [Line.push, ← hfront, hout]
  | torn herr hsent hfront hout =>
    rw [ht.stuck _ herr]
    exact .torn herr (hsent.trans (List.prefix_append _ _)) hfront hout

theorem carried_update {lines : ℕ → Line α ε} {sent : ℕ → List (List α)}
    (h : ∀ c, Carried (lines c) (sent c)) {c : ℕ} {new : List (List α)} (hnew : Carried l new)
    (d : ℕ) : Carried (Function.update lines c l d) (Function.update sent c new d) := by
  by_cases hd : d = c
  · subst hd
    simpa using hnew
  · simpa [hd] using h d

end Gearman.Bufio
