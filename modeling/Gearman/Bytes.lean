import Mathlib.Data.List.Basic
import Mathlib.Tactic

/-!
# Byte strings, separators, checked slices and big-endian words

A slice expression, an indexed store and a `copy` into a sub-slice are partial:
`none` is the run-time panic of an index out of range. The searches and the word
codec are total. A field that ends at a separator is described by the splitting
`b = a ++ c :: r` with `c ∉ a`; every later scan is reduced to it.
-/

namespace Gearman

abbrev Bytes := List UInt8

namespace Bytes

def indexByte (c : UInt8) : Bytes → Option ℕ
  | [] => none
  | b :: bs => if b = c then some 0 else (indexByte c bs).map (· + 1)

theorem indexByte_append {c : UInt8} (a r : Bytes) (h : c ∉ a) :
    indexByte c (a ++ c :: r) = some a.length := by
  induction a with
  | nil => simp [indexByte]
  | cons b a ih =>
    obtain ⟨hb, ha⟩ : c ≠ b ∧ c ∉ a := by simpa using h
    simp [indexByte, Ne.symm hb, ih ha]

theorem indexByte_eq_none {c : UInt8} (b : Bytes) : indexByte c b = none ↔ c ∉ b := by
  induction b with
  | nil => simp [indexByte]
  | cons x b ih =>
    by_cases hx : x = c
    · simp [indexByte, hx]
    · simp [indexByte, hx, ih, Ne.symm hx]

theorem indexByte_eq_some {c : UInt8} {b : Bytes} {i : ℕ} (h : indexByte c b = some i) :
    ∃ a r, b = a ++ c :: r ∧ c ∉ a ∧ a.length = i := by
  induction b generalizing i with
  | nil => simp [indexByte] at h
  | cons x b ih =>
    by_cases hx : x = c
    · refine ⟨[], b, by simp [hx], by simp, ?_⟩
      simpa [indexByte, hx] using h
    · simp only [indexByte, hx, ↓reduceIte, Option.map_eq_some_iff] at h
      obtain ⟨j, hj, rfl⟩ := h
      obtain ⟨a, r, rfl, ha, rfl⟩ := ih hj
      exact ⟨x :: a, r, rfl, by simp [ha, Ne.symm hx], rfl⟩

/-- A byte string either has no `c` or splits at its first one. -/
theorem split_cases (c : UInt8) (b : Bytes) :
    c ∉ b ∨ ∃ a r, b = a ++ c :: r ∧ c ∉ a := by
  cases h : indexByte c b with
  | none => exact Or.inl ((indexByte_eq_none b).mp h)
  | some i =>
    obtain ⟨a, r, hb, ha, -⟩ := indexByte_eq_some h
    exact Or.inr ⟨a, r, hb, ha⟩

theorem split_unique {c : UInt8} {a a' r r' : Bytes} (ha : c ∉ a) (ha' : c ∉ a')
    (h : a ++ c :: r = a' ++ c :: r') : a = a' ∧ r = r' := by
  have hi := indexByte_append a r ha
  rw [h, indexByte_append a' r' ha'] at hi
  have hl : a.length = a'.length := by simpa using hi.symm
  obtain ⟨hl, hr⟩ := List.append_inj h hl
  exact ⟨hl, by simpa using hr⟩

theorem drop_after (a r : Bytes) (c : UInt8) : (a ++ c :: r).drop (a.length + 1) = r := by
  rw [← List.drop_drop, List.drop_left, List.drop_one, List.tail_cons]

/-- `bytes.SplitN` at one separator byte: at most `n` parts, the last one unsplit. -/
def splitN (c : UInt8) : ℕ → Bytes → List Bytes
  | 0, _ => []
  | 1, b => [b]
  | n + 2, b =>
    match indexByte c b with
    | none => [b]
    | some i => b.take i :: splitN c (n + 1) (b.drop (i + 1))

theorem splitN_of_notMem {c : UInt8} {b : Bytes} (h : c ∉ b) (n : ℕ) :
    splitN c (n + 1) b = [b] := by
  cases n with
  | zero => rfl
  | succ n => simp only [splitN, (indexByte_eq_none b).mpr h]

theorem splitN_append {c : UInt8} {a : Bytes} (h : c ∉ a) (n : ℕ) (r : Bytes) :
    splitN c (n + 2) (a ++ c :: r) = a :: splitN c (n + 1) r := by
  simp only [splitN, indexByte_append a r h, List.take_left, drop_after]

@[simp] theorem splitN_one (c : UInt8) (b : Bytes) : splitN c 1 b = [b] := rfl

theorem splitN_ne_nil (c : UInt8) (n : ℕ) (b : Bytes) : splitN c (n + 1) b ≠ [] := by
  rcases split_cases c b with h | ⟨a, r, rfl, ha⟩
  · simp [splitN_of_notMem h]
  · cases n with
    | zero => simp
    | succ n => simp [splitN_append ha]

/-- The parts join back to the string they were split from. -/
theorem intercalate_splitN (c : UInt8) (n : ℕ) (b : Bytes) :
    [c].intercalate (splitN c (n + 1) b) = b := by
  induction n generalizing b with
  | zero => simp
  | succ n ih =>
    rcases split_cases c b with h | ⟨a, r, rfl, ha⟩
    · simp [splitN_of_notMem h]
    · obtain ⟨x, xs, hx⟩ := List.exists_cons_of_ne_nil (splitN_ne_nil c n r)
      have hr := ih r
      rw [hx] at hr
      rw [splitN_append ha, hx]
      simp [List.intercalate_cons_cons, hr]

/-- Only the last part may hold the separator. -/
theorem notMem_of_splitN {c : UInt8} {n : ℕ} {b x : Bytes}
    (hx : x ∈ (splitN c (n + 1) b).dropLast) : c ∉ x := by
  induction n generalizing b with
  | zero => simp at hx
  | succ n ih =>
    rcases split_cases c b with h | ⟨a, r, rfl, ha⟩
    · simp [splitN_of_notMem h] at hx
    · rw [splitN_append ha, List.dropLast_cons_of_ne_nil (splitN_ne_nil c n r)] at hx
      rcases List.mem_cons.mp hx with rfl | hx
      · exact ha
      · exact ih hx

def slice (b : Bytes) (i j : ℕ) : Option Bytes :=
  if i ≤ j ∧ j ≤ b.length then some ((b.take j).drop i) else none

theorem slice_append (a x r : Bytes) {i j : ℕ} (hi : i = a.length) (hj : j = i + x.length) :
    slice (a ++ x ++ r) i j = some x := by
  subst hi hj
  have hb : a.length ≤ a.length + x.length ∧ a.length + x.length ≤ (a ++ x ++ r).length := by
    simp only [List.length_append]
    omega
  rw [slice, if_pos hb, List.take_append_of_le_length (by simp), List.take_of_length_le (by simp)]
  simp

theorem slice_tail (a x : Bytes) {i j : ℕ} (hi : i = a.length) (hj : j = (a ++ x).length) :
    slice (a ++ x) i j = some x := by
  simpa using slice_append a x [] hi (by subst hi hj; simp)

theorem slice_after (a r : Bytes) (c : UInt8) {i j : ℕ} (hi : i = a.length + 1)
    (hj : j = (a ++ c :: r).length) : slice (a ++ c :: r) i j = some r := by
  have h := slice_tail (a ++ [c]) r (i := i) (j := j) (by simp [hi]) (by simp [hj])
  rwa [List.append_assoc, List.singleton_append] at h

theorem slice_front (x r : Bytes) {j : ℕ} (hj : j = x.length) :
    slice (x ++ r) 0 j = some x := by
  simpa using slice_append [] x r rfl (by simpa using hj)

def copyTo (b : Bytes) (i j : ℕ) (src : Bytes) : Option (Bytes × ℕ) :=
  if i ≤ j ∧ j ≤ b.length then
    let n := min (j - i) src.length
    some (b.take i ++ src.take n ++ b.drop (i + n), n)
  else none

/-- A copy that fits replaces exactly the bytes it covers. -/
theorem copyTo_append (a x r src : Bytes) {i j : ℕ} (hi : i = a.length)
    (hx : x.length = src.length) (hj : i + src.length ≤ j) (hb : j ≤ (a ++ x ++ r).length) :
    copyTo (a ++ x ++ r) i j src = some (a ++ src ++ r, src.length) := by
  subst hi
  have hn : min (j - a.length) src.length = src.length := by omega
  have hr : (a ++ x ++ r).drop (a.length + src.length) = r := by
    have hl : a.length + src.length = (a ++ x).length := by simp [hx]
    rw [hl, List.drop_left]
  have ht : (a ++ x ++ r).take a.length = a := by
    rw [List.append_assoc, List.take_left]
  rw [copyTo, if_pos ⟨by omega, hb⟩]
  simp only [hn, hr, ht, List.take_length]

def setAt (b : Bytes) (i : ℕ) (c : UInt8) : Option Bytes :=
  if i < b.length then some (b.set i c) else none

theorem setAt_append (a r : Bytes) (x c : UInt8) {i : ℕ} (hi : i = a.length) :
    setAt (a ++ x :: r) i c = some (a ++ c :: r) := by
  subst hi
  simp [setAt, List.set_append_right]

def zeros (n : ℕ) : Bytes := List.replicate n 0

@[simp] theorem zeros_length (n : ℕ) : (zeros n).length = n := List.length_replicate

@[simp] theorem zeros_zero : zeros 0 = [] := rfl

theorem zeros_add (m n : ℕ) : zeros (m + n) = zeros m ++ zeros n :=
  List.replicate_add ..

theorem zeros_succ (n : ℕ) : zeros (n + 1) = 0 :: zeros n := rfl

def putUint32 (v : UInt32) : Bytes :=
  [UInt8.ofNat (v.toNat / 16777216), UInt8.ofNat (v.toNat / 65536),
    UInt8.ofNat (v.toNat / 256), UInt8.ofNat v.toNat]

def uint32 : Bytes → Option UInt32
  | a :: b :: c :: d :: _ =>
    some (UInt32.ofNat (a.toNat * 16777216 + b.toNat * 65536 + c.toNat * 256 + d.toNat))
  | _ => none

@[simp] theorem putUint32_length (v : UInt32) : (putUint32 v).length = 4 := rfl

@[simp] theorem uint32_putUint32 (v : UInt32) (r : Bytes) :
    uint32 (putUint32 v ++ r) = some v := by
  have hv : v.toNat < 4294967296 := v.toNat_lt
  simp only [putUint32, uint32, List.cons_append, List.nil_append, Option.some.injEq]
  apply UInt32.toNat_inj.mp
  simp only [UInt8.toNat_ofNat', UInt32.toNat_ofNat']
  omega

theorem putUint32_surj {b : Bytes} (h : b.length = 4) : ∃ v, b = putUint32 v := by
  match b, h with
  | [a, b, c, d], _ =>
    have ha := a.toNat_lt
    have hb := b.toNat_lt
    have hc := c.toNat_lt
    have hd := d.toNat_lt
    refine ⟨UInt32.ofNat (a.toNat * 16777216 + b.toNat * 65536 + c.toNat * 256 + d.toNat), ?_⟩
    simp only [putUint32, List.cons.injEq, and_true]
    refine ⟨?_, ?_, ?_, ?_⟩ <;>
      · apply UInt8.toNat_inj.mp
        simp only [UInt8.toNat_ofNat', UInt32.toNat_ofNat']
        omega

end Bytes
end Gearman
