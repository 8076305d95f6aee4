import Gearman.Decimal
import Mathlib.Data.List.Nodup
import Mathlib.Data.List.Range

/-!
# The generator of job ids

`autoincId` counts up from the nanoseconds of its start, shifted past 32 bits, and prints the
counter. The counter is an `int64` that every goroutine of the process increments atomically,
so the n-th id is a function of n alone.
-/

namespace Gearman.Decimal

theorem formatUint_injective : Function.Injective formatUint := by
  intro m n h
  have hm := parseUint_formatUint m
  rw [h, parseUint_formatUint] at hm
  exact (Option.some.inj hm).symm

theorem formatInt_ne_nil (n : ℤ) : formatInt n ≠ [] := by
  unfold formatInt
  split_ifs
  · simp
  · exact formatLoop_ne_nil _ _ _

theorem formatInt_injective : Function.Injective formatInt := by
  intro m n h
  have hparse := congrArg parseUint h
  rw [parseUint_formatInt, parseUint_formatInt] at hparse
  by_cases hm : m < 0 <;> by_cases hn : n < 0
  · rw [formatInt, formatInt, if_pos hm, if_pos hn] at h
    have habs := formatUint_injective (List.cons.inj h).2
    omega
  · simp [hm, hn] at hparse
  · simp [hm, hn] at hparse
  · simp only [hm, hn, if_false, Option.some.injEq] at hparse
    omega

end Gearman.Decimal

namespace Gearman.Client

structure AutoincId where
  value : Int64
deriving DecidableEq, Repr

def AutoincId.id (ai : AutoincId) : Bytes × AutoincId :=
  let next := ai.value + 1
  (Decimal.formatInt next.toInt, ⟨next⟩)

/-- The nanoseconds are those within a second. -/
def newAutoIncId (nanosecond : ℕ) : AutoincId := ⟨Int64.ofNat nanosecond <<< 32⟩

/-- The generator after `n` calls, and the id of the call before. -/
def AutoincId.after (ai : AutoincId) (n : ℕ) : AutoincId := ⟨ai.value + Int64.ofNat n⟩

def AutoincId.nth (ai : AutoincId) (n : ℕ) : Bytes :=
  Decimal.formatInt (ai.value + Int64.ofNat n).toInt

variable {ai : AutoincId} {m n : ℕ}

theorem after_id (ai : AutoincId) (n : ℕ) :
    (ai.after n).id = (ai.nth (n + 1), ai.after (n + 1)) := by
  have h : ai.value + Int64.ofNat n + 1 = ai.value + Int64.ofNat (n + 1) := by
    rw [Int64.ofNat_add, Int64.add_assoc]
    rfl
  simp only [AutoincId.id, AutoincId.after, AutoincId.nth, h]

theorem toNat_after (v : Int64) (n : ℕ) :
    (v + Int64.ofNat n).toBitVec.toNat = (v.toBitVec.toNat + n) % 2 ^ 64 := by
  rw [Int64.toBitVec_add, Int64.toBitVec_ofNat', BitVec.toNat_add, BitVec.toNat_ofNat]
  omega

theorem nth_inj (h : ai.nth m = ai.nth n) : m % 2 ^ 64 = n % 2 ^ 64 := by
  have hv := Int64.toInt_inj.mp (Decimal.formatInt_injective h)
  have hbits := congrArg (fun v => v.toBitVec.toNat) hv
  simp only [toNat_after] at hbits
  omega

theorem nth_ne_nil (ai : AutoincId) (n : ℕ) : ai.nth n ≠ [] := Decimal.formatInt_ne_nil _

theorem zero_notMem_nth (ai : AutoincId) (n : ℕ) : (0 : UInt8) ∉ ai.nth n :=
  Decimal.zero_notMem_formatInt _

/-- The first `n` ids. -/
def AutoincId.ids (ai : AutoincId) (n : ℕ) : List Bytes := (List.range' 1 n).map ai.nth

theorem ids_succ (ai : AutoincId) (n : ℕ) : ai.ids (n + 1) = ai.ids n ++ [ai.nth (n + 1)] := by
  simp [AutoincId.ids, List.range'_concat, Nat.add_comm]

theorem ids_nodup (ai : AutoincId) (hn : n ≤ 2 ^ 64) : (ai.ids n).Nodup := by
  refine List.Nodup.map_on ?_ List.nodup_range'
  intro x hx y hy h
  rw [List.mem_range'_1] at hx hy
  have hxy := nth_inj h
  omega

theorem toNat_newAutoIncId {nanosecond : ℕ} (h : nanosecond < 10 ^ 9) :
    (newAutoIncId nanosecond).value.toBitVec.toNat = nanosecond * 2 ^ 32 := by
  have hs : (Int64.ofNat nanosecond <<< 32).toBitVec =
      (BitVec.ofNat 64 nanosecond) <<< (32 : ℕ) := by
    rw [Int64.toBitVec_shiftLeft, Int64.toBitVec_ofNat']
    rfl
  rw [newAutoIncId, hs, BitVec.toNat_shiftLeft, BitVec.toNat_ofNat, Nat.shiftLeft_eq]
  omega

/-- Two processes that start at different nanoseconds never give out the same id, as long as
neither gives out 2^32 of them. -/
theorem ids_disjoint {x y : ℕ} (hx : x < 10 ^ 9) (hy : y < 10 ^ 9) (hne : x ≠ y)
    (hm : m < 2 ^ 32) (hn : n < 2 ^ 32) :
    ((newAutoIncId x).ids m).Disjoint ((newAutoIncId y).ids n) := by
  intro id hid hid'
  obtain ⟨i, hi, rfl⟩ := List.mem_map.mp hid
  obtain ⟨j, hj, hij⟩ := List.mem_map.mp hid'
  rw [List.mem_range'_1] at hi hj
  have hv := Int64.toInt_inj.mp (Decimal.formatInt_injective hij)
  have hbits := congrArg (fun v => v.toBitVec.toNat) hv
  simp only [toNat_after, toNat_newAutoIncId hx, toNat_newAutoIncId hy] at hbits
  omega

end Gearman.Client
