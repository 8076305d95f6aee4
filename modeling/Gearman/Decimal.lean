import Gearman.Bytes

/-!
# Decimal text of integers

`formatUint` writes the digits from the last one backwards, as an integer printer
does, and `formatInt` puts a minus sign in front of a negative number; `parseUint`
accepts a non-empty string of ASCII digits of any length and returns the number
they denote.
-/

namespace Gearman.Decimal

def digit (n : ℕ) : UInt8 := UInt8.ofNat (48 + n % 10)

def formatLoop : ℕ → ℕ → Bytes → Bytes
  | 0, _, out => out
  | fuel + 1, n, out =>
    if n < 10 then digit n :: out else formatLoop fuel (n / 10) (digit n :: out)

def formatUint (n : ℕ) : Bytes := formatLoop (n + 1) n []

def formatInt (n : ℤ) : Bytes :=
  if n < 0 then 45 :: formatUint n.natAbs else formatUint n.natAbs

def isDigit (b : UInt8) : Bool := 48 ≤ b.toNat && b.toNat ≤ 57

def parseLoop : ℕ → Bytes → Option ℕ
  | n, [] => some n
  | n, b :: bs => if isDigit b then parseLoop (10 * n + (b.toNat - 48)) bs else none

def parseUint (s : Bytes) : Option ℕ := if s = [] then none else parseLoop 0 s

theorem digit_toNat (n : ℕ) : (digit n).toNat = 48 + n % 10 := by
  rw [digit, UInt8.toNat_ofNat']
  omega

theorem digit_isDigit (n : ℕ) : isDigit (digit n) = true := by
  have h := Nat.mod_lt n (show 10 > 0 by decide)
  rw [isDigit, digit_toNat]
  simp only [Bool.and_eq_true, decide_eq_true_eq]
  omega

theorem parseLoop_formatLoop (fuel n : ℕ) (out : Bytes) (hf : n < fuel) :
    parseLoop 0 (formatLoop fuel n out) = parseLoop n out := by
  induction fuel generalizing n out with
  | zero => omega
  | succ fuel ih =>
    simp only [formatLoop]
    split_ifs with h
    · have hd : 10 * 0 + ((digit n).toNat - 48) = n := by
        rw [digit_toNat]
        omega
      simp only [parseLoop, digit_isDigit, if_true, hd]
    · have hd : 10 * (n / 10) + ((digit n).toNat - 48) = n := by
        rw [digit_toNat]
        omega
      rw [ih (n / 10) (digit n :: out) (by omega)]
      simp only [parseLoop, digit_isDigit, if_true, hd]

theorem formatLoop_ne_nil (fuel n : ℕ) (out : Bytes) : formatLoop (fuel + 1) n out ≠ [] := by
  induction fuel generalizing n out with
  | zero =>
    simp only [formatLoop]
    split_ifs <;> simp
  | succ fuel ih =>
    rw [formatLoop]
    split_ifs
    · simp
    · exact ih _ _

theorem formatLoop_length_le (fuel : ℕ) {k n : ℕ} (out : Bytes) (h : n < 10 ^ (k + 1)) :
    (formatLoop fuel n out).length ≤ out.length + (k + 1) := by
  induction fuel generalizing k n out with
  | zero => exact Nat.le_add_right _ _
  | succ fuel ih =>
    simp only [formatLoop]
    split_ifs with hn
    · simp
    · cases k with
      | zero => omega
      | succ k =>
        have hk : n / 10 < 10 ^ (k + 1) := Nat.div_lt_of_lt_mul (by rwa [← pow_succ'])
        have := ih (digit n :: out) hk
        rw [List.length_cons] at this
        omega

theorem parseUint_formatUint (n : ℕ) : parseUint (formatUint n) = some n := by
  have hne : formatUint n ≠ [] := formatLoop_ne_nil n n []
  have hloop : parseLoop 0 (formatUint n) = parseLoop n [] :=
    parseLoop_formatLoop _ _ _ (Nat.lt_succ_self n)
  rw [parseUint, if_neg hne, hloop, parseLoop]

theorem parseLoop_eq_none {s : Bytes} {b : UInt8} (hb : b ∈ s) (hd : isDigit b = false) (n : ℕ) :
    parseLoop n s = none := by
  induction s generalizing n with
  | nil => cases hb
  | cons x s ih =>
    simp only [parseLoop]
    split_ifs with hx
    · rcases List.mem_cons.mp hb with rfl | hb
      · simp [hd] at hx
      · exact ih hb _
    · rfl

theorem parseUint_eq_none {s : Bytes} {b : UInt8} (hb : b ∈ s) (hd : isDigit b = false) :
    parseUint s = none := by
  rw [parseUint, if_neg (List.ne_nil_of_mem hb)]
  exact parseLoop_eq_none hb hd 0

/-- The number a string of digits denotes. -/
def value (s : Bytes) : ℕ := Nat.ofDigits 10 (s.map fun b => b.toNat - 48).reverse

@[simp] theorem value_nil : value [] = 0 := rfl

theorem value_cons (b : UInt8) (s : Bytes) :
    value (b :: s) = value s + 10 ^ s.length * (b.toNat - 48) := by
  simp [value, Nat.ofDigits_append]

theorem parseLoop_eq_some {s : Bytes} {n v : ℕ} :
    parseLoop n s = some v ↔ (∀ b ∈ s, isDigit b = true) ∧ v = n * 10 ^ s.length + value s := by
  induction s generalizing n with
  | nil => exact ⟨fun h => ⟨by simp, by simpa [parseLoop] using h.symm⟩,
      fun h => by simp [parseLoop, h.2]⟩
  | cons b s ih =>
    by_cases hb : isDigit b = true
    · have hv : (10 * n + (b.toNat - 48)) * 10 ^ s.length + value s =
          n * 10 ^ (s.length + 1) + value (b :: s) := by
        rw [value_cons, pow_succ]
        ring
      simp only [parseLoop, hb, if_true, ih, List.forall_mem_cons, true_and, hv, List.length_cons]
    · simp only [parseLoop, if_false, List.forall_mem_cons, hb, false_and, reduceCtorEq]

theorem parseUint_eq_some {s : Bytes} {v : ℕ} :
    parseUint s = some v ↔ s ≠ [] ∧ (∀ b ∈ s, isDigit b = true) ∧ v = value s := by
  by_cases hs : s = []
  · simp [parseUint, hs]
  · simp [parseUint, hs, parseLoop_eq_some]

theorem isDigit_formatUint {n : ℕ} {b : UInt8} (hb : b ∈ formatUint n) : isDigit b = true :=
  (parseUint_eq_some.mp (parseUint_formatUint n)).2.1 b hb

theorem zero_notMem_formatInt (n : ℤ) : (0 : UInt8) ∉ formatInt n := by
  have hu : (0 : UInt8) ∉ formatUint n.natAbs := fun h => absurd (isDigit_formatUint h) (by decide)
  unfold formatInt
  split_ifs
  · simp [hu]
  · exact hu

theorem formatInt_length_le {k : ℕ} {n : ℤ} (h : n.natAbs < 10 ^ (k + 1)) :
    (formatInt n).length ≤ k + 2 := by
  have hu : (formatUint n.natAbs).length ≤ k + 1 := by
    simpa [formatUint] using formatLoop_length_le (n.natAbs + 1) [] h
  unfold formatInt
  split_ifs
  · simp only [List.length_cons]
    omega
  · omega

theorem parseUint_formatInt (n : ℤ) :
    parseUint (formatInt n) = if n < 0 then none else some n.natAbs := by
  unfold formatInt
  split_ifs
  · exact parseUint_eq_none (b := 45) (by simp) (by decide)
  · exact parseUint_formatUint n.natAbs

end Gearman.Decimal
