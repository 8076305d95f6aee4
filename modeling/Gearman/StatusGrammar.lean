import Gearman.ClientPacket

/-!
# The grammar of a STATUS_RES body

`_status` cuts three fields off a body, tests the two flags by their first byte
and parses the rest as numbers. The grammar it accepts is stated apart from it:
four fields, the first three free of NULs, the last two decimal numerals that fit
in 64 bits. `statusChecked` is the same function with every slice and index
expression checked, so that its equality with `_status` says no index is out of
range.
-/

namespace Gearman.Client
open Bytes

theorem le_of_parseLoop {n v : ℕ} {s : Bytes} (h : Decimal.parseLoop n s = some v) : n ≤ v := by
  obtain ⟨-, rfl⟩ := Decimal.parseLoop_eq_some.mp h
  have hp : 1 ≤ 10 ^ s.length := Nat.one_le_pow _ _ (by decide)
  calc n ≤ n * 10 ^ s.length := Nat.le_mul_of_pos_right n hp
    _ ≤ n * 10 ^ s.length + Decimal.value s := Nat.le_add_right _ _

theorem parseUintLoop_ok {n v : ℕ} {s : Bytes} (hn : n < 2 ^ 64) :
    parseUintLoop n s = (v, false) ↔ Decimal.parseLoop n s = some v ∧ v < 2 ^ 64 := by
  induction s generalizing n with
  | nil =>
    simp only [parseUintLoop, Decimal.parseLoop, Prod.mk.injEq, and_true, Option.some.injEq]
    constructor
    · rintro rfl
      exact ⟨rfl, hn⟩
    · exact fun h => h.1
  | cons b s ih =>
    by_cases hb : Decimal.isDigit b = true
    · by_cases hlt : 10 * n + (b.toNat - 48) < 2 ^ 64
      · simp only [parseUintLoop, Decimal.parseLoop, hb, Bool.not_true, Bool.false_eq_true,
          if_false, if_true, if_neg hlt.not_ge]
        exact ih hlt
      · -- the value only grows, so a prefix past the bound cannot come back under it
        simp only [parseUintLoop, Decimal.parseLoop, hb, Bool.not_true, Bool.false_eq_true,
          if_false, if_true, if_pos (not_lt.mp hlt), Prod.mk.injEq, Bool.true_eq_false, and_false,
          false_iff, not_and]
        intro h hv
        exact hlt (lt_of_le_of_lt (le_of_parseLoop h) hv)
    · simp [parseUintLoop, Decimal.parseLoop, hb]

theorem parseUint_ok {s : Bytes} {v : ℕ} :
    parseUint s = (v, false) ↔ Decimal.parseUint s = some v ∧ v < 2 ^ 64 := by
  by_cases hs : s = []
  · simp [parseUint, Decimal.parseUint, hs]
  · simp only [parseUint, Decimal.parseUint, if_neg hs]
    exact parseUintLoop_ok (by decide)

/-- A decimal numeral of 64 bits. -/
structure Numeral (s : Bytes) : Prop where
  nonempty : s ≠ []
  digits : ∀ b ∈ s, Decimal.isDigit b = true
  fits : Decimal.value s < 2 ^ 64

theorem Numeral.parse {s : Bytes} (h : Numeral s) : parseUint s = (Decimal.value s, false) :=
  parseUint_ok.mpr ⟨Decimal.parseUint_eq_some.mpr ⟨h.nonempty, h.digits, rfl⟩, h.fits⟩

theorem numeral_iff {s : Bytes} : Numeral s ↔ (parseUint s).2 = false := by
  constructor
  · intro h
    rw [h.parse]
  · intro h
    obtain ⟨hp, hv⟩ := parseUint_ok.mp (show parseUint s = ((parseUint s).1, false) by rw [← h])
    obtain ⟨hne, hd, he⟩ := Decimal.parseUint_eq_some.mp hp
    exact ⟨hne, hd, he ▸ hv⟩

theorem numeral_formatUint (n : UInt64) : Numeral (Decimal.formatUint n.toNat) :=
  numeral_iff.mpr (by
    rw [parseUint_ok.mpr ⟨Decimal.parseUint_formatUint n.toNat, n.toNat_lt⟩])

theorem value_formatUint (n : ℕ) : Decimal.value (Decimal.formatUint n) = n :=
  (Decimal.parseUint_eq_some.mp (Decimal.parseUint_formatUint n)).2.2.symm

theorem numeral_formatInt {n : ℤ} (h : n < 2 ^ 64) : Numeral (Decimal.formatInt n) ↔ 0 ≤ n := by
  constructor
  · intro hn
    have hp := (parseUint_ok.mp hn.parse).1
    rw [Decimal.parseUint_formatInt] at hp
    split_ifs at hp with hneg
    exact not_lt.mp hneg
  · intro hn
    have hp : parseUint (Decimal.formatInt n) = (n.natAbs, false) :=
      parseUint_ok.mpr ⟨by rw [Decimal.parseUint_formatInt, if_neg hn.not_gt], by omega⟩
    exact numeral_iff.mpr (by rw [hp])

theorem value_formatInt {n : ℤ} (h : 0 ≤ n) : (Decimal.value (Decimal.formatInt n) : ℤ) = n := by
  rw [Decimal.formatInt, if_neg h.not_gt, value_formatUint]
  exact Int.natAbs_of_nonneg h

theorem Status.parseNumbers_ok (status : Status) {n d : Bytes} (hn : Numeral n) (hd : Numeral d) :
    status.parseNumbers n d = (some { status with
      numerator := Decimal.value n
      denominator := Decimal.value d }, none) := by
  simp only [parseNumbers, hn.parse, hd.parse, Bool.false_eq_true, if_false]

theorem Status.parseNumbers_iff (status : Status) (n d : Bytes) :
    (status.parseNumbers n d).2 = none ↔ Numeral n ∧ Numeral d := by
  rw [numeral_iff, numeral_iff]
  cases hn : (parseUint n).2 <;> cases hd : (parseUint d).2 <;> simp [parseNumbers, hn, hd]

theorem cutFields_of_notMem {b : Bytes} (h : (0 : UInt8) ∉ b) (n : ℕ) :
    cutFields (n + 1) b = none := by
  simp [cutFields, (indexByte_eq_none b).mpr h]

theorem cutFields_append {a : Bytes} (h : (0 : UInt8) ∉ a) (n : ℕ) (r : Bytes) :
    cutFields (n + 1) (a ++ 0 :: r) = (cutFields n r).map (fun q => (a :: q.1, q.2)) := by
  simp only [cutFields, indexByte_append a r h, Option.bind_eq_bind, Option.bind_some, drop_after,
    List.take_left]
  cases cutFields n r with
  | none => rfl
  | some q => rfl

def cutChecked : ℕ → Bytes → Option (Option (List Bytes × Bytes))
  | 0, rest => some (some ([], rest))
  | n + 1, rest =>
    match indexByte 0 rest with
    | none => some none
    | some j => do
      let field ← slice rest 0 j
      let rest ← slice rest (j + 1) rest.length
      let cut ← cutChecked n rest
      return cut.map (fun q => (field :: q.1, q.2))

/-- `_status` with every slice and index expression checked. -/
def Response.statusChecked (resp : Response) : Option (Option Status × Option Err) := do
  let data := resp.data.getD []
  match ← cutChecked 3 data with
  | none => return (none, some (invalidData data))
  | some (f, rest) =>
    let f₀ ← f[0]?
    let f₁ ← f[1]?
    let f₂ ← f[2]?
    if f₀.length = 0 ∨ f₁.length = 0 then return (none, some (invalidData data))
    else
      let known : UInt8 ← f₀[0]?
      let running : UInt8 ← f₁[0]?
      let status : Status :=
        { handle := resp.handle, known := known = 49, running := running = 49, numerator := 0,
          denominator := 0 }
      return status.parseNumbers f₂ rest

theorem cutChecked_eq (n : ℕ) (rest : Bytes) : cutChecked n rest = some (cutFields n rest) := by
  induction n generalizing rest with
  | zero => rfl
  | succ n ih =>
    rcases split_cases 0 rest with h | ⟨a, r, rfl, ha⟩
    · rw [cutFields_of_notMem h]
      simp only [cutChecked, (indexByte_eq_none rest).mpr h]
    · have hf : slice (a ++ 0 :: r) 0 a.length = some a := slice_front _ _ rfl
      have hr : slice (a ++ 0 :: r) (a.length + 1) (a ++ 0 :: r).length = some r :=
        slice_after _ _ _ rfl rfl
      rw [cutFields_append ha]
      simp only [cutChecked, indexByte_append a r ha, hf, hr, ih r, Option.bind_eq_bind,
        Option.bind_some, Option.pure_def]

/-- Three fields and the rest, as `_status` cuts them. -/
structure Cut (data k r n d : Bytes) : Prop where
  eq : data = k ++ 0 :: (r ++ 0 :: (n ++ 0 :: d))
  known : (0 : UInt8) ∉ k
  running : (0 : UInt8) ∉ r
  numerator : (0 : UInt8) ∉ n

theorem Cut.fields {data k r n d : Bytes} (h : Cut data k r n d) :
    cutFields 3 data = some ([k, r, n], d) := by
  rw [h.eq, cutFields_append h.known, cutFields_append h.running, cutFields_append h.numerator]
  rfl

theorem Cut.unique {data k r n d k' r' n' d' : Bytes} (h : Cut data k r n d)
    (h' : Cut data k' r' n' d') : k = k' ∧ r = r' ∧ n = n' ∧ d = d' := by
  have hf := h.fields.symm.trans h'.fields
  simpa [and_assoc] using hf

theorem cut_or_none (data : Bytes) :
    (∃ k r n d, Cut data k r n d) ∨ cutFields 3 data = none := by
  rcases split_cases 0 data with h | ⟨k, data, rfl, hk⟩
  · exact Or.inr (cutFields_of_notMem h 2)
  rcases split_cases 0 data with h | ⟨r, data, rfl, hr⟩
  · right
    rw [cutFields_append hk, cutFields_of_notMem h, Option.map_none]
  rcases split_cases 0 data with h | ⟨n, d, rfl, hn⟩
  · right
    rw [cutFields_append hk, cutFields_append hr, cutFields_of_notMem h, Option.map_none,
      Option.map_none]
  · exact Or.inl ⟨k, r, n, d, rfl, hk, hr, hn⟩

theorem Response._status_none {resp : Response} (h : cutFields 3 (resp.data.getD []) = none) :
    resp._status = (none, some (invalidData (resp.data.getD []))) := by
  simp only [_status, h]

theorem Response._status_cut {resp : Response} {k r n d : Bytes}
    (h : Cut (resp.data.getD []) k r n d) :
    resp._status =
      if k = [] ∨ r = [] then (none, some (invalidData (resp.data.getD [])))
      else Status.parseNumbers
        { handle := resp.handle, known := k.head? = some 49, running := r.head? = some 49,
          numerator := 0, denominator := 0 } n d := by
  cases k with
  | nil => simp [_status, h.fields]
  | cons kb k =>
    cases r with
    | nil => simp [_status, h.fields]
    | cons rb r => simp [_status, h.fields, Status.parseNumbers]

theorem Response.statusChecked_eq (resp : Response) : resp.statusChecked = some resp._status := by
  rcases cut_or_none (resp.data.getD []) with ⟨k, r, n, d, h⟩ | h
  · rw [_status_cut h]
    cases k with
    | nil => simp [statusChecked, cutChecked_eq, h.fields]
    | cons kb k =>
      cases r with
      | nil => simp [statusChecked, cutChecked_eq, h.fields]
      | cons rb r => simp [statusChecked, cutChecked_eq, h.fields]
  · rw [_status_none h]
    simp [statusChecked, cutChecked_eq, h]

/-- The text of a STATUS_RES body after the handle: two flags and two numerals. -/
structure StatusText (data k r n d : Bytes) : Prop extends Cut data k r n d where
  flags : k ≠ [] ∧ r ≠ []
  numerals : Numeral n ∧ Numeral d

def printFlag (b : Bool) : Bytes := if b then [49] else [48]

/-- What a job server prints for a job it knows or not. -/
def printStatus (known running : Bool) (num den : UInt64) : Bytes :=
  printFlag known ++ 0 :: (printFlag running ++ 0 ::
    (Decimal.formatUint num.toNat ++ 0 :: Decimal.formatUint den.toNat))

theorem printStatus_text (known running : Bool) (num den : UInt64) :
    StatusText (printStatus known running num den) (printFlag known) (printFlag running)
      (Decimal.formatUint num.toNat) (Decimal.formatUint den.toNat) where
  eq := rfl
  known := by cases known <;> decide
  running := by cases running <;> decide
  numerator := fun h => absurd (Decimal.isDigit_formatUint h) (by decide)
  flags := by cases known <;> cases running <;> decide
  numerals := ⟨numeral_formatUint num, numeral_formatUint den⟩

theorem StatusText.parse (resp : Response) {k r n d : Bytes}
    (h : StatusText (resp.data.getD []) k r n d) :
    resp._status = (some { handle := resp.handle, known := k.head? = some 49,
                           running := r.head? = some 49, numerator := Decimal.value n,
                           denominator := Decimal.value d }, none) := by
  rw [Response._status_cut h.toCut, if_neg (not_or.mpr h.flags),
    Status.parseNumbers_ok _ h.numerals.1 h.numerals.2]

theorem status_accepts_grammar (resp : Response) :
    resp.statusChecked = some resp._status ∧
    (resp._status.2 = none ↔ ∃ k r n d, StatusText (resp.data.getD []) k r n d) ∧
    (∀ k r n d, StatusText (resp.data.getD []) k r n d →
      resp._status = (some { handle := resp.handle, known := k.head? = some 49,
                             running := r.head? = some 49, numerator := Decimal.value n,
                             denominator := Decimal.value d }, none)) ∧
    ∀ known running num den,
      Response._status { resp with data := some (printStatus known running num den) } =
        (some { handle := resp.handle, known, running, numerator := num.toNat,
                denominator := den.toNat }, none) := by
  refine ⟨resp.statusChecked_eq, ⟨?_, ?_⟩, fun k r n d h => h.parse resp, ?_⟩
  · intro hok
    rcases cut_or_none (resp.data.getD []) with ⟨k, r, n, d, h⟩ | h
    · rw [Response._status_cut h] at hok
      split_ifs at hok with he
      exact ⟨k, r, n, d, h, not_or.mp he, (Status.parseNumbers_iff _ n d).mp hok⟩
    · rw [Response._status_none h] at hok
      cases hok
  · rintro ⟨k, r, n, d, h⟩
    rw [h.parse resp]
  · intro known running num den
    have h := StatusText.parse { resp with data := some (printStatus known running num den) }
      (printStatus_text known running num den)
    rw [h, value_formatUint, value_formatUint]
    cases known <;> cases running <;> rfl

end Gearman.Client
