import Gearman.Custody

/-!
# A pool of slices over shared arrays

A slice is a header that shows the front of an array. The pool keeps pointers to headers;
a process takes one of them or gets a new one, fills the array behind it, or a larger
array if that has no room, and puts the pointer back. The arrays are in one memory, so
whoever had a pointer twice would write into what another process shows.

`Sound` says that this cannot happen: what two processes show lies in different arrays,
and so does what the pool holds.
-/

namespace Gearman.SlicePool
open Custody Transition
variable {ι α : Type*}

structure Header where
  addr : ℕ
  len : ℕ
deriving DecidableEq, Repr

/-- `cells` is what the pointers point to, `lent` the pointer a process has taken and `shown` the
header of what it has filled. -/
structure Store (ι α : Type*) where
  arrays : ℕ → List α := fun _ => []
  narray : ℕ := 0
  cells : ℕ → Header := fun _ => ⟨0, 0⟩
  made : ℕ := 0
  free : List ℕ := []
  lent : ι → Option ℕ := fun _ => none
  shown : ι → Option Header := fun _ => none

namespace Store

def view (x : Store ι α) (h : Header) : List α := (x.arrays h.addr).take h.len

def rest (x : Store ι α) (h : Header) : List α := (x.arrays h.addr).drop h.len

def cap (x : Store ι α) (p : ℕ) : ℕ := (x.arrays (x.cells p).addr).length

variable [DecidableEq ι]

def make (blank : List α) (x : Store ι α) : Store ι α :=
  { x with
    arrays := Function.update x.arrays x.narray blank
    narray := x.narray + 1
    cells := Function.update x.cells x.made ⟨x.narray, 0⟩
    made := x.made + 1
    free := x.made :: x.free }

def lend (x : Store ι α) (i : ι) (n p : ℕ) : Store ι α :=
  { x with
    free := x.free.eraseIdx n
    lent := Function.update x.lent i (some p) }

/-- Process `i` gets the `n`-th pointer of the pool, or a new one if there is none. -/
def get (blank : List α) (x : Store ι α) (i : ι) (n : ℕ) : Store ι α :=
  match x.free[n]? with
  | some p => x.lend i n p
  | none => (x.make blank).lend i 0 x.made

/-- Process `i`, which has taken `p`, makes `whole` of the array `addr` and shows the first `len` of
it. The pointer keeps the array if it is within the `limit`. -/
def fill (limit : ℕ) (x : Store ι α) (i : ι) (p addr : ℕ) (whole : List α) (len : ℕ) :
    Store ι α :=
  { x with
    arrays := Function.update x.arrays addr whole
    narray := max x.narray (addr + 1)
    cells := if whole.length ≤ limit then Function.update x.cells p ⟨addr, len⟩ else x.cells
    shown := Function.update x.shown i (some ⟨addr, len⟩) }

def put (x : Store ι α) (i : ι) (p : ℕ) : Store ι α :=
  { x with
    free := p :: x.free
    lent := Function.update x.lent i none
    shown := Function.update x.shown i none }

end Store

/-- Every pointer is in one place, and every array behind one pointer or one process. -/
structure Sound (limit : ℕ) (x : Store ι α) : Prop where
  nodup : x.free.Nodup
  apart : ∀ i p, x.lent i = some p → p ∉ x.free
  sole : Exclusive id x.lent
  freed : ∀ p ∈ x.free, p < x.made
  taken : ∀ i p, x.lent i = some p → p < x.made
  cells : ∀ p q, p < x.made → q < x.made → (x.cells p).addr = (x.cells q).addr → p = q
  known : ∀ p, p < x.made → (x.cells p).addr < x.narray
  bounded : ∀ p, p < x.made → x.cap p ≤ limit
  shown : ∀ i h, x.shown i = some h → h.addr < x.narray ∧ ∃ p, x.lent i = some p ∧
    ((x.cells p).addr = h.addr ∨ ∀ q, q < x.made → (x.cells q).addr ≠ h.addr)
  own : Exclusive Header.addr x.shown

theorem sound_start (limit : ℕ) : Sound limit ({} : Store ι α) where
  nodup := List.nodup_nil
  apart := by
    intro i p h
    cases h
  sole := by
    intro i j p q h
    cases h
  freed := by
    intro p h
    cases h
  taken := by
    intro i p h
    cases h
  cells := by
    intro p q h
    cases h
  known := by
    intro p h
    cases h
  bounded := by
    intro p h
    cases h
  shown := by
    intro i h hs
    cases hs
  own := by
    intro i j h h' hs
    cases hs

variable {limit : ℕ} {x : Store ι α} {i j : ι} {n p addr : ℕ} {whole : List α} {h : Header}

theorem Sound.lend [DecidableEq ι] (hs : Sound limit x) (hp : x.free[n]? = some p)
    (hi : x.shown i = none) : Sound limit (x.lend i n p) := by
  have hmem : p ∈ x.free := List.mem_of_getElem? hp
  have hgone : p ∉ x.free.eraseIdx n := by
    obtain ⟨hn, rfl⟩ := List.getElem?_eq_some_iff.mp hp
    rw [← hs.nodup.erase_getElem]
    exact List.Nodup.not_mem_erase hs.nodup
  refine ⟨hs.nodup.eraseIdx n, ?_, ?_, ?_, ?_, hs.cells, hs.known, hs.bounded, ?_, hs.own⟩
  · intro j q hj hq
    rcases update_eq_some hj with ⟨-, rfl⟩ | ⟨-, hold⟩
    · exact hgone hq
    · exact hs.apart j q hold (List.mem_of_mem_eraseIdx hq)
  · refine hs.sole.take ?_
    rintro j q hj rfl
    exact hs.apart j _ hj hmem
  · intro q hq
    exact hs.freed q (List.mem_of_mem_eraseIdx hq)
  · intro j q hj
    rcases update_eq_some hj with ⟨-, rfl⟩ | ⟨-, hold⟩
    · exact hs.freed _ hmem
    · exact hs.taken j q hold
  · intro j h hj
    have hne : j ≠ i := by
      rintro rfl
      exact absurd (hi.symm.trans hj) (by simp)
    obtain ⟨hlt, q, hq, harr⟩ := hs.shown j h hj
    exact ⟨hlt, q, (Function.update_of_ne hne ..).trans hq, harr⟩

theorem Sound.make (hs : Sound limit x) {blank : List α} (hb : blank.length ≤ limit) :
    Sound limit (x.make blank) := by
  have hcell : ∀ q, q < x.made → (x.make blank).cells q = x.cells q :=
    fun q hq => Function.update_of_ne hq.ne _ _
  have hnew : (x.make blank).cells x.made = ⟨x.narray, 0⟩ := Function.update_self ..
  have hblank : (x.make blank).arrays x.narray = blank := Function.update_self ..
  have hsplit : ∀ q, q < (x.make blank).made → q < x.made ∨ q = x.made := by
    intro q hq
    simp only [Store.make] at hq
    omega
  have hsucc : ∀ {q m : ℕ}, q < m → q < m + 1 := fun h => Nat.lt_succ_of_lt h
  refine ⟨?_, ?_, hs.sole, ?_, fun j q hj => hsucc (hs.taken j q hj), ?_, ?_, ?_, ?_, hs.own⟩
  · exact List.nodup_cons.mpr ⟨fun h => lt_irrefl _ (hs.freed _ h), hs.nodup⟩
  · intro j q hj hq
    rcases List.mem_cons.mp hq with rfl | hq
    · exact lt_irrefl _ (hs.taken j _ hj)
    · exact hs.apart j q hj hq
  · intro q hq
    rcases List.mem_cons.mp hq with rfl | hq
    · exact Nat.lt_succ_self _
    · exact hsucc (hs.freed q hq)
  · intro q r hq hr heq
    rcases hsplit q hq with hq | rfl
    · rcases hsplit r hr with hr | rfl
      · rw [hcell q hq, hcell r hr] at heq
        exact hs.cells q r hq hr heq
      · rw [hcell q hq, hnew] at heq
        exact absurd heq (hs.known q hq).ne
    · rcases hsplit r hr with hr | rfl
      · rw [hcell r hr, hnew] at heq
        exact absurd heq.symm (hs.known r hr).ne
      · rfl
  · intro q hq
    rcases hsplit q hq with hq | rfl
    · rw [hcell q hq]
      exact hsucc (hs.known q hq)
    · rw [hnew]
      exact Nat.lt_succ_self _
  · intro q hq
    rcases hsplit q hq with hq | rfl
    · rw [Store.cap, hcell q hq]
      have hold := Function.update_of_ne (hs.known q hq).ne blank x.arrays
      exact (congrArg List.length hold).trans_le (hs.bounded q hq)
    · rw [Store.cap, hnew, hblank]
      exact hb
  · intro j h hj
    obtain ⟨hlt, q, hq, harr⟩ := hs.shown j h hj
    refine ⟨hsucc hlt, q, hq, harr.imp ?_ ?_⟩
    · intro harr
      rwa [hcell q (hs.taken j q hq)]
    · intro harr r hr
      rcases hsplit r hr with hr | rfl
      · rw [hcell r hr]
        exact harr r hr
      · rw [hnew]
        exact hlt.ne'

theorem Sound.get [DecidableEq ι] (hs : Sound limit x) {blank : List α} (hb : blank.length ≤ limit)
    (hi : x.shown i = none) (n : ℕ) : Sound limit (x.get blank i n) := by
  unfold Store.get
  split
  next p hp => exact hs.lend hp hi
  next => exact (hs.make hb).lend rfl hi

structure Room (x : Store ι α) (i : ι) (p addr : ℕ) (whole : List α) : Prop where
  taken : x.lent i = some p
  idle : x.shown i = none
  addr : addr = (x.cells p).addr ∧ whole.length = x.cap p ∨ addr = x.narray

theorem Sound.cell_ne (hs : Sound limit x) (hr : Room x i p addr whole) {q : ℕ} (hq : q < x.made)
    (hne : q ≠ p) : (x.cells q).addr ≠ addr := by
  rcases hr.addr with ⟨rfl, -⟩ | rfl
  · exact fun heq => hne (hs.cells q p hq (hs.taken i p hr.taken) heq)
  · exact (hs.known q hq).ne

theorem Sound.shown_ne (hs : Sound limit x) (hr : Room x i p addr whole) (hj : x.shown j = some h)
    (hne : j ≠ i) : h.addr ≠ addr := by
  obtain ⟨hlt, q, hq, harr⟩ := hs.shown j h hj
  rcases harr with harr | harr
  · have hqp : q ≠ p := by
      rintro rfl
      exact hne (hs.sole j i q q hq hr.taken rfl)
    rw [← harr]
    exact hs.cell_ne hr (hs.taken j q hq) hqp
  · rcases hr.addr with ⟨rfl, -⟩ | rfl
    · exact (harr p (hs.taken i p hr.taken)).symm
    · exact hlt.ne

variable [DecidableEq ι]

theorem Sound.cells_fill (hs : Sound limit x) (hr : Room x i p addr whole) (len q : ℕ) :
    (x.fill limit i p addr whole len).cells q = x.cells q ∧ (q = p → addr = x.narray) ∨
      q = p ∧ (x.fill limit i p addr whole len).cells q = ⟨addr, len⟩ ∧ whole.length ≤ limit := by
  by_cases hle : whole.length ≤ limit
  · by_cases hq : q = p
    · exact Or.inr ⟨hq, by simp [Store.fill, hle, hq], hle⟩
    · exact Or.inl ⟨by simp [Store.fill, hle, hq], fun h => absurd h hq⟩
  · -- What is too large to keep cannot be the array behind the pointer, which was kept.
    refine Or.inl ⟨by simp [Store.fill, hle], fun _ => hr.addr.resolve_left ?_⟩
    rintro ⟨-, hcap⟩
    exact hle (hcap.trans_le (hs.bounded p (hs.taken i p hr.taken)))

theorem Sound.fill (hs : Sound limit x) (hr : Room x i p addr whole) (len : ℕ) :
    Sound limit (x.fill limit i p addr whole len) := by
  have hpm := hs.taken i p hr.taken
  have hgrow : x.narray ≤ (x.fill limit i p addr whole len).narray := le_max_left _ _
  have haddr : addr < (x.fill limit i p addr whole len).narray :=
    Nat.lt_of_succ_le (le_max_right _ _)
  -- Nobody else has the array that is filled: it is the one behind `p`, or a new one.
  have hne : ∀ q, q < x.made → (q = p → addr = x.narray) → (x.cells q).addr ≠ addr := by
    intro q hq hp
    by_cases hqp : q = p
    · rw [hp hqp]
      exact (hs.known q hq).ne
    · exact hs.cell_ne hr hq hqp
  refine ⟨hs.nodup, hs.apart, hs.sole, hs.freed, hs.taken, ?_, ?_, ?_, ?_, ?_⟩
  · intro q r hq hr' heq
    rcases hs.cells_fill hr len q with ⟨hcq, hq'⟩ | ⟨rfl, hcq, -⟩
    · rcases hs.cells_fill hr len r with ⟨hcr, -⟩ | ⟨rfl, hcr, -⟩
      · rw [hcq, hcr] at heq
        exact hs.cells q r hq hr' heq
      · rw [hcq, hcr] at heq
        exact absurd heq (hne q hq hq')
    · rcases hs.cells_fill hr len r with ⟨hcr, hr''⟩ | ⟨rfl, -, -⟩
      · rw [hcq, hcr] at heq
        exact absurd heq.symm (hne r hr' hr'')
      · rfl
  · intro q hq
    rcases hs.cells_fill hr len q with ⟨hcq, -⟩ | ⟨-, hcq, -⟩
    · rw [hcq]
      exact (hs.known q hq).trans_le hgrow
    · rw [hcq]
      exact haddr
  · intro q hq
    rcases hs.cells_fill hr len q with ⟨hcq, hq'⟩ | ⟨-, hcq, hle⟩
    · rw [Store.cap, hcq]
      have hold := Function.update_of_ne (hne q hq hq') whole x.arrays
      exact (congrArg List.length hold).trans_le (hs.bounded q hq)
    · rw [Store.cap, hcq]
      have hnew := Function.update_self addr whole x.arrays
      exact (congrArg List.length hnew).trans_le hle
  · intro j h hj
    rcases update_eq_some hj with ⟨rfl, rfl⟩ | ⟨hji, hold⟩
    · refine ⟨haddr, p, hr.taken, ?_⟩
      rcases hs.cells_fill hr len p with ⟨hcp, hp'⟩ | ⟨-, hcp, -⟩
      · refine Or.inr ?_
        intro q hq
        by_cases hqp : q = p
        · rw [hqp, hcp]
          exact hne p hpm hp'
        · rcases hs.cells_fill hr len q with ⟨hcq, hq'⟩ | ⟨rfl, -, -⟩
          · rw [hcq]
            exact hne q hq hq'
          · exact absurd rfl hqp
      · exact Or.inl (by rw [hcp])
    · obtain ⟨hlt, q, hq, harr⟩ := hs.shown j h hold
      have hqp : q ≠ p := by
        rintro rfl
        exact hji (hs.sole j i q q hq hr.taken rfl)
      refine ⟨hlt.trans_le hgrow, q, hq, harr.imp ?_ ?_⟩
      · intro harr
        rcases hs.cells_fill hr len q with ⟨hcq, -⟩ | ⟨rfl, -, -⟩
        · rw [hcq]
          exact harr
        · exact absurd rfl hqp
      · intro harr r hr'
        rcases hs.cells_fill hr len r with ⟨hcr, -⟩ | ⟨-, hcr, -⟩
        · rw [hcr]
          exact harr r hr'
        · rw [hcr]
          exact (hs.shown_ne hr hold hji).symm
  · refine hs.own.take ?_
    intro j h hj
    have hji : j ≠ i := by
      rintro rfl
      exact absurd (hr.idle.symm.trans hj) (by simp)
    exact hs.shown_ne hr hj hji

theorem view_fill (x : Store ι α) (limit : ℕ) (i : ι) (p addr : ℕ) (whole : List α) (len : ℕ) :
    (x.fill limit i p addr whole len).view ⟨addr, len⟩ = whole.take len :=
  congrArg (List.take len) (Function.update_self ..)

theorem Sound.view_fill_of_ne (hs : Sound limit x) (hr : Room x i p addr whole)
    (hj : x.shown j = some h) (hne : j ≠ i) (len : ℕ) :
    (x.fill limit i p addr whole len).view h = x.view h :=
  congrArg (List.take h.len) (Function.update_of_ne (hs.shown_ne hr hj hne) ..)

theorem Sound.view_get (hs : Sound limit x) (hj : x.shown j = some h) (blank : List α) (i : ι)
    (n : ℕ) : (x.get blank i n).view h = x.view h := by
  unfold Store.get
  split
  · rfl
  · exact congrArg (List.take h.len) (Function.update_of_ne (hs.shown j h hj).1.ne ..)

theorem get_lent (x : Store ι α) (blank : List α) (i : ι) (n : ℕ) :
    ∃ p, (x.get blank i n).lent = Function.update x.lent i (some p) := by
  unfold Store.get
  split
  next p _ => exact ⟨p, rfl⟩
  next => exact ⟨x.made, rfl⟩

theorem get_shown (x : Store ι α) (blank : List α) (i : ι) (n : ℕ) :
    (x.get blank i n).shown = x.shown := by
  unfold Store.get
  split <;> rfl

theorem Sound.put (hs : Sound limit x) (hp : x.lent i = some p) : Sound limit (x.put i p) := by
  refine ⟨List.nodup_cons.mpr ⟨hs.apart i p hp, hs.nodup⟩, ?_, hs.sole.drop i, ?_, ?_, hs.cells,
    hs.known, hs.bounded, ?_, hs.own.drop i⟩
  · intro j q hj hq
    obtain ⟨hne, hold⟩ := update_none_eq_some hj
    rcases List.mem_cons.mp hq with rfl | hq
    · exact hne (hs.sole j i q q hold hp rfl)
    · exact hs.apart j q hold hq
  · intro q hq
    rcases List.mem_cons.mp hq with rfl | hq
    · exact hs.taken i q hp
    · exact hs.freed q hq
  · intro j q hj
    exact hs.taken j q (update_none_eq_some hj).2
  · intro j h hj
    obtain ⟨hne, hold⟩ := update_none_eq_some hj
    obtain ⟨hlt, q, hq, harr⟩ := hs.shown j h hold
    exact ⟨hlt, q, by simpa [Store.put, Function.update_of_ne hne] using hq, harr⟩

end Gearman.SlicePool
