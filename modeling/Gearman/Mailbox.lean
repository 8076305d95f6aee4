import Gearman.Custody

/-!
# A queue of numbered messages and its consumers

Messages are numbered in the order in which they enter. A consumer takes the oldest one
that waits, has it in hand for a while, and handles it. Whatever the consumers do, each
message that has been taken is in one hand or has been handled once, and a consumer
handles its messages in the order in which they have entered.
-/

namespace Gearman.Mailbox
open Transition Custody
variable {ι α : Type*}

structure Receipt (ι α : Type*) where
  consumer : ι
  number : ℕ
  message : α

structure Box (ι α : Type*) where
  entered : List α := []
  taken : ℕ := 0
  hand : ι → Option ℕ := fun _ => none
  handled : List (Receipt ι α) := []

inductive Event (ι α : Type*)
  | send (a : α)
  | take (i : ι)
  | handle (i : ι) (a : α)

def Box.waiting (b : Box ι α) : List α := b.entered.drop b.taken

/-- What is waiting, with the numbers. -/
def Box.numbered (b : Box ι α) : List (α × ℕ) := b.waiting.zipIdx b.taken

structure Accounted (b : Box ι α) : Prop where
  taken : b.taken ≤ b.entered.length
  hand : ∀ i n, b.hand i = some n → n < b.taken
  exclusive : Exclusive id b.hand
  handled : ∀ r ∈ b.handled, r.number < b.taken ∧ b.entered[r.number]? = some r.message
  apart : ∀ i n, b.hand i = some n → ∀ r ∈ b.handled, r.number ≠ n
  once : b.handled.Pairwise (fun r r' => r.number ≠ r'.number)
  found : ∀ n < b.taken, (∃ r ∈ b.handled, r.number = n) ∨ ∃ i, b.hand i = some n
  order : b.handled.Pairwise (fun r r' => r.consumer = r'.consumer → r.number < r'.number)
  later : ∀ i n, b.hand i = some n → ∀ r ∈ b.handled, r.consumer = i → r.number < n

theorem accounted_empty : Accounted ({} : Box ι α) where
  taken := le_rfl
  hand _ _ h := by cases h
  exclusive _ _ _ _ h := by cases h
  handled _ h := by cases h
  apart _ _ h := by cases h
  once := .nil
  found _ h := absurd h (Nat.not_lt_zero _)
  order := .nil
  later _ _ h := by cases h

theorem filter_number {l : List (Receipt ι α)} {r : Receipt ι α}
    (hl : l.Pairwise (fun r r' => r.number ≠ r'.number)) (hr : r ∈ l) :
    l.filter (fun r' => r'.number = r.number) = [r] := by
  induction l with
  | nil => cases hr
  | cons d rest ih =>
    obtain ⟨hd, hrest⟩ := List.pairwise_cons.mp hl
    rcases List.mem_cons.mp hr with rfl | hr
    · rw [List.filter_cons_of_pos (by simp), List.filter_eq_nil_iff.mpr]
      intro r' hr'
      simpa using (hd r' hr').symm
    · rw [List.filter_cons_of_neg (by simpa using hd r hr), ih hrest hr]

variable {b : Box ι α} {i : ι} {n : ℕ} {a : α}

theorem mem_numbered (h : (a, n) ∈ b.numbered) : b.entered[n]? = some a := by
  obtain ⟨hle, hget⟩ := List.mk_mem_zipIdx_iff_le_and_getElem?_sub.mp h
  rwa [Box.waiting, List.getElem?_drop, Nat.add_sub_cancel' hle] at hget

theorem taken_of_waiting (h : b.waiting = []) (hn : b.entered[n]? = some a) : n < b.taken :=
  (List.getElem?_eq_some_iff.mp hn).choose.trans_le (List.drop_eq_nil_iff.mp h)

/-- A message that has been taken and is in no hand has been handled, once. -/
theorem Accounted.handled_once (h : Accounted b) (ht : n < b.taken)
    (hn : b.entered[n]? = some a) (hfree : ∀ i, b.hand i ≠ some n) :
    ∃ i, b.handled.filter (fun r => r.number = n) = [⟨i, n, a⟩] := by
  rcases h.found n ht with ⟨r, hr, rfl⟩ | ⟨i, hi⟩
  · obtain rfl : r.message = a := Option.some.inj ((h.handled r hr).2.symm.trans hn)
    exact ⟨r.consumer, filter_number h.once hr⟩
  · exact absurd hi (hfree i)

theorem getElem?_of_prefix {l l' : List α} (h : l <+: l') (hn : l[n]? = some a) :
    l'[n]? = some a := by
  obtain ⟨rest, rfl⟩ := h
  rwa [List.getElem?_append_left (List.getElem?_eq_some_iff.mp hn).choose]

variable [DecidableEq ι]

def Box.apply (b : Box ι α) : Event ι α → Box ι α
  | .send a => { b with entered := b.entered ++ [a] }
  | .take i =>
    { b with taken := b.taken + 1, hand := Function.update b.hand i (some b.taken) }
  | .handle i a =>
    match b.hand i with
    | none => b
    | some n =>
      { b with hand := Function.update b.hand i none, handled := b.handled ++ [⟨i, n, a⟩] }

theorem apply_handle (h : b.hand i = some n) : b.apply (.handle i a) =
    { b with hand := Function.update b.hand i none, handled := b.handled ++ [⟨i, n, a⟩] } := by
  simp only [Box.apply, h]

theorem waiting_send (h : b.taken ≤ b.entered.length) :
    (b.apply (.send a)).waiting = b.waiting ++ [a] :=
  List.drop_append_of_le_length h

theorem waiting_take : (b.apply (.take i)).waiting = b.waiting.tail := by
  simp only [Box.waiting, Box.apply, List.tail_drop]

theorem entered_apply (e : Event ι α) : b.entered <+: (b.apply e).entered := by
  cases e with
  | send a => exact List.prefix_append _ _
  | take i => exact List.prefix_rfl
  | handle i a =>
    simp only [Box.apply]
    split <;> exact List.prefix_rfl

theorem taken_apply (e : Event ι α) : b.taken ≤ (b.apply e).taken := by
  cases e with
  | send a => exact le_rfl
  | take i => exact Nat.le_succ _
  | handle i a =>
    simp only [Box.apply]
    split <;> exact le_rfl

theorem Accounted.send (h : Accounted b) (a : α) : Accounted (b.apply (.send a)) where
  taken := h.taken.trans (entered_apply (.send a)).length_le
  hand := h.hand
  exclusive := h.exclusive
  handled r hr := ⟨(h.handled r hr).1,
    getElem?_of_prefix (entered_apply (.send a)) (h.handled r hr).2⟩
  apart := h.apart
  once := h.once
  found := h.found
  order := h.order
  later := h.later

theorem Accounted.take (h : Accounted b) (hw : b.waiting ≠ []) (hi : b.hand i = none) :
    Accounted (b.apply (.take i)) where
  taken := by
    by_contra hlt
    exact hw (List.drop_eq_nil_of_le (Nat.le_of_lt_succ (not_le.mp hlt)))
  hand j n hj := by
    rcases update_eq_some hj with ⟨-, rfl⟩ | ⟨-, hold⟩
    · exact Nat.lt_succ_self _
    · exact Nat.lt_succ_of_lt (h.hand j n hold)
  exclusive := h.exclusive.take (fun j q hj => (h.hand j q hj).ne)
  handled r hr := ⟨Nat.lt_succ_of_lt (h.handled r hr).1, (h.handled r hr).2⟩
  apart j n hj r hr := by
    rcases update_eq_some hj with ⟨-, rfl⟩ | ⟨-, hold⟩
    · exact (h.handled r hr).1.ne
    · exact h.apart j n hold r hr
  once := h.once
  found n hn := by
    rcases Nat.lt_succ_iff_lt_or_eq.mp hn with hold | rfl
    · rcases h.found n hold with hdone | ⟨j, hj⟩
      · exact Or.inl hdone
      · have hne : j ≠ i := by
          rintro rfl
          cases hi.symm.trans hj
        exact Or.inr ⟨j, (Function.update_of_ne hne ..).trans hj⟩
    · exact Or.inr ⟨i, Function.update_self ..⟩
  order := h.order
  later j n hj r hr hc := by
    rcases update_eq_some hj with ⟨-, rfl⟩ | ⟨-, hold⟩
    · exact (h.handled r hr).1
    · exact h.later j n hold r hr hc

theorem Accounted.handle (h : Accounted b) (hi : b.hand i = some n)
    (hn : b.entered[n]? = some a) : Accounted (b.apply (.handle i a)) := by
  rw [apply_handle hi]
  have mem : ∀ {r : Receipt ι α}, r ∈ b.handled ++ [⟨i, n, a⟩] →
      r ∈ b.handled ∨ r = ⟨i, n, a⟩ := by
    intro r hr
    simpa using hr
  constructor
  case taken => exact h.taken
  case hand =>
    intro j m hj
    exact h.hand j m (update_none_eq_some hj).2
  case exclusive => exact h.exclusive.drop i
  case handled =>
    intro r hr
    rcases mem hr with hold | rfl
    · exact h.handled r hold
    · exact ⟨h.hand i n hi, hn⟩
  case apart =>
    intro j m hj r hr
    obtain ⟨hne, hj⟩ := update_none_eq_some hj
    rcases mem hr with hold | rfl
    · exact h.apart j m hj r hold
    · rintro rfl
      exact hne (h.exclusive j i _ _ hj hi rfl)
  case once =>
    refine List.pairwise_append.mpr ⟨h.once, List.pairwise_singleton _ _, ?_⟩
    intro r hr r' hr'
    rw [List.mem_singleton.mp hr']
    exact h.apart i n hi r hr
  case found =>
    intro m hm
    rcases h.found m hm with ⟨r, hr, hrm⟩ | ⟨j, hj⟩
    · exact Or.inl ⟨r, List.mem_append_left _ hr, hrm⟩
    · by_cases hji : j = i
      · subst hji
        cases hi.symm.trans hj
        exact Or.inl ⟨_, List.mem_append_right _ (List.mem_singleton_self _), rfl⟩
      · exact Or.inr ⟨j, (Function.update_of_ne hji ..).trans hj⟩
  case order =>
    refine List.pairwise_append.mpr ⟨h.order, List.pairwise_singleton _ _, ?_⟩
    intro r hr r' hr' hc
    rw [List.mem_singleton.mp hr'] at hc ⊢
    exact h.later i n hi r hr hc
  case later =>
    intro j m hj r hr hc
    obtain ⟨hne, hj⟩ := update_none_eq_some hj
    rcases mem hr with hold | rfl
    · exact h.later j m hj r hold hc
    · exact absurd hc.symm hne

end Gearman.Mailbox
