import Mathlib.Data.List.AList
import Gearman.ClientPacket

/-!
# The queues of handlers waiting for a reply

A `handlerSlot` matches replies to requests by arrival order. A timed-out entry
stays queued with its handlers cleared until a reply is absorbed by it or its
deadline passes. Handlers are any type; an abandoned entry is one without an
internal handler. `statusHandlers` is a map keyed by the job handle.
-/

namespace Gearman.Client

structure HandledResponse (H E : Type) where
  internal : Option H := none
  external : Option E := none
deriving DecidableEq, Repr

structure SlotEntry (H E : Type) where
  id : UInt64
  h : HandledResponse H E
  expires : Option ℕ := none
deriving DecidableEq, Repr

structure HandlerSlot (H E : Type) where
  queue : List (SlotEntry H E) := []
  nextID : UInt64 := 0
deriving DecidableEq, Repr

def handlerSlotCap : ℕ := queueSize

namespace HandlerSlot
variable {H E : Type}

def evict (queue : List (SlotEntry H E)) : List (SlotEntry H E) :=
  match queue with
  | [] => []
  | e :: rest =>
    if handlerSlotCap ≤ (e :: rest).length ∧ e.h.internal.isNone then rest else e :: rest

def set (s : HandlerSlot H E) (internal : H) (external : Option E) : HandlerSlot H E × UInt64 :=
  ({ queue := evict s.queue ++ [{ id := s.nextID, h := ⟨some internal, external⟩ }]
     nextID := s.nextID + 1 }, s.nextID)

def spent (now : ℕ) (e : SlotEntry H E) : Bool :=
  e.h.internal.isNone && (e.expires.any (fun t => !(now < t)))

def take (s : HandlerSlot H E) (now : ℕ) : HandlerSlot H E × HandledResponse H E :=
  match s.queue.dropWhile (spent now) with
  | [] => ({ s with queue := [] }, {})
  | e :: rest => ({ s with queue := rest }, e.h)

def cancel (s : HandlerSlot H E) (id : UInt64) : HandlerSlot H E :=
  { s with queue := s.queue.eraseP (fun e => e.id = id) }

def abandonFirst (id : UInt64) (expires : ℕ) : List (SlotEntry H E) → List (SlotEntry H E)
  | [] => []
  | e :: rest =>
    if e.id = id then { e with h := {}, expires := some expires } :: rest
    else e :: abandonFirst id expires rest

def abandon (s : HandlerSlot H E) (id : UInt64) (expires : ℕ) : HandlerSlot H E :=
  { s with queue := abandonFirst id expires s.queue }

def reset (s : HandlerSlot H E) : HandlerSlot H E := { s with queue := [] }

def live (s : HandlerSlot H E) : List H := s.queue.filterMap (fun e => e.h.internal)

theorem mem_live {s : HandlerSlot H E} {i : H} :
    i ∈ s.live ↔ ∃ e ∈ s.queue, e.h.internal = some i := by
  simp [live]

theorem mem_set_queue {s : HandlerSlot H E} {i : H} {external : Option E} {e : SlotEntry H E}
    (h : e ∈ (s.set i external).1.queue) : e ∈ s.queue ∨ e.h = ⟨some i, external⟩ := by
  rcases List.mem_append.mp h with he | he
  · refine Or.inl ?_
    cases hq : s.queue with
    | nil => simp [evict, hq] at he
    | cons f rest =>
      simp only [evict, hq] at he
      split_ifs at he
      · exact List.mem_cons_of_mem f he
      · exact he
  · cases List.mem_singleton.mp he
    exact Or.inr rfl

theorem mem_live_set {s : HandlerSlot H E} {i j : H} {external : Option E}
    (h : j ∈ (s.set i external).1.live) : j = i ∨ j ∈ s.live := by
  obtain ⟨e, he, hj⟩ := mem_live.mp h
  rcases mem_set_queue he with he | he
  · exact Or.inr (mem_live.mpr ⟨e, he, hj⟩)
  · rw [he] at hj
    exact Or.inl (Option.some.inj hj).symm

/-- Either every entry was spent, or the first that was not is taken with all before it. -/
theorem take_cases (s : HandlerSlot H E) (now : ℕ) :
    ((s.take now).1.queue = [] ∧ (s.take now).2 = {}) ∨
      ∃ e, (s.take now).2 = e.h ∧ e :: (s.take now).1.queue <:+ s.queue := by
  have hsuf := s.queue.dropWhile_suffix (spent now)
  unfold take
  cases hq : s.queue.dropWhile (spent now) with
  | nil => exact Or.inl ⟨rfl, rfl⟩
  | cons e rest => exact Or.inr ⟨e, rfl, hq ▸ hsuf⟩

theorem take_queue_subset (s : HandlerSlot H E) (now : ℕ) :
    (s.take now).1.queue ⊆ s.queue := by
  intro e he
  rcases s.take_cases now with ⟨hq, _⟩ | ⟨f, _, hsuf⟩
  · simp [hq] at he
  · exact hsuf.subset (List.mem_cons_of_mem f he)

theorem mem_live_take {s : HandlerSlot H E} {j : H} {now : ℕ}
    (h : j ∈ (s.take now).1.live) : j ∈ s.live := by
  obtain ⟨e, he, hj⟩ := mem_live.mp h
  exact mem_live.mpr ⟨e, take_queue_subset s now he, hj⟩

theorem take_internal_mem {s : HandlerSlot H E} {j : H} {now : ℕ}
    (h : (s.take now).2.internal = some j) : j ∈ s.live := by
  rcases s.take_cases now with ⟨_, hnone⟩ | ⟨f, hf, hsuf⟩
  · simp [hnone] at h
  · exact mem_live.mpr ⟨f, hsuf.subset List.mem_cons_self, hf ▸ h⟩

theorem mem_live_cancel {s : HandlerSlot H E} {j : H} {id : UInt64}
    (h : j ∈ (s.cancel id).live) : j ∈ s.live := by
  obtain ⟨e, he, hj⟩ := mem_live.mp h
  exact mem_live.mpr ⟨e, List.mem_of_mem_eraseP he, hj⟩

theorem mem_abandonFirst {id : UInt64} {expires : ℕ} {queue : List (SlotEntry H E)}
    {e : SlotEntry H E} (he : e ∈ abandonFirst id expires queue) :
    e ∈ queue ∨ e.h.internal = none := by
  induction queue with
  | nil => cases he
  | cons f rest ih =>
    rw [abandonFirst] at he
    split_ifs at he with hid
    · rcases List.mem_cons.mp he with rfl | he
      · exact Or.inr rfl
      · exact Or.inl (List.mem_cons_of_mem f he)
    · rcases List.mem_cons.mp he with rfl | he
      · exact Or.inl List.mem_cons_self
      · exact (ih he).imp_left (List.mem_cons_of_mem f)

theorem mem_live_abandon {s : HandlerSlot H E} {j : H} {id : UInt64} {expires : ℕ}
    (h : j ∈ (s.abandon id expires).live) : j ∈ s.live := by
  obtain ⟨e, he, hj⟩ := mem_live.mp h
  rcases mem_abandonFirst he with he | hnone
  · exact mem_live.mpr ⟨e, he, hj⟩
  · simp [hnone] at hj

/-- At most one entry is queued, and it satisfies `P`. -/
def Only (s : HandlerSlot H E) (P : SlotEntry H E → Prop) : Prop :=
  s.queue = [] ∨ ∃ e, s.queue = [e] ∧ P e

@[simp] theorem reset_queue (s : HandlerSlot H E) : s.reset.queue = [] := rfl

@[simp] theorem reset_live (s : HandlerSlot H E) : s.reset.live = [] := rfl

variable {s : HandlerSlot H E} {P Q : SlotEntry H E → Prop}

theorem Only.mono (h : s.Only P) (hpq : ∀ e, P e → Q e) : s.Only Q := by
  rcases h with h | ⟨e, he, hp⟩
  · exact Or.inl h
  · exact Or.inr ⟨e, he, hpq e hp⟩

theorem Only.length_le (h : s.Only P) : s.queue.length ≤ 1 := by
  rcases h with h | ⟨e, he, _⟩
  · simp [h]
  · simp [he]

theorem set_queue (h : s.queue = []) (internal : H) (external : Option E) :
    (s.set internal external).1.queue =
      [{ id := (s.set internal external).2, h := ⟨some internal, external⟩ }] := by
  simp [set, evict, h]

theorem Only.take_queue (h : s.Only P) (now : ℕ) : (s.take now).1.queue = [] := by
  rcases h with h | ⟨e, he, _⟩
  · simp [take, h]
  · cases hs : spent now e <;> simp [take, he, hs]

theorem Only.take_internal (h : s.Only P) {now : ℕ} {i : H}
    (hi : (s.take now).2.internal = some i) :
    ∃ e, s.queue = [e] ∧ P e ∧ e.h = (s.take now).2 := by
  rcases h with h | ⟨e, he, hp⟩
  · simp [take, h] at hi
  · cases hs : spent now e with
    | true => simp [take, he, hs] at hi
    | false => exact ⟨e, he, hp, by simp [take, he, hs]⟩

theorem Only.cancel_queue {id : UInt64} (h : s.Only (fun e => e.id = id)) :
    (s.cancel id).queue = [] := by
  rcases h with h | ⟨e, he, hid⟩
  · simp [cancel, h]
  · simp [cancel, he, hid]

end HandlerSlot

/-- `statusHandlers`: the handlers of `STATUS_RES`, by job handle. -/
abbrev StatusHandlers (H : Type) := AList (fun _ : Bytes => H)

namespace StatusHandlers
variable {H : Type}

def set (s : StatusHandlers H) (handle : Bytes) (internal : H) : StatusHandlers H :=
  s.insert handle internal

def take {E : Type} (s : StatusHandlers H) (handle : Bytes) :
    StatusHandlers H × HandledResponse H E :=
  (s.erase handle, { internal := s.lookup handle })

def cancel (s : StatusHandlers H) (handle : Bytes) : StatusHandlers H := s.erase handle

end StatusHandlers

end Gearman.Client
