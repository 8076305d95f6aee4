import Mathlib.Data.List.TakeWhile
import Gearman.HandlerSlot
import Gearman.Transition

/-!
# A handlerSlot over whole sequences of operations

The history beside the slot keeps the handlers in the order they were set, the
entries whose handler a `take` returned and the deadline of each entry that was
abandoned while it was queued. The id of an entry is its place in the order of
the sets, so one sorted list carries the order: the ids taken so far followed by
the ids still queued. Every operation either keeps a sublist of it or appends the
next number.
-/

namespace Gearman.Client

/-- The operations with their clock readings; `abandon` waits `ttl` from its own. -/
inductive SlotOp (H E : Type)
  | set (internal : H) (external : Option E)
  | take (now : ℕ)
  | cancel (id : UInt64)
  | abandon (id : UInt64) (now : ℕ) (ttl : ℤ)
  | reset

structure SlotHistory (H E : Type) where
  sets : List (H × Option E) := []
  taken : List (UInt64 × HandledResponse H E) := []
  abandoned : UInt64 → Option ℕ := fun _ => none

namespace HandlerSlot
open Transition
open scoped List
variable {H E : Type}

def apply (s : HandlerSlot H E) : SlotOp H E → HandlerSlot H E
  | .set internal external => (s.set internal external).1
  | .take now => (s.take now).1
  | .cancel id => s.cancel id
  | .abandon id now ttl => s.abandon id (now + ttl).toNat
  | .reset => s.reset

def note (x : SlotHistory H E) (s : HandlerSlot H E) : SlotOp H E → SlotHistory H E
  | .set internal external => { x with sets := x.sets ++ [(internal, external)] }
  | .take now =>
    match s.queue.dropWhile (spent now) with
    | [] => x
    | e :: _ =>
      if e.h.internal.isSome then { x with taken := x.taken ++ [(e.id, (s.take now).2)] } else x
  | .abandon id now ttl =>
    if s.queue.any (fun e => e.id = id) then
      { x with abandoned := Function.update x.abandoned id (some (now + ttl).toNat) }
    else x
  | _ => x

def slotStep : HandlerSlot H E × SlotHistory H E → SlotOp H E →
    Option (HandlerSlot H E × SlotHistory H E) :=
  traced (fun s a => some (s.apply a)) (fun x s a _ => note x s a)

/-- An id is used once as long as the counter has not wrapped. -/
def counted (x : HandlerSlot H E × SlotHistory H E) : SlotOp H E → Bool
  | .set _ _ => x.2.sets.length < 2 ^ 64
  | _ => true

/-- A caller that sets a handler has none of its own left in the queue. -/
def quiet (x : HandlerSlot H E × SlotHistory H E) : SlotOp H E → Bool
  | .set _ _ => x.2.sets.length < 2 ^ 64 && x.1.live.isEmpty
  | _ => true

theorem slotStep_eq_some {x y : HandlerSlot H E × SlotHistory H E} {a : SlotOp H E} :
    slotStep x a = some y ↔ y = (x.1.apply a, note x.2 x.1 a) := by
  simp [slotStep, traced, eq_comm]

def ids (x : HandlerSlot H E × SlotHistory H E) : List ℕ :=
  x.2.taken.map (fun p => p.1.toNat) ++ x.1.queue.map (fun e => e.id.toNat)

def SetAs (x : SlotHistory H E) (id : UInt64) (h : HandledResponse H E) : Prop :=
  ∃ q, x.sets[id.toNat]? = some q ∧ h = ⟨some q.1, q.2⟩

def Recorded (x : SlotHistory H E) (e : SlotEntry H E) : Prop :=
  e.expires = x.abandoned e.id ∧
    (x.abandoned e.id = none → SetAs x e.id e.h) ∧ (x.abandoned e.id ≠ none → e.h = {})

structure Fifo (x : HandlerSlot H E × SlotHistory H E) : Prop where
  next : x.1.nextID = UInt64.ofNat x.2.sets.length
  sorted : (ids x).Pairwise (· < ·)
  bound : ∀ n ∈ ids x, n < x.2.sets.length
  entries : ∀ e ∈ x.1.queue, Recorded x.2 e
  taken : ∀ p ∈ x.2.taken, SetAs x.2 p.1 p.2
  abandoned : ∀ id t, x.2.abandoned id = some t → id.toNat < x.2.sets.length

theorem Fifo.queue_sorted {x : HandlerSlot H E × SlotHistory H E} (h : Fifo x) :
    x.1.queue.Pairwise (fun d e => d.id.toNat < e.id.toNat) :=
  List.pairwise_map.mp (List.pairwise_append.mp h.sorted).2.1

theorem Fifo.queue_bound {x : HandlerSlot H E × SlotHistory H E} (h : Fifo x)
    {e : SlotEntry H E} (he : e ∈ x.1.queue) : e.id.toNat < x.2.sets.length :=
  h.bound _ (List.mem_append_right _ (List.mem_map_of_mem he))

theorem Recorded.dead_iff {x : SlotHistory H E} {e : SlotEntry H E} (h : Recorded x e) :
    e.h.internal = none ↔ x.abandoned e.id ≠ none := by
  obtain ⟨-, hlive, hdead⟩ := h
  by_cases hab : x.abandoned e.id = none
  · obtain ⟨q, -, hq⟩ := hlive hab
    simp [hab, hq]
  · simp [hab, hdead hab]

theorem Fifo.sublist {x : HandlerSlot H E × SlotHistory H E} (h : Fifo x) {s : HandlerSlot H E}
    {taken : List (UInt64 × HandledResponse H E)} (hnext : s.nextID = x.1.nextID)
    (hids : ids (s, { x.2 with taken }) <+ ids x) (hq : ∀ e ∈ s.queue, e ∈ x.1.queue)
    (ht : ∀ p ∈ taken, SetAs x.2 p.1 p.2) : Fifo (s, { x.2 with taken }) where
  next := hnext.trans h.next
  sorted := h.sorted.sublist hids
  bound := fun n hn => h.bound n (hids.subset hn)
  entries := fun e he => h.entries e (hq e he)
  taken := ht
  abandoned := h.abandoned

theorem Fifo.shrink {x : HandlerSlot H E × SlotHistory H E} (h : Fifo x) {s : HandlerSlot H E}
    (hnext : s.nextID = x.1.nextID) (hq : s.queue <+ x.1.queue) : Fifo (s, x.2) :=
  h.sublist hnext ((hq.map _).append_left _) (fun _ he => hq.subset he) h.taken

theorem evict_suffix (queue : List (SlotEntry H E)) : evict queue <:+ queue := by
  cases queue with
  | nil => exact List.suffix_rfl
  | cons e rest =>
    simp only [evict]
    split_ifs
    · exact List.suffix_cons e rest
    · exact List.suffix_rfl

theorem SetAs.append {x : SlotHistory H E} {id : UInt64} {h : HandledResponse H E}
    (hs : SetAs x id h) (more : List (H × Option E)) :
    SetAs { x with sets := x.sets ++ more } id h := by
  obtain ⟨q, hq, hh⟩ := hs
  exact ⟨q, List.getElem?_append_left (List.getElem?_eq_some_iff.mp hq).1 ▸ hq, hh⟩

theorem Fifo.set {x : HandlerSlot H E × SlotHistory H E} (h : Fifo x)
    (hc : x.2.sets.length < 2 ^ 64) (internal : H) (external : Option E) :
    Fifo (x.1.apply (.set internal external), note x.2 x.1 (.set internal external)) := by
  have he := h.shrink (s := { x.1 with queue := evict x.1.queue }) rfl
    (evict_suffix x.1.queue).sublist
  have hid : x.1.nextID.toNat = x.2.sets.length := by
    rw [h.next]
    exact UInt64.toNat_ofNat_of_lt' hc
  have hids : ids (x.1.apply (.set internal external), note x.2 x.1 (.set internal external)) =
      ids ({ x.1 with queue := evict x.1.queue }, x.2) ++ [x.2.sets.length] := by
    simp [ids, apply, note, HandlerSlot.set, hid]
  constructor
  · show x.1.nextID + 1 = UInt64.ofNat (x.2.sets ++ [(internal, external)]).length
    rw [h.next, List.length_append, List.length_singleton, UInt64.ofNat_add]
    rfl
  · rw [hids, List.pairwise_append]
    refine ⟨he.sorted, List.pairwise_singleton _ _, ?_⟩
    intro n hn m hm
    cases List.mem_singleton.mp hm
    exact he.bound n hn
  · intro n hn
    show n < (x.2.sets ++ [(internal, external)]).length
    rw [hids] at hn
    rw [List.length_append, List.length_singleton]
    rcases List.mem_append.mp hn with hn | hn
    · exact Nat.lt_succ_of_lt (he.bound n hn)
    · cases List.mem_singleton.mp hn
      exact Nat.lt_succ_self _
  · intro e hmem
    rcases List.mem_append.mp hmem with hmem | hmem
    · obtain ⟨hexp, hlive, hdead⟩ := he.entries e hmem
      exact ⟨hexp, fun ha => (hlive ha).append _, hdead⟩
    · cases List.mem_singleton.mp hmem
      have hfresh : x.2.abandoned x.1.nextID = none := by
        cases hab : x.2.abandoned x.1.nextID with
        | none => rfl
        | some t =>
          have := h.abandoned _ _ hab
          omega
      refine ⟨hfresh.symm, fun _ => ⟨(internal, external), ?_, rfl⟩, fun ha => absurd hfresh ha⟩
      simp [note, hid]
  · intro p hp
    exact (h.taken p hp).append _
  · intro id t ht
    exact (h.abandoned id t ht).trans_le (by simp [note])

theorem Fifo.take {x : HandlerSlot H E × SlotHistory H E} (h : Fifo x) (now : ℕ) :
    Fifo (x.1.apply (.take now), note x.2 x.1 (.take now)) := by
  have hsuf := x.1.queue.dropWhile_suffix (spent now)
  cases hq : x.1.queue.dropWhile (spent now) with
  | nil =>
    simp only [apply, note, HandlerSlot.take, hq]
    exact h.shrink rfl (List.nil_sublist _)
  | cons e rest =>
    rw [hq] at hsuf
    have hrest : rest <+ x.1.queue := (List.suffix_cons e rest).sublist.trans hsuf.sublist
    have hmem : e ∈ x.1.queue := hsuf.subset List.mem_cons_self
    by_cases hlive : e.h.internal.isSome = true
    · simp only [apply, note, HandlerSlot.take, hq, hlive, if_true]
      apply h.sublist (s := { x.1 with queue := rest }) rfl
      · have hs := (hsuf.sublist.map (fun e => e.id.toNat)).append_left
          (x.2.taken.map (fun p => p.1.toNat))
        simpa [ids] using hs
      · exact fun d hd => hrest.subset hd
      · intro p hp
        rcases List.mem_append.mp hp with hp | hp
        · exact h.taken p hp
        · cases List.mem_singleton.mp hp
          have hr := h.entries e hmem
          apply hr.2.1
          by_contra hne
          rw [hr.dead_iff.mpr hne] at hlive
          cases hlive
    · simp only [apply, note, HandlerSlot.take, hq, hlive]
      exact h.shrink rfl hrest

theorem abandonFirst_eq_map (id : UInt64) (expires : ℕ) {queue : List (SlotEntry H E)}
    (hs : queue.Pairwise (fun d e => d.id.toNat < e.id.toNat)) :
    abandonFirst id expires queue = queue.map (fun e =>
      if e.id = id then { e with h := {}, expires := some expires } else e) := by
  induction queue with
  | nil => rfl
  | cons e rest ih =>
    obtain ⟨hlt, hrest⟩ := List.pairwise_cons.mp hs
    by_cases he : e.id = id
    · -- no later entry has the id of the first
      have hid : ∀ d ∈ rest, d.id ≠ id := fun d hd hne =>
        absurd (hlt d hd) (by rw [he, hne]; exact Nat.lt_irrefl _)
      rw [abandonFirst, if_pos he, List.map_cons, if_pos he]
      congr 1
      conv_lhs => rw [← List.map_id rest]
      exact List.map_congr_left (fun d hd => (if_neg (hid d hd)).symm)
    · rw [abandonFirst, if_neg he, List.map_cons, if_neg he, ih hrest]

theorem Fifo.abandon {x : HandlerSlot H E × SlotHistory H E} (h : Fifo x) (id : UInt64)
    (now : ℕ) (ttl : ℤ) :
    Fifo (x.1.apply (.abandon id now ttl), note x.2 x.1 (.abandon id now ttl)) := by
  have hmap := abandonFirst_eq_map id (now + ttl).toNat h.queue_sorted
  by_cases hany : x.1.queue.any (fun e => e.id = id) = true
  · obtain ⟨f, hf, hfid⟩ : ∃ f ∈ x.1.queue, f.id = id := by simpa using hany
    have hids : ids (x.1.apply (.abandon id now ttl), note x.2 x.1 (.abandon id now ttl)) =
        ids x := by
      simp only [ids, apply, note, HandlerSlot.abandon, hany, if_true, hmap, List.map_map]
      congr 1
      apply List.map_congr_left
      intro e _
      simp only [Function.comp_apply]
      split_ifs <;> rfl
    have hnote : note x.2 x.1 (.abandon id now ttl) =
        { x.2 with abandoned := Function.update x.2.abandoned id (some (now + ttl).toNat) } := by
      simp only [note, hany, if_true]
    constructor
    · rw [hnote]
      exact h.next
    · rw [hids]
      exact h.sorted
    · rw [hids, hnote]
      exact h.bound
    · intro e he
      rw [hnote]
      simp only [apply, HandlerSlot.abandon, hmap] at he
      obtain ⟨d, hd, rfl⟩ := List.mem_map.mp he
      obtain ⟨hexp, hlive, hdead⟩ := h.entries d hd
      by_cases hid : d.id = id
      · simp [Recorded, hid]
      · simp only [if_neg hid, Recorded, Function.update_of_ne hid]
        exact ⟨hexp, hlive, hdead⟩
    · rw [hnote]
      exact h.taken
    · rw [hnote]
      intro id' t ht
      by_cases hid : id' = id
      · rw [hid, ← hfid]
        exact h.queue_bound hf
      · exact h.abandoned id' t ((Function.update_of_ne hid _ _).symm.trans ht)
  · have hnone : ∀ e ∈ x.1.queue, e.id ≠ id := by simpa using hany
    have hq : abandonFirst id (now + ttl).toNat x.1.queue = x.1.queue := by
      rw [hmap]
      conv_rhs => rw [← List.map_id x.1.queue]
      exact List.map_congr_left (fun e he => if_neg (hnone e he))
    simp only [apply, note, HandlerSlot.abandon, hany, hq]
    exact h

theorem Fifo.step {x y : HandlerSlot H E × SlotHistory H E} {a : SlotOp H E} (h : Fifo x)
    (hc : counted x a = true) (hst : slotStep x a = some y) : Fifo y := by
  cases slotStep_eq_some.mp hst
  cases a with
  | set internal external => exact h.set (by simpa [counted] using hc) internal external
  | take now => exact h.take now
  | cancel id => exact h.shrink rfl List.eraseP_sublist
  | abandon id now ttl => exact h.abandon id now ttl
  | reset => exact h.shrink rfl (List.nil_sublist _)

/-- `take` at `now`: the abandoned entries in front whose deadline has passed go, and
the next entry with them, whose handlers are returned if it is live. -/
def Takes (x : HandlerSlot H E × SlotHistory H E) (now : ℕ) : Prop :=
  ∃ gone rest, x.1.queue = gone ++ rest ∧
    (∀ e ∈ gone, ∃ t, x.2.abandoned e.id = some t ∧ t ≤ now) ∧
    match rest with
    | [] => x.1.take now = ({ x.1 with queue := [] }, {})
    | e :: rest =>
      (∀ t, x.2.abandoned e.id = some t → now < t) ∧
      (x.1.take now).1 = { x.1 with queue := rest } ∧
      if x.2.abandoned e.id = none then SetAs x.2 e.id (x.1.take now).2
      else (x.1.take now).2 = {}

structure Turns (s : HandlerSlot H E) : Prop where
  length : s.queue.length ≤ handlerSlotCap
  dead : ∀ e ∈ s.queue.dropLast, e.h.internal = none

theorem Turns.sublist {s t : HandlerSlot H E} (h : Turns s) (ht : t.queue <+ s.queue) :
    Turns t := by
  have hlast : t.queue.dropLast <+ s.queue.dropLast := by
    have := ht.reverse.tail
    rwa [List.tail_reverse, List.tail_reverse, List.reverse_sublist] at this
  exact ⟨ht.length_le.trans h.length, fun e he => h.dead e (hlast.subset he)⟩

theorem Turns.set {s : HandlerSlot H E} (h : Turns s) (hlive : s.live = []) (internal : H)
    (external : Option E) : Turns (s.set internal external).1 := by
  have hdead : ∀ e ∈ s.queue, e.h.internal = none := by
    simpa [live, List.filterMap_eq_nil_iff] using hlive
  refine ⟨?_, ?_⟩
  · have hl := h.length
    cases hq : s.queue with
    | nil => simp [HandlerSlot.set, evict, hq, handlerSlotCap, queueSize]
    | cons f rest =>
      have hf : f.h.internal = none := hdead f (by simp [hq])
      rw [hq] at hl
      by_cases hfull : handlerSlotCap ≤ (f :: rest).length
      · simp only [HandlerSlot.set, evict, hq, hf, hfull, Option.isNone_none, and_self, if_true,
          List.length_append, List.length_singleton]
        exact hl
      · simp only [HandlerSlot.set, evict, hq, hfull, false_and, if_false, List.length_append,
          List.length_singleton]
        omega
  · intro e he
    apply hdead e
    apply (evict_suffix s.queue).subset
    simpa [HandlerSlot.set] using he

theorem Turns.step {x y : HandlerSlot H E × SlotHistory H E} {a : SlotOp H E} (h : Turns x.1)
    (hf : Fifo x) (hq : quiet x a = true) (hst : slotStep x a = some y) : Turns y.1 := by
  cases slotStep_eq_some.mp hst
  cases a with
  | set internal external =>
    have hlive : x.1.live.isEmpty = true := (Bool.and_eq_true_iff.mp hq).2
    exact h.set (List.isEmpty_iff.mp hlive) internal external
  | take now =>
    rcases x.1.take_cases now with ⟨hnil, -⟩ | ⟨e, -, hsuf⟩
    · exact h.sublist (hnil ▸ List.nil_sublist _)
    · exact h.sublist ((List.suffix_cons e _).sublist.trans hsuf.sublist)
  | cancel id => exact h.sublist List.eraseP_sublist
  | abandon id now ttl =>
    have hmap := abandonFirst_eq_map id (now + ttl).toNat hf.queue_sorted
    simp only [apply, HandlerSlot.abandon, hmap]
    refine ⟨by simpa using h.length, ?_⟩
    intro e he
    rw [← List.map_dropLast] at he
    obtain ⟨d, hd, rfl⟩ := List.mem_map.mp he
    split_ifs
    · rfl
    · exact h.dead d hd
  | reset => exact h.sublist (List.nil_sublist _)

end HandlerSlot
end Gearman.Client
