import Mathlib.Tactic

/-!
# Messages for the last subscriber of a key

A message carries a key and goes to whoever subscribed to the key last; a final message also
ends the subscription. A desk does this event by event with a table of the owners. A
subscription is named by its position among the events, since one value may subscribe often.
`window` says what a subscription is due of the events after it, without the table.
-/

namespace Gearman.Subscription

inductive Event (K V M : Type*)
  | subscribe (k : K) (v : V)
  | message (k : K) (m : M)
  | skip

structure Desk (K V M : Type*) where
  count : ℕ := 0
  owner : K → Option (ℕ × V) := fun _ => none
  received : List (ℕ × V × M) := []

variable {K V M : Type*}

def Desk.delivery (d : Desk K V M) : Event K V M → List (ℕ × V × M)
  | .message k m => (d.owner k).toList.map (fun w => (w.1, w.2, m))
  | _ => []

theorem mem_delivery {d : Desk K V M} {e : Event K V M} {r : ℕ} {v : V} {m : M} :
    (r, v, m) ∈ d.delivery e ↔ ∃ k, e = .message k m ∧ d.owner k = some (r, v) := by
  cases e with
  | message k m' =>
    cases ho : d.owner k with
    | none => simp [Desk.delivery, ho]
    | some w =>
      obtain ⟨r', v'⟩ := w
      simp only [Desk.delivery, ho, Option.toList_some, List.map_singleton, List.mem_singleton,
        Prod.mk.injEq, Event.message.injEq]
      constructor
      · rintro ⟨rfl, rfl, rfl⟩
        exact ⟨k, ⟨rfl, rfl⟩, ho⟩
      · rintro ⟨k', ⟨rfl, rfl⟩, h⟩
        rw [ho, Option.some.injEq, Prod.mk.injEq] at h
        exact ⟨h.1.symm, h.2.symm, rfl⟩
  | _ => simp [Desk.delivery]

variable [DecidableEq K] (final : M → Bool)

def Desk.take (d : Desk K V M) : Event K V M → Desk K V M
  | .subscribe k v =>
    { d with count := d.count + 1, owner := Function.update d.owner k (some (d.count, v)) }
  | .message k m =>
    match d.owner k with
    | none => { d with count := d.count + 1 }
    | some (r, v) =>
      { count := d.count + 1
        owner := if final m then Function.update d.owner k none else d.owner
        received := d.received ++ [(r, v, m)] }
  | .skip => { d with count := d.count + 1 }

def desk (events : List (Event K V M)) : Desk K V M := events.foldl (Desk.take final) {}

def ends (k : K) : Event K V M → Bool
  | .subscribe k' _ => k' = k
  | .message k' m => k' = k && final m
  | .skip => false

def carries (k : K) : Event K V M → Option M
  | .message k' m => if k' = k then some m else none
  | _ => none

def window (k : K) : List (Event K V M) → List M
  | [] => []
  | e :: rest => (carries k e).toList ++ if ends final k e then [] else window k rest

variable {final} {k : K} {v : V} {m : M} {r : ℕ} {e : Event K V M} {events : List (Event K V M)}

theorem window_append (before after : List (Event K V M)) :
    window final k (before ++ after) =
      window final k before ++ if before.any (ends final k) then [] else window final k after := by
  induction before with
  | nil => simp [window]
  | cons e before ih =>
    simp only [List.cons_append, window, ih]
    cases he : ends final k e <;> simp [he]

theorem window_concat (events : List (Event K V M)) (e : Event K V M) :
    window final k (events ++ [e]) =
      window final k events ++ if events.any (ends final k) then [] else (carries k e).toList := by
  rw [window_append]
  simp [window]

theorem desk_concat (events : List (Event K V M)) (e : Event K V M) :
    desk final (events ++ [e]) = (desk final events).take final e := by
  simp [desk]

theorem desk_count (events : List (Event K V M)) : (desk final events).count = events.length := by
  induction events using List.reverseRecOn with
  | nil => rfl
  | append_singleton events e ih =>
    rw [desk_concat, List.length_append, List.length_singleton, ← ih]
    cases e with
    | message k m =>
      simp only [Desk.take]
      cases (desk final events).owner k <;> rfl
    | _ => rfl

theorem concat_getElem? {α : Type*} {l : List α} {x y : α} {r : ℕ} :
    (l ++ [y])[r]? = some x ↔ l[r]? = some x ∨ (r = l.length ∧ y = x) := by
  rcases Nat.lt_trichotomy r l.length with hr | hr | hr
  · rw [List.getElem?_append_left hr]
    simp [Nat.ne_of_lt hr]
  · subst hr
    simp
  · rw [List.getElem?_eq_none (by simpa using hr), List.getElem?_eq_none hr.le]
    simp [Nat.ne_of_gt hr]

theorem drop_concat {α : Type*} {l : List α} {x : α} (h : l[r]? = some x) (y : α) :
    (l ++ [y]).drop (r + 1) = l.drop (r + 1) ++ [y] := by
  obtain ⟨hr, _⟩ := List.getElem?_eq_some_iff.mp h
  exact List.drop_append_of_le_length hr

/-- The owner of a key is its last subscription, if nothing has ended it. -/
theorem owner_iff : (desk final events).owner k = some (r, v) ↔
    events[r]? = some (.subscribe k v) ∧ (events.drop (r + 1)).any (ends final k) = false := by
  induction events using List.reverseRecOn with
  | nil => simp [desk]
  | append_singleton events e ih =>
    have hdrop : (events ++ [e]).drop (events.length + 1) = [] := by simp
    rw [desk_concat, concat_getElem?]
    have hrest : (events[r]? = some (.subscribe k v) ∨ r = events.length ∧ e = .subscribe k v) ∧
        ((events ++ [e]).drop (r + 1)).any (ends final k) = false ↔
        ((desk final events).owner k = some (r, v) ∧ ends final k e = false) ∨
          (r = events.length ∧ e = .subscribe k v) := by
      rw [ih]
      constructor
      · rintro ⟨h | h, hany⟩
        · rw [drop_concat h, List.any_append, Bool.or_eq_false_iff] at hany
          exact Or.inl ⟨⟨h, hany.1⟩, by simpa using hany.2⟩
        · exact Or.inr h
      · rintro (⟨⟨h, hany⟩, he⟩ | ⟨rfl, rfl⟩)
        · refine ⟨Or.inl h, ?_⟩
          rw [drop_concat h, List.any_append, hany]
          simpa using he
        · exact ⟨Or.inr ⟨rfl, rfl⟩, by simp⟩
    rw [hrest]
    cases e with
    | skip => simp [Desk.take, ends]
    | subscribe k' v' =>
      by_cases hk : k' = k
      · subst hk
        simp [Desk.take, ends, desk_count, eq_comm]
      · simp [Desk.take, ends, hk, Ne.symm hk]
    | message k' m =>
      cases ho : (desk final events).owner k' with
      | none =>
        by_cases hk : k' = k
        · subst hk
          simp [Desk.take, ho]
        · simp [Desk.take, ho, ends, hk]
      | some w =>
        by_cases hk : k' = k
        · subst hk
          cases hf : final m <;> simp [Desk.take, ho, ends, hf]
        · cases hf : final m <;> simp [Desk.take, ho, ends, hf, hk, Ne.symm hk]

theorem received_concat (events : List (Event K V M)) (e : Event K V M) :
    (desk final (events ++ [e])).received =
      (desk final events).received ++ (desk final events).delivery e := by
  rw [desk_concat]
  cases e with
  | message k m => cases ho : (desk final events).owner k <;> simp [Desk.take, Desk.delivery, ho]
  | _ => simp [Desk.take, Desk.delivery]

theorem received_subscribed (h : (r, v, m) ∈ (desk final events).received) :
    ∃ k, events[r]? = some (.subscribe k v) := by
  induction events using List.reverseRecOn with
  | nil => simp [desk] at h
  | append_singleton events e ih =>
    rw [received_concat, List.mem_append] at h
    rcases h with h | h
    · obtain ⟨k, hk⟩ := ih h
      exact ⟨k, concat_getElem?.mpr (Or.inl hk)⟩
    · obtain ⟨k, rfl, ho⟩ := mem_delivery.mp h
      exact ⟨k, concat_getElem?.mpr (Or.inl (owner_iff.mp ho).1)⟩

/-- Of what is handed out for one event, a subscription gets what the event carries for it
while nothing has ended it. -/
theorem delivery_filter (h : events[r]? = some (.subscribe k v)) (e : Event K V M) :
    (((desk final events).delivery e).filter (fun w => w.1 = r)).map (fun w => w.2.2) =
      if (events.drop (r + 1)).any (ends final k) then [] else (carries k e).toList := by
  cases e with
  | message k' m =>
    cases hany : (events.drop (r + 1)).any (ends final k) with
    | false =>
      have ho : (desk final events).owner k = some (r, v) := owner_iff.mpr ⟨h, hany⟩
      by_cases hk : k' = k
      · subst hk
        simp [Desk.delivery, carries, ho]
      · cases ho' : (desk final events).owner k' with
        | none => simp [Desk.delivery, carries, ho', hk]
        | some w =>
          obtain ⟨r', v'⟩ := w
          have hne : r' ≠ r := by
            rintro rfl
            have hsub := (owner_iff.mp ho').1.symm.trans h
            exact hk (Event.subscribe.inj (Option.some.inj hsub)).1
          simp [Desk.delivery, carries, ho', hk, hne]
    | true =>
      cases ho' : (desk final events).owner k' with
      | none => simp [Desk.delivery, ho']
      | some w =>
        obtain ⟨r', v'⟩ := w
        have hne : r' ≠ r := by
          rintro rfl
          obtain ⟨hsub, hnone⟩ := owner_iff.mp ho'
          obtain ⟨rfl, -⟩ := Event.subscribe.inj (Option.some.inj (hsub.symm.trans h))
          simp [hany] at hnone
        simp [Desk.delivery, ho', hne]
  | _ => simp [Desk.delivery, carries]

theorem received_eq_window (h : events[r]? = some (.subscribe k v)) :
    ((desk final events).received.filter (fun w => w.1 = r)).map (fun w => w.2.2) =
      window final k (events.drop (r + 1)) := by
  induction events using List.reverseRecOn with
  | nil => simp at h
  | append_singleton events e ih =>
    rw [received_concat, List.filter_append, List.map_append]
    rcases concat_getElem?.mp h with hold | ⟨rfl, rfl⟩
    · rw [ih hold, delivery_filter hold, drop_concat hold, window_concat]
    · have hnone : (desk final events).received.filter (fun w => w.1 = events.length) = [] := by
        rw [List.filter_eq_nil_iff]
        rintro ⟨r, v', m⟩ hw
        obtain ⟨k', hk'⟩ := received_subscribed hw
        obtain ⟨hr, -⟩ := List.getElem?_eq_some_iff.mp hk'
        simpa using Nat.ne_of_lt hr
      simp [hnone, Desk.delivery, window]

theorem exists_first_end {es : List (Event K V M)} (h : es.any (ends final k) = true) :
    ∃ before e after, es = before ++ e :: after ∧ before.any (ends final k) = false ∧
      ends final k e = true := by
  induction es with
  | nil => simp at h
  | cons e es ih =>
    cases he : ends final k e with
    | true => exact ⟨[], e, es, rfl, rfl, he⟩
    | false =>
      obtain ⟨before, e', after, rfl, hbefore, he'⟩ := ih (by simpa [he] using h)
      exact ⟨e :: before, e', after, rfl, by simp [he, hbefore], he'⟩

/-- A subscription that begins only when its key is free keeps it until the final message,
so a final message that comes at all is received. -/
theorem final_received
    (hfree : ∀ n v', events[n]? = some (.subscribe k v') →
      (desk final (events.take n)).owner k = none)
    (h : events[r]? = some (.subscribe k v)) (hm : final m = true)
    (hmem : .message k m ∈ events.drop (r + 1)) :
    ∃ m', final m' = true ∧ m' ∈ window final k (events.drop (r + 1)) := by
  have hany : (events.drop (r + 1)).any (ends final k) = true :=
    List.any_eq_true.mpr ⟨_, hmem, by simp [ends, hm]⟩
  obtain ⟨before, e, after, hsplit, hbefore, hend⟩ := exists_first_end hany
  obtain ⟨hr, -⟩ := List.getElem?_eq_some_iff.mp h
  have hevents : events = events.take (r + 1) ++ (before ++ e :: after) := by
    rw [← hsplit, List.take_append_drop]
  have hlen : (events.take (r + 1)).length = r + 1 := List.length_take_of_le hr
  cases e with
  | skip => simp [ends] at hend
  | message k' m' =>
    obtain ⟨rfl, hf⟩ : k' = k ∧ final m' = true := by simpa [ends] using hend
    refine ⟨m', hf, ?_⟩
    rw [hsplit, window_append, hbefore]
    simp [window, carries]
  | subscribe k' v' =>
    have hk : k' = k := by simpa [ends] using hend
    subst hk
    have hn : events[r + 1 + before.length]? = some (.subscribe k' v') := by
      rw [hevents, List.getElem?_append_right (by omega), hlen]
      simp
    have htake : events.take (r + 1 + before.length) = events.take (r + 1) ++ before := by
      conv_lhs => rw [hevents]
      rw [List.take_append, hlen]
      simp [List.take_take]
    have howner : (desk final (events.take (r + 1 + before.length))).owner k' = some (r, v) := by
      rw [owner_iff, htake]
      refine ⟨?_, ?_⟩
      · rw [List.getElem?_append_left (by omega), List.getElem?_take_of_lt (Nat.lt_succ_self r)]
        exact h
      · rw [List.drop_left' hlen]
        exact hbefore
    simp [hfree _ v' hn] at howner

end Gearman.Subscription
