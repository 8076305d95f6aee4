import Gearman.ClientProgress
import Gearman.PoolCalls
import Gearman.PoolUsable
import Gearman.Simulation

/-!
# The calls of a pool return

The lock of a pool is let go before a client is called, with one exception: `Add` closes the
client that lost the race for its address under the lock. Nobody else knows that client, so its
`Close` returns by itself, and from every state each call of the pool can come to its end
although no server says anything.
-/

namespace Gearman.Client
open Transition
variable {cfg : Cfg} {s t : St} {a : Act} {k : ℕ}

theorem exists_unused (h : Reachable (step cfg) always (new cfg) s) :
    ∃ k, s.calls k = none := by
  have hbound : ∃ n, ∀ k, n ≤ k → s.calls k = none := by
    refine h.invariant (I := fun s => ∃ n, ∀ k, n ≤ k → s.calls k = none)
      ⟨0, fun _ _ => rfl⟩ ?_
    rintro s a t ⟨n, hn⟩ - hstep
    have hm := step_move hstep
    have hnew : ∀ m k, n ≤ k → (∀ op, a = .call k op → k < m) → m ≤ k → t.calls k = none := by
      intro m k hk ha hmk
      by_contra hne
      obtain ⟨call, hcall⟩ := Option.ne_none_iff_exists'.mp hne
      rcases hm.call_origin hcall with ⟨old, hold, -⟩ | ⟨-, -, -, -, -, hact⟩
      · cases (hn k hk).symm.trans hold
      · exact absurd (ha _ hact) (by omega)
    cases a with
    | call i op =>
      refine ⟨max n (i + 1), ?_⟩
      intro k hk
      refine hnew (i + 1) k (by omega) ?_ (by omega)
      intro op' hact
      cases hact
      omega
    | _ => exact ⟨n, fun k hk => hnew 0 k hk (by simp) (by omega)⟩
  obtain ⟨n, hn⟩ := hbound
  exact ⟨n, hn n le_rfl⟩

end Gearman.Client

namespace Gearman.Pool
open Bytes Transition

variable {s t : St} {a : Act} {c i j k : ℕ} {item : Item} {call call' : Call}

theorem Item.exists_step {act : Client.Act} {u : Client.St}
    (h : Client.step item.cfg item.st act = some u) :
    ∃ item', item.step act = some item' ∧ item'.st = u ∧ item'.cfg = item.cfg := by
  unfold Item.step
  split
  · next hnone => cases hnone.symm.trans h
  · next v hv =>
    cases hv.symm.trans h
    exact ⟨_, rfl, rfl, rfl⟩

theorem Item.exists_nearer {inner : Client.Call} (hk : item.st.calls k = some inner)
    (hret : ∀ ret, inner.pc ≠ .returned ret) :
    ∃ act item', Client.unanswered item.st act = true ∧ item.step act = some item' ∧
      item'.st.toReturn k < item.st.toReturn k := by
  obtain ⟨hheld, hcloses⟩ := Client.held_run item.reach
  have hlive : Client.Live k item.st := ⟨hheld, hcloses, inner, hk⟩
  have hnot : ¬ Client.Returned k item.st := by
    rintro ⟨inner', ret, hk', hr⟩
    cases hk.symm.trans hk'
    exact hret ret hr
  have hnear : ∃ act u, Client.unanswered item.st act = true ∧
      Client.step item.cfg item.st act = some u ∧ Client.Live k u ∧
      u.toReturn k < item.st.toReturn k := hlive.exists_step hnot
  obtain ⟨act, u, ha, hstep, -, hlt⟩ := hnear
  obtain ⟨item', hs, hst, -⟩ := Item.exists_step hstep
  exact ⟨act, item', ha, hs, by rw [hst]; exact hlt⟩

theorem Item.toReturn_le {inner : Client.Call} (hk : item.st.calls k = some inner) :
    item.st.toReturn k ≤ 71 :=
  (Client.held_run item.reach).1.toReturn_le hk

theorem Item.exists_call (item : Item) (op : Client.Op) :
    ∃ k item', item.step (.call k op) = some item' ∧
      item'.st.calls k = some { op, pc := op.entry } := by
  obtain ⟨k, hk⟩ := Client.exists_unused item.reach
  have hstep : Client.step item.cfg item.st (.call k op) =
      some { item.st with
        calls := Function.update item.st.calls k (some { op, pc := op.entry }) } := by
    simp [Client.step, hk]
  obtain ⟨item', hs, hst, -⟩ := Item.exists_step hstep
  exact ⟨k, item', hs, by rw [hst]; exact Function.update_self ..⟩

def Pc.targets : Pc → List ℕ
  | .install cs => cs
  | pc => pc.pending

def Op.suits : Op → Pc → Bool
  | .add _ _ _, .snapshot => false
  | .add _ _ _, .install _ => false
  | .add _ _ _, _ => true
  | .remove _, .start => true
  | .setErrorHandler _, .start => true
  | .setErrorHandler _, .snapshot => true
  | .setErrorHandler _, .install _ => true
  | .setErrorHandler _, .close _ => false
  | .setErrorHandler _, .closing _ _ _ => false
  | .close, .snapshot => true
  | _, .close _ => true
  | _, .closing _ _ _ => true
  | _, .returned _ => true
  | _, _ => false

def Pc.losing : Pc → Bool
  | .close cs => cs.length ≤ 1
  | .closing _ _ cs => cs.length = 0
  | _ => false

structure Ready (s : St) : Prop where
  books : Books s
  stocked : ∀ c, c < s.nitems → ∃ item, s.items c = some item
  targets : ∀ j call c, s.calls j = some call → c ∈ call.pc.targets → c < s.nitems
  suits : ∀ j call, s.calls j = some call → call.op.suits call.pc = true
  locked : ∀ j, s.mutex = some j → ∃ call, s.calls j = some call ∧ call.pc.losing = true ∧
    ∃ net addr rate, call.op = .add net addr rate

theorem ready_new : Ready newPool where
  books := books_new
  stocked := fun _ h => absurd h (Nat.not_lt_zero _)
  targets := fun _ _ _ h => by cases h
  suits := fun _ _ h => by cases h
  locked := fun _ h => by cases h

theorem Books.mem_entries_lt (hb : Books s)
    (h : c ∈ s.clients.entries.map (fun e => e.2.client)) : c < s.nitems := by
  obtain ⟨e, he, rfl⟩ := List.mem_map.mp h
  obtain ⟨item, hitem, -⟩ := hb.entries e.1 e.2 (AList.mem_lookup_iff.mpr he)
  exact hb.lt_nitems hitem

theorem Ready.not_holder (hi : Ready s) (hcall : s.calls i = some call)
    (hl : call.pc.losing = false) : s.mutex ≠ some i := by
  intro h
  obtain ⟨holder, hholder, hlosing, -⟩ := hi.locked i h
  cases hcall.symm.trans hholder
  simp [hl] at hlosing

theorem Ready.stocked_kept (hi : Ready s) (hm : Move s a t) (hc : c < s.nitems) :
    ∃ item, t.items c = some item := by
  obtain ⟨item, hitem⟩ := hi.stocked c hc
  obtain ⟨item', hitem', -⟩ := hm.kept (hi.books.fresh _ le_rfl) c item hitem
  exact ⟨item', hitem'⟩

theorem Ready.moved (hi : Ready s) (hm : Move s a t)
    (hcalls : t.calls = Function.update s.calls i (some call')) (hn : s.nitems ≤ t.nitems)
    (hst : ∀ c, s.nitems ≤ c → c < t.nitems → ∃ item, t.items c = some item)
    (htg : ∀ c ∈ call'.pc.targets, c < t.nitems) (hsu : call'.op.suits call'.pc = true)
    (hl : t.mutex = none ∨ (t.mutex = some i ∧ call'.pc.losing = true ∧
      ∃ net addr rate, call'.op = .add net addr rate) ∨ t.mutex = s.mutex ∧ s.mutex ≠ some i) :
    Ready t where
  books := hi.books.move hm
  stocked := by
    intro c hc
    by_cases hlt : c < s.nitems
    · exact hi.stocked_kept hm hlt
    · exact hst c (not_lt.mp hlt) hc
  targets := by
    rw [hcalls]
    have hall := forall_update (P := fun (_ : ℕ) (call : Call) =>
      ∀ c ∈ call.pc.targets, c < t.nitems) (i := i) (f := s.calls) htg
      (fun j call hj c hc => (hi.targets j call c hj hc).trans_le hn)
    exact fun j call c hj => hall j call hj c
  suits := by
    rw [hcalls]
    exact forall_update (P := fun (_ : ℕ) (call : Call) => call.op.suits call.pc = true) hsu
      hi.suits
  locked := by
    intro j hj
    rw [hcalls]
    rcases hl with hnone | ⟨hmu, hlosing, hadd⟩ | ⟨hmu, hne⟩
    · cases hnone.symm.trans hj
    · cases hmu.symm.trans hj
      exact ⟨call', Function.update_self .., hlosing, hadd⟩
    · rw [hmu] at hj
      have hji : j ≠ i := by
        rintro rfl
        exact hne hj
      rw [Function.update_of_ne hji]
      exact hi.locked j hj

theorem suits_closing {op : Op} {cs : List ℕ} (h : op.suits (.close (c :: cs)) = true) :
    op.suits (.closing c k cs) = true := by
  cases op <;> first | rfl | exact h

theorem suits_close {op : Op} {cs : List ℕ} (h : op.suits (.closing c k cs) = true) :
    op.suits (.close cs) = true := by
  cases op <;> first | rfl | exact h

theorem suits_returned (op : Op) (ret : Ret) : op.suits (.returned ret) = true := by
  cases op <;> rfl

theorem Ready.keeps_lock (hi : Ready s) (hcall : s.calls i = some call) (hop : call'.op = call.op)
    (hmu : t.mutex = s.mutex) (hl : call.pc.losing = true → call'.pc.losing = true) :
    t.mutex = none ∨ (t.mutex = some i ∧ call'.pc.losing = true ∧
      ∃ net addr rate, call'.op = .add net addr rate) ∨ t.mutex = s.mutex ∧ s.mutex ≠ some i := by
  by_cases hh : s.mutex = some i
  · obtain ⟨holder, hholder, hlosing, hadd⟩ := hi.locked i hh
    cases hcall.symm.trans hholder
    exact Or.inr (Or.inl ⟨hmu.trans hh, hl hlosing, hop ▸ hadd⟩)
  · exact Or.inr (Or.inr ⟨hmu, hh⟩)

theorem Ready.move (hi : Ready s) (hm : Move s a t) : Ready t := by
  have hm' := hm
  have hlt : ∀ {n : ℕ} {P : ℕ → Prop}, ∀ c, n ≤ c → c < n → P c :=
    fun c h h' => absurd h' (not_lt.mpr h)
  cases hm with
  | @begin i op h =>
    refine hi.moved hm' rfl le_rfl hlt ?_ ?_ (Or.inr (Or.inr ⟨rfl, ?_⟩))
    · cases op <;> simp [Op.entry, Pc.targets, Pc.pending]
    · cases op <;> rfl
    · intro hmu
      obtain ⟨holder, hholder, -⟩ := hi.locked i hmu
      cases h.symm.trans hholder
  | client hc hs =>
    exact ⟨hi.books.move hm', fun c hc => hi.stocked_kept hm' hc, hi.targets, hi.suits, hi.locked⟩
  | present h hpc hop hmu hl =>
    exact hi.moved hm' rfl le_rfl hlt (by simp [Pc.targets, Pc.pending]) (suits_returned _ _)
      (Or.inl hmu)
  | missing h hpc hop hmu hl =>
    exact hi.moved hm' rfl le_rfl hlt (by simp [Pc.targets, Pc.pending]) (by rw [hop]; rfl)
      (Or.inl hmu)
  | @removed i call addr entry h hpc hop hmu hl =>
    refine hi.moved hm' rfl le_rfl hlt ?_ (by rw [hop]; rfl) (Or.inl hmu)
    intro c hc
    obtain rfl := List.mem_singleton.mp hc
    obtain ⟨item, hitem, -⟩ := hi.books.entries addr entry hl
    exact hi.books.lt_nitems hitem
  | absent h hpc hop hmu hl =>
    exact hi.moved hm' rfl le_rfl hlt (by simp [Pc.targets, Pc.pending]) (suits_returned _ _)
      (Or.inl hmu)
  | store h hpc hop =>
    exact hi.moved hm' rfl le_rfl hlt (by simp [Pc.targets, Pc.pending]) (by rw [hop]; rfl)
      (Or.inr (Or.inr ⟨rfl, hi.not_holder h (by rw [hpc]; rfl)⟩))
  | dialFailed h hpc hop =>
    exact hi.moved hm' rfl le_rfl hlt (by simp [Pc.targets, Pc.pending]) (suits_returned _ _)
      (Or.inr (Or.inr ⟨rfl, hi.not_holder h (by rw [hpc]; rfl)⟩))
  | dialled h hpc hop =>
    refine hi.moved hm' rfl (Nat.le_succ _) ?_ ?_ (by rw [hop]; rfl)
      (Or.inr (Or.inr ⟨rfl, hi.not_holder h (by rw [hpc]; rfl)⟩))
    · intro c hge hc
      have heq : c = s.nitems := le_antisymm (Nat.lt_succ_iff.mp hc) hge
      rw [heq]
      exact ⟨_, Function.update_self ..⟩
    · intro c hc
      rw [List.mem_singleton.mp hc]
      exact Nat.lt_succ_self _
  | @handler i call c item h hpc hc =>
    refine hi.moved hm' rfl le_rfl hlt ?_ ?_
      (Or.inr (Or.inr ⟨rfl, hi.not_holder h (by rw [hpc]; rfl)⟩))
    · intro d hd
      rw [List.mem_singleton.mp hd]
      exact hi.books.lt_nitems hc
    · have hsu := hi.suits i call h
      rw [hpc] at hsu
      cases hop : call.op <;> rw [hop] at hsu <;> first | rfl | cases hsu
  | @lost i call c net addr rate entry h hpc hop hmu hl =>
    refine hi.moved hm' rfl le_rfl hlt ?_ (by rw [hop]; rfl)
      (Or.inr (Or.inl ⟨rfl, rfl, net, addr, rate, hop⟩))
    intro d hd
    refine hi.targets i call d h ?_
    rw [hpc]
    exact hd
  | inserted h hpc hop hmu hl =>
    exact hi.moved hm' rfl le_rfl hlt (by simp [Pc.targets, Pc.pending]) (suits_returned _ _)
      (Or.inl hmu)
  | closeAll h hpc hop hmu hs =>
    refine hi.moved hm' rfl le_rfl hlt ?_ (by rw [hop]; rfl) (Or.inl hmu)
    intro c hc
    exact hi.books.mem_entries_lt (hs.mem_iff.mp hc)
  | installAll h hpc hop hmu hs =>
    refine hi.moved hm' rfl le_rfl hlt ?_ (by rw [hop]; rfl) (Or.inl hmu)
    intro c hc
    exact hi.books.mem_entries_lt (hs.mem_iff.mp hc)
  | @enter i k call c cs item item' h hpc hc hs =>
    have hsu := hi.suits i call h
    rw [hpc] at hsu
    refine hi.moved hm' rfl le_rfl hlt ?_ (suits_closing hsu) (hi.keeps_lock h rfl rfl ?_)
    · intro d hd
      refine hi.targets i call d h ?_
      rw [hpc]
      exact hd
    · rw [hpc]
      simp [Pc.losing]
  | @closed i call c k cs item inner ret h hpc hc hk hr =>
    have hsu := hi.suits i call h
    rw [hpc] at hsu
    refine hi.moved hm' rfl le_rfl hlt ?_ (suits_close hsu) (hi.keeps_lock h rfl rfl ?_)
    · intro d hd
      refine hi.targets i call d h ?_
      rw [hpc]
      exact List.mem_cons_of_mem _ hd
    · rw [hpc]
      simp only [Pc.losing, decide_eq_true_eq]
      omega
  | @finish i call h hpc =>
    refine hi.moved hm' rfl le_rfl hlt (by simp [Pc.targets, Pc.pending]) (suits_returned _ _) ?_
    cases hop : call.op with
    | add net addr rate => exact Or.inl (by simp [finishStep, St.setPc, hop])
    | _ =>
      refine Or.inr (Or.inr ⟨by simp [finishStep, St.setPc, hop], ?_⟩)
      intro hmu
      obtain ⟨holder, hholder, -, net, addr, rate, hadd⟩ := hi.locked i hmu
      cases h.symm.trans hholder
      cases hop.symm.trans hadd
  | @install i call c cs item handler h hpc hop hc =>
    refine hi.moved hm' rfl le_rfl hlt ?_ (by rw [hop]; rfl)
      (Or.inr (Or.inr ⟨rfl, hi.not_holder h (by rw [hpc]; rfl)⟩))
    intro d hd
    refine hi.targets i call d h ?_
    rw [hpc]
    exact List.mem_cons_of_mem _ hd
  | installed h hpc =>
    exact hi.moved hm' rfl le_rfl hlt (by simp [Pc.targets, Pc.pending]) (suits_returned _ _)
      (Or.inr (Or.inr ⟨rfl, hi.not_holder h (by rw [hpc]; rfl)⟩))

/-- An upper bound on the steps a call still has to take; `n` is the number of entries. -/
def Pc.rank (items : ℕ → Option Item) (n : ℕ) : Pc → ℕ
  | .start => 83 + 75 * n
  | .dial => 80
  | .dialled _ => 79
  | .insert _ => 78
  | .snapshot => 2 + 75 * n
  | .close cs => 1 + 75 * cs.length
  | .closing c k cs => 2 + (items c).elim 0 (fun item => item.st.toReturn k) + 75 * cs.length
  | .install cs => 1 + cs.length
  | .returned _ => 0

def St.rankOf (s : St) (j : ℕ) : ℕ :=
  (s.calls j).elim 0 (fun call => call.pc.rank s.items s.clients.entries.length)

/-- Nobody calls the pool, no server says anything, and dials succeed. -/
def quiet (s : St) : Act → Bool
  | .call _ _ => false
  | .dial _ _ err => err.isNone
  | .client c act => (s.items c).any (fun item => Client.unanswered item.st act)
  | _ => true

theorem rankOf_eq (h : s.calls j = some call) :
    s.rankOf j = call.pc.rank s.items s.clients.entries.length := by
  simp [St.rankOf, h]

theorem rankOf_setPc (s : St) (j : ℕ) (call : Call) (pc : Pc) :
    (s.setPc j call pc).rankOf j = pc.rank s.items s.clients.entries.length := by
  simp [St.rankOf, St.setPc]

structure Nearer (s : St) (j : ℕ) (t : St) : Prop where
  rank : t.rankOf j < s.rankOf j
  call : ∃ call, t.calls j = some call
  mutex : t.mutex = none ∨ t.mutex = some j

theorem nearer_setPc (u : St) (pc : Pc) (h : s.calls j = some call)
    (hr : pc.rank u.items u.clients.entries.length <
      call.pc.rank s.items s.clients.entries.length)
    (hmu : u.mutex = none ∨ u.mutex = some j) : Nearer s j (u.setPc j call pc) where
  rank := by
    rw [rankOf_setPc, rankOf_eq h]
    exact hr
  call := ⟨_, Function.update_self ..⟩
  mutex := hmu

theorem exists_caller (u : St) (pc : Pc) (h : s.calls j = some call)
    (hs : callerStep s j call = some (u.setPc j call pc))
    (hr : pc.rank u.items u.clients.entries.length <
      call.pc.rank s.items s.clients.entries.length)
    (hmu : u.mutex = none ∨ u.mutex = some j) :
    ∃ a t, quiet s a = true ∧ step s a = some t ∧ Nearer s j t :=
  ⟨.caller j, u.setPc j call pc, rfl, by simp [step, h, hs], nearer_setPc _ _ h hr hmu⟩

theorem Ready.free (hi : Ready s) (h : s.calls j = some call) (hl : call.pc.losing = false)
    (hmu : s.mutex = none ∨ s.mutex = some j) : s.mutex = none :=
  hmu.resolve_right (hi.not_holder h hl)

theorem Ready.exists_start (hi : Ready s) (h : s.calls j = some call) (hpc : call.pc = .start)
    (hmu : s.mutex = none ∨ s.mutex = some j) :
    ∃ a t, quiet s a = true ∧ step s a = some t ∧ Nearer s j t := by
  have hfree := hi.free h (by rw [hpc]; rfl) hmu
  have hsu := hi.suits j call h
  cases hop : call.op with
  | add net addr rate =>
    cases hl : s.clients.lookup addr with
    | some entry =>
      refine exists_caller (s.setRate addr entry rate) (.returned .added) h ?_ ?_
        (Or.inl hfree)
      · simp [callerStep, hpc, hop, addStep, hfree, hl]
      · simp [hpc, Pc.rank]
    | none =>
      refine exists_caller s .dial h ?_ ?_ (Or.inl hfree)
      · simp [callerStep, hpc, hop, addStep, hfree, hl]
      · simp only [hpc, Pc.rank]
        omega
  | remove addr =>
    cases hl : s.clients.lookup addr with
    | some entry =>
      refine exists_caller { s with clients := s.clients.erase addr } (.close [entry.client])
        h ?_ ?_ (Or.inl hfree)
      · simp [callerStep, hpc, hop, removeStep, hfree, hl]
      · simp only [hpc, Pc.rank, List.length_singleton]
        omega
    | none =>
      refine exists_caller { s with clients := s.clients.erase addr } (.returned .removed)
        h ?_ ?_ (Or.inl hfree)
      · simp [callerStep, hpc, hop, removeStep, hfree, hl]
      · simp [hpc, Pc.rank]
  | setErrorHandler handler =>
    refine exists_caller { s with errorHandler := handler } .snapshot h ?_ ?_ (Or.inl hfree)
    · simp [callerStep, hpc, hop]
    · simp only [hpc, Pc.rank]
      omega
  | close =>
    rw [hop, hpc] at hsu
    cases hsu

theorem Ready.exists_insert (hi : Ready s) (h : s.calls j = some call)
    (hpc : call.pc = .insert c) (hmu : s.mutex = none ∨ s.mutex = some j) :
    ∃ a t, quiet s a = true ∧ step s a = some t ∧ Nearer s j t := by
  have hfree := hi.free h (by rw [hpc]; rfl) hmu
  have hsu := hi.suits j call h
  cases hop : call.op with
  | add net addr rate =>
    cases hl : s.clients.lookup addr with
    | some entry =>
      refine exists_caller { s.setRate addr entry rate with mutex := some j } (.close [c])
        h ?_ ?_ (Or.inr rfl)
      · simp [callerStep, hpc, hop, insertStep, hfree, hl]
      · simp [hpc, Pc.rank]
    | none =>
      refine exists_caller { s with clients := s.clients.insert addr { client := c, rate } }
        (.returned .added) h ?_ ?_ (Or.inl hfree)
      · simp [callerStep, hpc, hop, insertStep, hfree, hl]
      · simp [hpc, Pc.rank]
  | _ =>
    rw [hop, hpc] at hsu
    cases hsu

theorem Ready.exists_snapshot (hi : Ready s) (h : s.calls j = some call)
    (hpc : call.pc = .snapshot) (hmu : s.mutex = none ∨ s.mutex = some j) :
    ∃ a t, quiet s a = true ∧ step s a = some t ∧ Nearer s j t := by
  have hfree := hi.free h (by rw [hpc]; rfl) hmu
  have hsu := hi.suits j call h
  cases hop : call.op with
  | close =>
    refine ⟨.snapshot j (s.clients.entries.map (fun e => e.2.client)), s.setPc j call
      (.close (s.clients.entries.map (fun e => e.2.client))), rfl, ?_,
      nearer_setPc _ _ h ?_ (Or.inl hfree)⟩
    · simp [step, h, snapshotStep, hpc, hfree, hop]
    · simp only [hpc, Pc.rank, List.length_map]
      omega
  | setErrorHandler handler =>
    refine ⟨.snapshot j (s.clients.entries.map (fun e => e.2.client)), s.setPc j call
      (.install (s.clients.entries.map (fun e => e.2.client))), rfl, ?_,
      nearer_setPc _ _ h ?_ (Or.inl hfree)⟩
    · simp [step, h, snapshotStep, hpc, hfree, hop]
    · simp only [hpc, Pc.rank, List.length_map]
      omega
  | _ =>
    rw [hop, hpc] at hsu
    cases hsu

theorem Ready.exists_close (hi : Ready s) (h : s.calls j = some call) {cs : List ℕ}
    (hpc : call.pc = .close cs) (hmu : s.mutex = none ∨ s.mutex = some j) :
    ∃ a t, quiet s a = true ∧ step s a = some t ∧ Nearer s j t := by
  cases cs with
  | nil =>
    refine exists_caller _ (.returned (call.op.ret call.err)) h
      (by simp [callerStep, hpc, finishStep]; rfl) (by simp [hpc, Pc.rank]) ?_
    cases call.op <;> first | exact Or.inl rfl | exact hmu
  | cons c cs =>
    obtain ⟨item, hitem⟩ := hi.stocked c
      (hi.targets j call c h (by simp [hpc, Pc.targets, Pc.pending]))
    obtain ⟨k, item', hs, hk⟩ := item.exists_call .close
    refine ⟨.enter j k, (s.setItem c item').setPc j call (.closing c k cs), rfl, ?_,
      nearer_setPc _ _ h ?_ hmu⟩
    · simp [step, h, enterStep, hpc, hitem, hs]
    · have hle := Item.toReturn_le hk
      simp only [hpc, Pc.rank, St.setItem, Function.update_self, Option.elim_some,
        List.length_cons]
      omega

theorem Ready.exists_closing (hi : Ready s) (h : s.calls j = some call) {cs : List ℕ}
    (hpc : call.pc = .closing c k cs) (hmu : s.mutex = none ∨ s.mutex = some j) :
    ∃ a t, quiet s a = true ∧ step s a = some t ∧ Nearer s j t := by
  obtain ⟨item, inner, hitem, hk, -⟩ := (hi.books.calls j call h).inner c k cs hpc
  by_cases hret : ∃ ret, inner.pc = .returned ret
  · obtain ⟨ret, hret⟩ := hret
    refine ⟨.caller j, s.setPc j { call with err := call.err.insert item.addr ret } (.close cs),
      rfl, ?_, ?_, ⟨_, Function.update_self ..⟩, hmu⟩
    · simp [step, h, callerStep, hpc, closingStep, hitem, hk, hret]
    · rw [rankOf_setPc, rankOf_eq h, hpc]
      simp only [Pc.rank]
      omega
  · rw [not_exists] at hret
    obtain ⟨act, item', ha, hs, hlt⟩ := Item.exists_nearer hk hret
    refine ⟨.client c act, s.setItem c item', by simp [quiet, hitem, ha],
      by simp [step, hitem, hs], ?_, ⟨call, h⟩, hmu⟩
    rw [rankOf_eq h, rankOf_eq (s := s.setItem c item') h, hpc]
    simp only [Pc.rank, St.setItem, Function.update_self, hitem, Option.elim_some]
    omega

theorem Ready.exists_nearer (hi : Ready s) (h : s.calls j = some call)
    (hret : ∀ ret, call.pc ≠ .returned ret) (hmu : s.mutex = none ∨ s.mutex = some j) :
    ∃ a t, quiet s a = true ∧ step s a = some t ∧ Nearer s j t := by
  have hsu := hi.suits j call h
  cases hpc : call.pc with
  | start => exact hi.exists_start h hpc hmu
  | insert c => exact hi.exists_insert h hpc hmu
  | snapshot => exact hi.exists_snapshot h hpc hmu
  | close cs => exact hi.exists_close h hpc hmu
  | closing c k cs => exact hi.exists_closing h hpc hmu
  | returned ret => exact absurd hpc (hret ret)
  | dial =>
    cases hop : call.op with
    | add net addr rate =>
      refine ⟨.dial j ⟨false, 0⟩ none, _, rfl, by simp [step, h, dialStep, hpc, hop]; rfl,
        nearer_setPc _ (.dialled s.nitems) h ?_ ?_⟩
      · simp [hpc, Pc.rank]
      · exact hmu
    | _ =>
      rw [hop, hpc] at hsu
      cases hsu
  | dialled c =>
    obtain ⟨item, hitem⟩ := hi.stocked c
      (hi.targets j call c h (by simp [hpc, Pc.targets, Pc.pending]))
    refine exists_caller (s.setItem c { item with
      errorHandler := s.errorHandler <|> item.errorHandler }) (.insert c) h ?_ ?_ hmu
    · simp [callerStep, hpc, hitem]
    · simp [hpc, Pc.rank]
  | install cs =>
    cases hop : call.op with
    | setErrorHandler handler =>
      cases cs with
      | nil =>
        exact exists_caller s (.returned (call.op.ret call.err)) h (by simp [callerStep, hpc])
          (by simp [hpc, Pc.rank]) hmu
      | cons c cs =>
        obtain ⟨item, hitem⟩ := hi.stocked c
          (hi.targets j call c h (by simp [hpc, Pc.targets]))
        refine exists_caller (s.setItem c { item with errorHandler := handler }) (.install cs)
          h ?_ ?_ hmu
        · simp [callerStep, hpc, hop, hitem]
        · simp [hpc, Pc.rank]
    | _ =>
      rw [hop, hpc] at hsu
      cases hsu

/-- A call that is not kept out of the lock. -/
structure Going (j : ℕ) (s : St) : Prop where
  ready : Ready s
  call : ∃ call, s.calls j = some call
  mutex : s.mutex = none ∨ s.mutex = some j

theorem Going.exists_step (hg : Going j s)
    (hret : ∀ call ret, s.calls j = some call → call.pc ≠ .returned ret) :
    ∃ a t, quiet s a = true ∧ step s a = some t ∧ Going j t ∧ t.rankOf j < s.rankOf j := by
  obtain ⟨call, hcall⟩ := hg.call
  obtain ⟨a, t, ha, hstep, hn⟩ := hg.ready.exists_nearer hcall (hret call · hcall) hg.mutex
  exact ⟨a, t, ha, hstep, ⟨hg.ready.move (step_move hstep), hn.call, hn.mutex⟩, hn.rank⟩

theorem Ready.losing_rank_le (hi : Ready s) (h : s.calls j = some call)
    (hl : call.pc.losing = true) : s.rankOf j ≤ 76 := by
  rw [rankOf_eq h]
  cases hpc : call.pc with
  | close cs =>
    rw [hpc] at hl
    have hlen : cs.length ≤ 1 := by simpa [Pc.losing] using hl
    simp only [Pc.rank]
    omega
  | closing c k cs =>
    rw [hpc] at hl
    have hlen : cs.length = 0 := by simpa [Pc.losing] using hl
    obtain ⟨item, inner, hitem, hk, -⟩ := (hi.books.calls j call h).inner c k cs hpc
    have hle := Item.toReturn_le hk
    simp only [Pc.rank, hitem, Option.elim_some]
    omega
  | _ =>
    rw [hpc] at hl
    cases hl

theorem Ready.release (hi : Ready s) :
    ∃ acts t, run step quiet s acts = some t ∧ (Ready t ∧ t.mutex = none) ∧ acts.length ≤ 76 := by
  cases hmu : s.mutex with
  | none => exact ⟨[], s, rfl, ⟨hi, hmu⟩, Nat.zero_le _⟩
  | some j =>
    obtain ⟨call, hcall, hl, -⟩ := hi.locked j hmu
    have hstart : Going j s := ⟨hi, ⟨call, hcall⟩, Or.inr hmu⟩
    have hnext : ∀ s, Going j s → ¬ (Ready s ∧ s.mutex = none) →
        ∃ a t, quiet s a = true ∧ step s a = some t ∧ Going j t ∧ t.rankOf j < s.rankOf j := by
      intro s hg hnot
      refine hg.exists_step ?_
      intro call ret hcall hpc
      exact hnot ⟨hg.ready, hg.ready.free hcall (by rw [hpc]; rfl) hg.mutex⟩
    obtain ⟨acts, t, hrun, hfree, hlen⟩ :=
      Ranking.exists_run (fun s => s.rankOf j) hnext hstart
    exact ⟨acts, t, hrun, hfree, hlen.trans (hi.losing_rank_le hcall hl)⟩

def Returned (j : ℕ) (s : St) : Prop := ∃ call ret, s.calls j = some call ∧ call.pc = .returned ret

theorem Ready.returns (hi : Ready s) (h : s.calls j = some call) :
    ∃ acts t, run step quiet s acts = some t ∧ Returned j t := by
  obtain ⟨acts, u, hrun, ⟨hu, hfree⟩, -⟩ := hi.release
  have hkept : ∃ call, u.calls j = some call :=
    run_invariant (I := fun s => ∃ call, s.calls j = some call)
      (fun s a t hs _ hstep => by
        obtain ⟨old, hold⟩ := hs
        obtain ⟨new, hnew, -⟩ := (step_move hstep).call_op hold
        exact ⟨new, hnew⟩) hrun ⟨call, h⟩
  have hstart : Going j u := ⟨hu, hkept, Or.inl hfree⟩
  have hnext : ∀ s, Going j s → ¬ Returned j s →
      ∃ a t, quiet s a = true ∧ step s a = some t ∧ Going j t ∧ t.rankOf j < s.rankOf j := by
    intro s hg hnot
    refine hg.exists_step ?_
    intro call ret hcall hpc
    exact hnot ⟨call, ret, hcall, hpc⟩
  obtain ⟨acts', t, hrun', hret, -⟩ := Ranking.exists_run (fun s => s.rankOf j) hnext hstart
  exact ⟨acts ++ acts', t, run_append hrun hrun', hret⟩

end Gearman.Pool

namespace Gearman.Pool.Calls
open Bytes Transition
open Client (AutoincId)

abbrev SelectionHandler := AList (fun _ : Bytes => PoolClient) → Bytes → Bytes

variable {s t : St} {a : Act} {i c k : ℕ} {call : Call} {ai : AutoincId}
variable {handler : SelectionHandler}

/-- As for the pool, and nobody calls it; a server is chosen by the handler. -/
def quiet (handler : SelectionHandler) (s : St) : Act → Bool
  | .pool a => Pool.quiet s.pool a
  | .call _ _ => false
  | .select _ addr => addr = handler s.pool.clients s.last
  | _ => true

def Pc.rank (items : ℕ → Option Item) : Pc → ℕ
  | .start => 75
  | .genId _ => 74
  | .enter _ _ => 73
  | .inside c k => 1 + (items c).elim 0 (fun item => item.st.toReturn k)
  | .returned _ => 0

def St.rankOf (s : St) (i : ℕ) : ℕ := (s.calls i).elim 0 (fun call => call.pc.rank s.pool.items)

def Returned (i : ℕ) (s : St) : Prop :=
  ∃ call ret, s.calls i = some call ∧ call.pc = .returned ret

structure Sound (ai : AutoincId) (s : St) : Prop where
  inv : ∃ x, Inv ai s x
  ready : Ready s.pool

theorem Sound.move (hs : Sound ai s) (hm : Move s a t) : Sound ai t := by
  obtain ⟨⟨x, hx⟩, hready⟩ := hs
  refine ⟨⟨_, hx.move hm⟩, ?_⟩
  rcases hm.pool_step with h | ⟨b, h⟩
  · rw [h]
    exact hready
  · exact hready.move (Pool.step_move h)

theorem sound_run (h : Reachable step always (start ai) s) : Sound ai s :=
  h.invariant ⟨⟨_, inv_start ai⟩, ready_new⟩ (fun _ _ _ hs _ hstep => hs.move (step_move hstep))

theorem run_pool {acts : List Pool.Act} {p : Pool.St}
    (h : run Pool.step Pool.quiet s.pool acts = some p) :
    run step (quiet handler) s (acts.map .pool) = some { s with pool := p } := by
  induction acts generalizing s with
  | nil =>
    cases h
    rfl
  | cons a acts ih =>
    obtain ⟨ha, q, hq, hrest⟩ := run_cons_eq_some.mp h
    refine run_cons_eq_some.mpr ⟨ha, { s with pool := q }, by simp [step, hq], ?_⟩
    exact ih (s := { s with pool := q }) hrest

/-- A call of the pool while nobody holds the lock. -/
structure Going (ai : AutoincId) (i : ℕ) (s : St) : Prop where
  sound : Sound ai s
  call : ∃ call, s.calls i = some call
  mutex : s.pool.mutex = none

theorem rankOf_eq (h : s.calls i = some call) : s.rankOf i = call.pc.rank s.pool.items := by
  simp [St.rankOf, h]

theorem Going.moved {u : St} (hg : Going ai i s) (hcall : s.calls i = some call) (pc : Pc)
    (ha : quiet handler s a = true) (hstep : step s a = some (u.setPc i call pc))
    (hmu : u.pool.mutex = none) (hr : pc.rank u.pool.items < call.pc.rank s.pool.items) :
    ∃ a t, quiet handler s a = true ∧ step s a = some t ∧ Going ai i t ∧
      t.rankOf i < s.rankOf i := by
  refine ⟨a, _, ha, hstep,
    ⟨hg.sound.move (step_move hstep), ⟨_, Function.update_self ..⟩, hmu⟩, ?_⟩
  rw [rankOf_eq hcall, rankOf_eq (s := u.setPc i call pc) (Function.update_self ..)]
  exact hr

theorem rank_chosen (op : Op) (items : ℕ → Option Item) : (op.chosen c).rank items < 75 := by
  cases op <;> simp [Op.chosen, Pc.rank]

theorem Going.exists_start (hg : Going ai i s) (hcall : s.calls i = some call)
    (hpc : call.pc = .start) :
    ∃ a t, quiet handler s a = true ∧ step s a = some t ∧ Going ai i t ∧
      t.rankOf i < s.rankOf i := by
  have hmu := hg.mutex
  cases hs : call.op.server with
  | some addr =>
    have hstep : step s (.lookup i) = some (choose s i call (s.pool.clients.lookup addr)) := by
      simp [step, hcall, lookupStep, hpc, hs, hmu]
    cases hl : s.pool.clients.lookup addr with
    | none =>
      rw [hl] at hstep
      exact hg.moved hcall (.returned .notFound) rfl hstep hmu (by simp [hpc, Pc.rank])
    | some client =>
      rw [hl] at hstep
      refine hg.moved hcall (call.op.chosen client.client) rfl hstep hmu ?_
      rw [hpc]
      exact rank_chosen _ _
  | none =>
    have hselect : quiet handler s (.select i (handler s.pool.clients s.last)) = true := by
      simp [quiet]
    rcases selectServer_ret s.pool (handler s.pool.clients s.last) s.last with
      hsel | ⟨client, -, hsel⟩
    · have hstep : step s (.select i (handler s.pool.clients s.last)) =
          some (s.setPc i call (.returned .notFound)) := by
        simp [step, hcall, selectStep, hpc, hs, hmu, hsel, choose, Except.toOption]
      exact hg.moved hcall (.returned .notFound) hselect hstep hmu (by simp [hpc, Pc.rank])
    · have hstep : step s (.select i (handler s.pool.clients s.last)) =
          some ({ s with last := handler s.pool.clients s.last }.setPc i call
            (call.op.chosen client.client)) := by
        simp [step, hcall, selectStep, hpc, hs, hmu, hsel, choose, Except.toOption]
      refine hg.moved hcall (call.op.chosen client.client) hselect hstep hmu ?_
      rw [hpc]
      exact rank_chosen _ _

theorem Going.exists_enter {op : Client.Op} (hg : Going ai i s) (hcall : s.calls i = some call)
    (hpc : call.pc = .enter c op) :
    ∃ a t, quiet handler s a = true ∧ step s a = some t ∧ Going ai i t ∧
      t.rankOf i < s.rankOf i := by
  obtain ⟨x, hx⟩ := hg.sound.inv
  have hst := hx.calls i call hcall
  simp only [Standing, hpc] at hst
  obtain ⟨⟨item, hitem, -⟩, -⟩ := hst
  obtain ⟨k, item', hs, hk⟩ := item.exists_call op
  refine hg.moved (a := .enter i k) (u := { s with pool := s.pool.setItem c item' }) hcall
    (.inside c k) rfl ?_ hg.mutex ?_
  · simp [step, hcall, enterStep, hpc, hitem, hs]
  · have hle := Item.toReturn_le hk
    simp only [hpc, Pc.rank, Pool.St.setItem, Function.update_self, Option.elim_some]
    omega

theorem Going.exists_inside (hg : Going ai i s) (hcall : s.calls i = some call)
    (hpc : call.pc = .inside c k) :
    ∃ a t, quiet handler s a = true ∧ step s a = some t ∧ Going ai i t ∧
      t.rankOf i < s.rankOf i := by
  obtain ⟨x, hx⟩ := hg.sound.inv
  have hst := hx.calls i call hcall
  simp only [Standing, hpc] at hst
  obtain ⟨-, item, inner, ⟨hitem, -⟩, hk, -⟩ := hst
  by_cases hret : ∃ ret, inner.pc = .returned ret
  · obtain ⟨ret, hret⟩ := hret
    refine hg.moved (a := .leave i) (u := s) hcall
      (.returned (.reply (call.op.named item) ret)) rfl ?_ hg.mutex ?_
    · simp [step, hcall, leaveStep, hpc, hitem, hk, hret]
    · simp [hpc, Pc.rank]
  · rw [not_exists] at hret
    obtain ⟨act, item', ha, hs, hlt⟩ := Item.exists_nearer hk hret
    have hstep : step s (.pool (.client c act)) =
        some { s with pool := s.pool.setItem c item' } := by
      simp [step, Pool.step, hitem, hs]
    refine ⟨_, _, by simp [quiet, Pool.quiet, hitem, ha], hstep,
      ⟨hg.sound.move (step_move hstep), hg.call, hg.mutex⟩, ?_⟩
    rw [rankOf_eq hcall,
      rankOf_eq (s := { s with pool := s.pool.setItem c item' }) hcall, hpc]
    simp only [Pc.rank, Pool.St.setItem, Function.update_self, hitem, Option.elim_some]
    omega

theorem Going.exists_step (hg : Going ai i s) (hret : ¬ Returned i s) :
    ∃ a t, quiet handler s a = true ∧ step s a = some t ∧ Going ai i t ∧
      t.rankOf i < s.rankOf i := by
  obtain ⟨call, hcall⟩ := hg.call
  cases hpc : call.pc with
  | start => exact hg.exists_start hcall hpc
  | genId c =>
    refine hg.moved (a := .genId i) (u := { s with idGen := s.idGen.id.2 }) hcall
      (.enter c (call.op.inner s.idGen.id.1)) rfl ?_ hg.mutex (by simp [hpc, Pc.rank])
    simp [step, hcall, genIdStep, hpc]
  | enter c op => exact hg.exists_enter hcall hpc
  | inside c k => exact hg.exists_inside hcall hpc
  | returned ret => exact absurd ⟨call, ret, hcall, hpc⟩ hret

theorem Sound.rankOf_le (hs : Sound ai s) (hcall : s.calls i = some call) : s.rankOf i ≤ 75 := by
  rw [rankOf_eq hcall]
  cases hpc : call.pc with
  | inside c k =>
    obtain ⟨x, hx⟩ := hs.inv
    have hst := hx.calls i call hcall
    simp only [Standing, hpc] at hst
    obtain ⟨-, item, inner, ⟨hitem, -⟩, hk, -⟩ := hst
    have hle := Item.toReturn_le hk
    simp only [Pc.rank, hitem, Option.elim_some]
    omega
  | _ => simp [Pc.rank]

/-- From every state of a process with a pool, whatever its selection handler names, each call
that goes through the pool can return within 151 steps although no server says anything from then
on, and so can each `Add`, `Remove`, `Close` and `SetErrorHandler`. -/
theorem pool_calls_return (ai : AutoincId) (handler : SelectionHandler) (s : St)
    (h : Reachable step always (start ai) s) :
    (∀ i call, s.calls i = some call → ∃ acts t, run step (quiet handler) s acts = some t ∧
      Returned i t ∧ acts.length ≤ 151) ∧
    ∀ j call, s.pool.calls j = some call → ∃ acts t, run step (quiet handler) s acts = some t ∧
      Pool.Returned j t.pool := by
  have hs := sound_run h
  constructor
  · intro i call hcall
    obtain ⟨acts, p, hrun, ⟨hp, hfree⟩, hlen⟩ := hs.ready.release
    have hrun : run step (quiet handler) s _ = some { s with pool := p } := run_pool hrun
    have hsound : Sound ai { s with pool := p } :=
      run_invariant (fun _ _ _ hs _ hstep => hs.move (step_move hstep)) hrun hs
    have hstart : Going ai i { s with pool := p } := ⟨hsound, ⟨call, hcall⟩, hfree⟩
    obtain ⟨acts', t, hrun', hret, hlen'⟩ :
        ∃ acts t, run step (quiet handler) { s with pool := p } acts = some t ∧ Returned i t ∧
          acts.length ≤ St.rankOf { s with pool := p } i :=
      Ranking.exists_run (fun s => s.rankOf i) (fun s hg hnot => hg.exists_step hnot) hstart
    refine ⟨_, t, run_append hrun hrun', hret, ?_⟩
    have hle := hsound.rankOf_le (i := i) hcall
    rw [List.length_append, List.length_map]
    omega
  · intro j call hcall
    obtain ⟨acts, p, hrun, hret⟩ := hs.ready.returns hcall
    exact ⟨_, _, run_pool hrun, hret⟩

/-- Two `Add`s of one address: the second has lost and closes its client, while a `Do` begins. -/
def lostActs : List Act :=
  [.pool (.call 0 (.add [] [97] 1)), .pool (.call 1 (.add [] [97] 2)), .pool (.caller 0),
    .pool (.caller 1), .pool (.dial 0 poolCfg none), .pool (.dial 1 poolCfg none),
    .pool (.caller 0), .pool (.caller 0), .pool (.caller 1), .pool (.caller 1),
    .call 7 (.submit false [102] [5] 0 none)]

theorem pool_calls_return_behind_add :
    ∃ s acts t, Reachable step always (start ⟨0⟩) s ∧ s.pool.mutex = some 1 ∧
      run step (quiet fun _ last => last) s acts = some t ∧ Returned 7 t ∧
      acts.length ≤ 151 := by
  have hrun : (run step always (start ⟨0⟩) lostActs).map
      (fun s => (s.pool.mutex, (s.calls 7).isSome)) = some (some 1, true) := by decide +kernel
  obtain ⟨s, hs, hst⟩ := Option.map_eq_some_iff.mp hrun
  obtain ⟨hmu, hsome⟩ := Prod.mk.inj hst
  obtain ⟨call, hcall⟩ := Option.isSome_iff_exists.mp hsome
  obtain ⟨acts, t, hacts, hret, hlen⟩ :=
    (pool_calls_return ⟨0⟩ (fun _ last => last) s ⟨lostActs, hs⟩).1 7 call hcall
  exact ⟨s, acts, t, ⟨lostActs, hs⟩, hmu, hacts, hret, hlen⟩

end Gearman.Pool.Calls
