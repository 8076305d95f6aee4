import Gearman.Draws
import Gearman.PoolClients

/-!
# Selection of a server

`SelectWithRate` walks the map once, adds each rate to a running total and draws
below the total. Where the total is zero nothing is drawn, and the first positive
rate equals the total it is drawn against, so the draw always succeeds: the
selection is the first client with a positive rate in the order of iteration.
`SelectRandom` draws one index and is uniform in every order.

The rates are Go ints, and their sum wraps at 64 bits.
-/

namespace Gearman.Pool
open Bytes Transition

structure Candidate where
  addr : Bytes
  rate : ℤ
deriving DecidableEq

def addInt (a b : ℤ) : ℤ := (a + b).bmod (2 ^ 64)

def selectLoop (last : Bytes) : ℤ → List Candidate → Draw Bytes
  | _, [] => .ret last
  | total, item :: rest =>
    let total := addInt total item.rate
    if 0 < total then
      .draw total.toNat
        (fun i => if (i.val : ℤ) < item.rate then .ret item.addr else selectLoop last total rest)
    else selectLoop last total rest

def selectWithRate (order : List Candidate) (last : Bytes) : Draw Bytes := selectLoop last 0 order

/-- The loop of `SelectRandom` for the draw `r`; `i` counts the keys it has passed. -/
def randomLoop (last : Bytes) (r : ℕ) : ℕ → List Bytes → Bytes
  | _, [] => last
  | i, k :: rest => if r = i then k else randomLoop last r (i + 1) rest

def selectRandom (order : List Bytes) (last : Bytes) : Draw Bytes :=
  if order.length = 0 then .ret last
  else .draw order.length (fun r => .ret (randomLoop last r.val 0 order))

def chance (d : Draw Bytes) (addr : Bytes) : ℚ := d.prob (fun a => a = addr)

def total (order : List Candidate) : ℤ := (order.map Candidate.rate).sum

theorem addInt_eq {a b : ℤ} (h₀ : 0 ≤ a + b) (h : a + b < 2 ^ 63) : addInt a b = a + b := by
  rw [addInt, Int.bmod_eq_of_le] <;> omega

theorem total_cons (item : Candidate) (rest : List Candidate) :
    total (item :: rest) = item.rate + total rest := rfl

theorem total_nonneg {order : List Candidate} (h : ∀ c ∈ order, 0 ≤ c.rate) : 0 ≤ total order := by
  apply List.sum_nonneg
  simpa using h

theorem selectLoop_first {pre rest : List Candidate} {first : Candidate} {last : Bytes}
    (hpre : ∀ c ∈ pre, c.rate = 0) (hfirst : 0 < first.rate) (hlt : first.rate < 2 ^ 63)
    (p : Bytes → Bool) :
    (selectLoop last 0 (pre ++ first :: rest)).prob p = if p first.addr then 1 else 0 := by
  induction pre with
  | nil =>
    have htotal : addInt 0 first.rate = first.rate := by
      rw [addInt_eq] <;> omega
    simp only [List.nil_append, selectLoop, htotal, if_pos hfirst]
    apply Draw.prob_draw_const (by omega)
    intro i
    have hi : (i.val : ℤ) < first.rate := by omega
    rw [if_pos hi, Draw.prob_ret]
  | cons c pre ih =>
    have hc : c.rate = 0 := hpre c (by simp)
    have htotal : addInt 0 c.rate = 0 := by rw [hc]; rfl
    simp only [List.cons_append, selectLoop, htotal, lt_irrefl, if_false]
    exact ih (fun d hd => hpre d (by simp [hd]))

theorem exists_first {order : List Candidate} (hrate : ∀ c ∈ order, 0 ≤ c.rate)
    (hpos : 0 < total order) :
    ∃ pre first rest, order = pre ++ first :: rest ∧ (∀ c ∈ pre, c.rate = 0) ∧
      0 < first.rate := by
  induction order with
  | nil => exact absurd hpos (by decide)
  | cons c order ih =>
    by_cases hc : 0 < c.rate
    · exact ⟨[], c, order, rfl, by simp, hc⟩
    · have h0 : c.rate = 0 := le_antisymm (not_lt.mp hc) (hrate c (by simp))
      rw [total_cons, h0, zero_add] at hpos
      obtain ⟨pre, first, rest, rfl, hpre, hfirst⟩ := ih (fun d hd => hrate d (by simp [hd])) hpos
      refine ⟨c :: pre, first, rest, rfl, ?_, hfirst⟩
      intro d hd
      rcases List.mem_cons.mp hd with rfl | hd
      · exact h0
      · exact hpre d hd

theorem total_split (first : Candidate) (rest : List Candidate) {pre : List Candidate}
    (hpre : ∀ c ∈ pre, c.rate = 0) :
    total (pre ++ first :: rest) = first.rate + total rest := by
  induction pre with
  | nil => rfl
  | cons c pre ih =>
    rw [List.cons_append, total_cons, hpre c (by simp), zero_add]
    exact ih (fun d hd => hpre d (by simp [hd]))

theorem total_eq_zero {order : List Candidate} (hrate : ∀ c ∈ order, 0 ≤ c.rate) :
    total order = 0 ↔ ∀ c ∈ order, c.rate = 0 := by
  induction order with
  | nil => simp [total]
  | cons c order ih =>
    have hc := hrate c (by simp)
    have hrest : ∀ d ∈ order, 0 ≤ d.rate := fun d hd => hrate d (by simp [hd])
    have ht := total_nonneg hrest
    rw [total_cons, List.forall_mem_cons, ← ih hrest]
    omega

/-- Whatever the order, the selection is proportional exactly when a single client has
a positive rate. -/
theorem proportional_iff (order : List Candidate) (last : Bytes)
    (haddr : (order.map Candidate.addr).Nodup) (hrate : ∀ c ∈ order, 0 ≤ c.rate)
    (hpos : 0 < total order) (hlt : total order < 2 ^ 63) :
    (∀ c ∈ order, chance (selectWithRate order last) c.addr = c.rate / total order) ↔
      (order.filter (fun c => 0 < c.rate)).length = 1 := by
  obtain ⟨pre, first, rest, rfl, hpre, hfirst⟩ := exists_first hrate hpos
  have hrest : ∀ c ∈ rest, 0 ≤ c.rate := fun c hc => hrate c (by simp [hc])
  have hsum := total_split first rest hpre
  have hchance : ∀ addr, chance (selectWithRate (pre ++ first :: rest) last) addr =
      if first.addr = addr then 1 else 0 := by
    have := total_nonneg hrest
    intro addr
    rw [chance, selectWithRate, selectLoop_first hpre hfirst (by omega)]
    simp only [decide_eq_true_eq]
  have hfilter : (pre ++ first :: rest).filter (fun c => 0 < c.rate) =
      first :: rest.filter (fun c => 0 < c.rate) := by
    have hnil : pre.filter (fun c => 0 < c.rate) = [] :=
      List.filter_eq_nil_iff.mpr (fun c hc => by simp [hpre c hc])
    simp [hnil, hfirst]
  have hone : ((pre ++ first :: rest).filter (fun c => 0 < c.rate)).length = 1 ↔
      total rest = 0 := by
    rw [hfilter, List.length_cons, Nat.add_eq_right, List.length_eq_zero_iff,
      List.filter_eq_nil_iff, total_eq_zero hrest]
    refine forall₂_congr (fun c hc => ?_)
    have := hrest c hc
    simp only [decide_eq_true_eq]
    omega
  rw [hone]
  constructor
  · intro h
    have hq := h first (by simp)
    rw [hchance, if_pos rfl, eq_div_iff (by exact_mod_cast hpos.ne'), one_mul, hsum] at hq
    have hz : first.rate + total rest = first.rate := by exact_mod_cast hq
    omega
  · intro hz c hc
    rw [hsum, hz, add_zero] at hpos hlt ⊢
    rw [hchance]
    have hne : (first.rate : ℚ) ≠ 0 := by exact_mod_cast hfirst.ne'
    by_cases hcf : c = first
    · rw [hcf, if_pos rfl, div_self hne]
    · -- every other client has rate zero and another address
      have hc0 : c.rate = 0 := by
        rcases List.mem_append.mp hc with hc | hc
        · exact hpre c hc
        · rcases List.mem_cons.mp hc with rfl | hc
          · exact absurd rfl hcf
          · exact (total_eq_zero hrest).mp hz c hc
      have haddr' : first.addr ≠ c.addr := fun he =>
        hcf (List.inj_on_of_nodup_map haddr hc (by simp) he.symm)
      rw [if_neg haddr', hc0]
      simp

def lopsided : List Candidate := [⟨[97], 3⟩, ⟨[98], 0⟩]

theorem lopsided_proportional :
    0 < total lopsided ∧
      ∀ c ∈ lopsided, chance (selectWithRate lopsided []) c.addr = c.rate / total lopsided :=
  ⟨by decide,
    (proportional_iff lopsided [] (by decide) (by decide) (by decide) (by decide)).mpr (by decide)⟩

def evenPair : List Candidate := [⟨[97], 1⟩, ⟨[98], 1⟩]

theorem even_pair_not_proportional :
    (evenPair.map Candidate.addr).Nodup ∧ (∀ c ∈ evenPair, 0 ≤ c.rate) ∧ 0 < total evenPair ∧
      total evenPair < 2 ^ 63 ∧ chance (selectWithRate evenPair []) [97] = 1 ∧
      chance (selectWithRate evenPair []) [98] = 0 ∧ (1 : ℚ) / total evenPair = 1 / 2 := by
  refine ⟨by decide, by decide, by decide, by decide, ?_, ?_, ?_⟩
  · exact @selectLoop_first [] _ _ _ (by simp) (by decide) (by decide) (fun a => a = [97])
  · exact @selectLoop_first [] _ _ _ (by simp) (by decide) (by decide) (fun a => a = [98])
  · rw [show total evenPair = 2 from rfl]
    norm_num

inductive SelectErr
  | notFound
deriving DecidableEq, Repr

/-- What the selection reads of an entry; `item.addr` is the client's own. -/
def St.candidate (s : St) (item : PoolClient) : Candidate :=
  ⟨((s.items item.client).map Item.addr).getD [], item.rate⟩

def selected (s : St) (last addr : Bytes) : Except SelectErr PoolClient × Bytes :=
  match s.clients.lookup addr with
  | none => (.error .notFound, last)
  | some client => (.ok client, addr)

/-- `handler` is the pool's `SelectionHandler` on its entries, as this call's iteration finds
them; it is not called on an empty map. The second component is the new `last`. -/
def selectServer (s : St) (handler : Bytes → Draw Bytes) (last : Bytes) :
    Draw (Except SelectErr PoolClient × Bytes) :=
  if s.clients.keys.length = 0 then .ret (.error .notFound, last)
  else (handler last).map (selected s last)

theorem selected_of_lookup {s : St} {addr : Bytes} {client : PoolClient}
    (h : s.clients.lookup addr = some client) (last : Bytes) :
    selected s last addr = (.ok client, addr) := by
  simp [selected, h]

theorem keys_length_ne_zero {s : St} {addr : Bytes} {client : PoolClient}
    (h : s.clients.lookup addr = some client) : ¬ s.clients.keys.length = 0 := by
  have hmem : addr ∈ s.clients.keys := AList.mem_keys.mp (AList.lookup_isSome.mp (by simp [h]))
  exact (List.length_pos_of_mem hmem).ne'

theorem selectServer_ret (s : St) (addr last : Bytes) :
    selectServer s (fun _ => .ret addr) last = .ret (.error .notFound, last) ∨
      ∃ client, s.clients.lookup addr = some client ∧
        selectServer s (fun _ => .ret addr) last = .ret (.ok client, addr) := by
  unfold selectServer
  split_ifs with hempty
  · exact Or.inl rfl
  · cases hl : s.clients.lookup addr with
    | none => exact Or.inl (by simp [Draw.map, selected, hl])
    | some client => exact Or.inr ⟨client, rfl, by simp [Draw.map, selected_of_lookup hl]⟩

theorem Books.candidate {s : St} (h : Books s) {addr : Bytes} {item : PoolClient}
    (hl : s.clients.lookup addr = some item) : s.candidate item = ⟨addr, item.rate⟩ := by
  obtain ⟨it, hit, haddr⟩ := h.entries addr item hl
  simp [St.candidate, hit, haddr]

theorem selectServer_first {s : St} (hs : Reachable step always newPool s)
    {pre rest : List PoolClient} {first : PoolClient} (last : Bytes)
    (horder : (pre ++ first :: rest).Perm (s.clients.entries.map (·.2)))
    (hpre : ∀ c ∈ pre, c.rate = 0) (hfirst : 0 < first.rate) (hlt : first.rate < 2 ^ 63) :
    ∃ addr, s.clients.lookup addr = some first ∧
      (selectServer s (selectWithRate ((pre ++ first :: rest).map s.candidate)) last).prob
        (fun r => r = (.ok first, addr)) = 1 := by
  have hmem : first ∈ s.clients.entries.map (·.2) := horder.subset (by simp)
  obtain ⟨⟨addr, item⟩, hentry, rfl⟩ := List.mem_map.mp hmem
  have hl : s.clients.lookup addr = some item := AList.mem_lookup_iff.mpr hentry
  have hcand := (books_reachable hs).candidate hl
  refine ⟨addr, hl, ?_⟩
  rw [selectServer, if_neg (keys_length_ne_zero hl), Draw.prob_map, List.map_append, List.map_cons,
    hcand, selectWithRate, selectLoop_first _ hfirst hlt]
  · simp [selected_of_lookup hl]
  · intro c hc
    obtain ⟨d, hd, rfl⟩ := List.mem_map.mp hc
    exact hpre d hd

def threeActs : List Act :=
  [.call 0 (.add [] [97] 0), .caller 0, .dial 0 ⟨false, 5⟩ none, .caller 0, .caller 0,
    .call 1 (.add [] [98] 1), .caller 1, .dial 1 ⟨false, 5⟩ none, .caller 1, .caller 1,
    .call 2 (.add [] [99] 2), .caller 2, .dial 2 ⟨false, 5⟩ none, .caller 2, .caller 2]

theorem selectServer_first_of_three :
    ∃ s addr, Reachable step always newPool s ∧
      s.clients.entries.map (·.2) = [⟨2, 2⟩, ⟨1, 1⟩, ⟨0, 0⟩] ∧
      s.clients.lookup addr = some ⟨1, 1⟩ ∧
      (selectServer s (selectWithRate ([⟨0, 0⟩, ⟨1, 1⟩, ⟨2, 2⟩].map s.candidate)) [99]).prob
        (fun r => r = (.ok ⟨1, 1⟩, addr)) = 1 := by
  have hrun : (run step always newPool threeActs).map (fun s => s.clients.entries.map (·.2)) =
      some [⟨2, 2⟩, ⟨1, 1⟩, ⟨0, 0⟩] := by decide +kernel
  obtain ⟨s, hs, hentries⟩ := Option.map_eq_some_iff.mp hrun
  have hperm : ([⟨0, 0⟩] ++ ⟨1, 1⟩ :: [⟨2, 2⟩] : List PoolClient).Perm
      (s.clients.entries.map (·.2)) := by
    rw [hentries]
    decide
  obtain ⟨addr, hl, hprob⟩ :=
    selectServer_first ⟨_, hs⟩ [99] hperm (by simp) (by decide) (by decide)
  exact ⟨s, addr, ⟨_, hs⟩, hentries, hl, hprob⟩

theorem randomLoop_eq (last : Bytes) {r i : ℕ} {order : List Bytes} (hi : i ≤ r)
    (hr : r - i < order.length) : randomLoop last r i order = order.get ⟨r - i, hr⟩ := by
  induction order generalizing i with
  | nil => exact absurd hr (Nat.not_lt_zero _)
  | cons k rest ih =>
    by_cases heq : r = i
    · subst heq
      simp [randomLoop]
    · have hlt : r - (i + 1) < rest.length := by
        rw [List.length_cons] at hr
        omega
      have hsucc : r - i = r - (i + 1) + 1 := by omega
      simp only [randomLoop, if_neg heq, ih (by omega) hlt, hsucc, List.get_eq_getElem,
        List.getElem_cons_succ]

theorem chance_selectRandom (order : List Bytes) (last : Bytes) (hnodup : order.Nodup)
    {addr : Bytes} (hmem : addr ∈ order) :
    chance (selectRandom order last) addr = 1 / order.length := by
  obtain ⟨k, rfl⟩ := List.get_of_mem hmem
  have hne : order.length ≠ 0 := Nat.ne_zero_of_lt k.isLt
  have hloop : ∀ r : Fin order.length, randomLoop last r.val 0 order = order.get r :=
    fun r => randomLoop_eq last (Nat.zero_le _) r.isLt
  have hone : Finset.univ.filter (fun r : Fin order.length =>
      decide (randomLoop last r.val 0 order = order.get k) = true) = {k} := by
    ext r
    simp only [hloop, decide_eq_true_eq, Finset.mem_filter, Finset.mem_univ, true_and,
      Finset.mem_singleton]
    exact hnodup.get_inj_iff
  rw [chance, selectRandom, if_neg hne, Draw.prob_draw_ret, hone]
  simp

theorem selectServer_uniform (s : St) (order : List Bytes) (last : Bytes)
    (horder : order.Perm s.clients.keys) {addr : Bytes} {client : PoolClient}
    (hl : s.clients.lookup addr = some client) :
    (selectServer s (selectRandom order) last).prob (fun r => r = (.ok client, addr)) =
      1 / s.clients.keys.length := by
  have hnodup : order.Nodup := horder.nodup_iff.mpr s.clients.nodupKeys
  have hkey : addr ∈ s.clients.keys := AList.mem_keys.mp (AList.lookup_isSome.mp (by simp [hl]))
  have hgot : ∀ a, decide (selected s last a = (.ok client, addr)) = decide (a = addr) := by
    intro a
    refine decide_eq_decide.mpr ⟨?_, ?_⟩
    · intro h
      unfold selected at h
      split at h
      · cases h
      · cases h
        rfl
    · rintro rfl
      exact selected_of_lookup hl last
  rw [selectServer, if_neg (keys_length_ne_zero hl), Draw.prob_map]
  simp only [hgot]
  rw [← horder.length_eq]
  exact chance_selectRandom order last hnodup (horder.mem_iff.mpr hkey)

theorem selectServer_uniform_of_three :
    ∃ s client, Reachable step always newPool s ∧ s.clients.lookup [98] = some client ∧
      (selectServer s (selectRandom [[97], [98], [99]]) [97]).prob
        (fun r => r = (.ok client, [98])) = 1 / 3 := by
  have hrun : (run step always newPool threeActs).map
      (fun s => (s.clients.keys, s.clients.lookup [98])) =
      some ([[99], [98], [97]], some ⟨1, 1⟩) := by decide +kernel
  obtain ⟨s, hs, hst⟩ := Option.map_eq_some_iff.mp hrun
  obtain ⟨hkeys, hl⟩ := Prod.mk.inj hst
  have hperm : [[97], [98], [99]].Perm s.clients.keys := by
    rw [hkeys]
    decide
  have hprob := selectServer_uniform s _ [97] hperm hl
  rw [hkeys] at hprob
  exact ⟨s, ⟨1, 1⟩, ⟨_, hs⟩, hl, by simpa using hprob⟩

end Gearman.Pool
