import Gearman.PoolMachine

/-!
# Where the clients of a pool are

A client that `New` has made for a call of `Add` is in the hands of that call until it is
an entry of `Clients` or closed, and an entry that `Remove` takes out is in the hands of
that call until it is closed. So no client is forgotten, and every entry of `Clients` is
filed under its own address.
-/

namespace Gearman.Pool
open Bytes Transition

variable {s t : St} {a : Act} {c i : ℕ} {item item' : Item} {call call' : Call}

structure Item.Keeps (item item' : Item) : Prop where
  net : item'.net = item.net
  addr : item'.addr = item.addr
  adder : item'.adder = item.adder
  shut : Client.Shut item.st → Client.Shut item'.st
  calls : ∀ k inner, item.st.calls k = some inner →
    ∃ inner', item'.st.calls k = some inner' ∧ inner'.op = inner.op

theorem Item.keeps_of_st (hnet : item'.net = item.net) (haddr : item'.addr = item.addr)
    (hadder : item'.adder = item.adder) (hst : item'.st = item.st) : item.Keeps item' where
  net := hnet
  addr := haddr
  adder := hadder
  shut h := hst ▸ h
  calls _ inner h := ⟨inner, hst ▸ h, rfl⟩

theorem Item.step_keeps {act : Client.Act} (h : item.step act = some item') :
    item.Keeps item' := by
  obtain ⟨u, hr, hu, rfl⟩ := Item.step_eq_some h
  have hm := Client.step_move hu
  refine ⟨rfl, rfl, rfl, fun hs => hs.move hm, fun k inner hk => ?_⟩
  obtain ⟨inner', hk', hadv⟩ := hm.call hk
  exact ⟨inner', hk', hadv.op⟩

def Kept (s t : St) : Prop :=
  ∀ c item, s.items c = some item → ∃ item', t.items c = some item' ∧ item.Keeps item'

theorem kept_of_eq (h : t.items = s.items) : Kept s t :=
  fun _ item hc => ⟨item, h ▸ hc, Item.keeps_of_st rfl rfl rfl rfl⟩

theorem kept_update (h : t.items = Function.update s.items c (some item'))
    (hitem : ∀ item, s.items c = some item → item.Keeps item') : Kept s t := by
  intro d old hd
  by_cases hdc : d = c
  · subst hdc
    exact ⟨item', by rw [h, Function.update_self], hitem old hd⟩
  · exact ⟨old, by rw [h, Function.update_of_ne hdc, hd], Item.keeps_of_st rfl rfl rfl rfl⟩

theorem kept_set (h : t.items = Function.update s.items c (some item'))
    (hc : s.items c = some item) (hk : item.Keeps item') : Kept s t := by
  refine kept_update h ?_
  intro old hold
  cases hc.symm.trans hold
  exact hk

def Pc.pending : Pc → List ℕ
  | .dialled c => [c]
  | .insert c => [c]
  | .close cs => cs
  | .closing c _ cs => c :: cs
  | _ => []

/-- The clients only this call can still lose. `Pool.Close` closes entries. -/
def Call.custody (call : Call) : List ℕ :=
  match call.op with
  | .add _ _ _ => call.pc.pending
  | .remove _ => call.pc.pending
  | _ => []

def Op.Charged (i : ℕ) (item : Item) : Op → Prop
  | .add net addr _ => item.net = net ∧ item.addr = addr ∧ item.adder = i
  | .remove addr => item.addr = addr
  | _ => False

theorem Call.mem_pending (h : c ∈ call.custody) : c ∈ call.pc.pending := by
  unfold Call.custody at h
  split at h
  · exact h
  · exact h
  · cases h

theorem Op.Charged.keeps {op : Op} (h : op.Charged i item) (hk : item.Keeps item') :
    op.Charged i item' := by
  cases op with
  | add net addr rate => exact ⟨hk.net.trans h.1, hk.addr.trans h.2.1, hk.adder.trans h.2.2⟩
  | remove addr => exact hk.addr.trans h
  | _ => exact h

structure Call.Sound (s : St) (i : ℕ) (call : Call) : Prop where
  charged : ∀ c ∈ call.custody, ∃ item, s.items c = some item ∧ call.op.Charged i item
  inner : ∀ c k cs, call.pc = .closing c k cs →
    ∃ item inner, s.items c = some item ∧ item.st.calls k = some inner ∧ inner.op = .close

theorem Call.Sound.kept (h : call.Sound s i) (hk : Kept s t) : call.Sound t i where
  charged c hc := by
    obtain ⟨item, hitem, hch⟩ := h.charged c hc
    obtain ⟨item', hitem', hkeeps⟩ := hk c item hitem
    exact ⟨item', hitem', hch.keeps hkeeps⟩
  inner c k cs hpc := by
    obtain ⟨item, inner, hitem, hinner, hop⟩ := h.inner c k cs hpc
    obtain ⟨item', hitem', hkeeps⟩ := hk c item hitem
    obtain ⟨inner', hinner', hop'⟩ := hkeeps.calls k inner hinner
    exact ⟨item', inner', hitem', hinner', hop'.trans hop⟩

theorem Call.sound_idle (h : call.pc.pending = []) : call.Sound s i where
  charged c hc := by
    have hp := Call.mem_pending hc
    rw [h] at hp
    cases hp
  inner c k cs hpc := by
    rw [hpc] at h
    cases h

theorem Call.custody_mono (hop : call'.op = call.op)
    (hsub : c ∈ call'.pc.pending → c ∈ call.pc.pending) (hc : c ∈ call'.custody) :
    c ∈ call.custody := by
  unfold Call.custody at hc ⊢
  rw [hop] at hc
  split at hc
  · exact hsub hc
  · exact hsub hc
  · cases hc

theorem Call.Sound.fewer (h : call.Sound s i) (hop : call'.op = call.op)
    (hsub : ∀ c ∈ call'.pc.pending, c ∈ call.pc.pending) :
    ∀ c ∈ call'.custody, ∃ item, s.items c = some item ∧ call'.op.Charged i item := by
  intro c hc
  rw [hop]
  exact h.charged c (Call.custody_mono hop (hsub c) hc)

def Entry (s : St) (c : ℕ) (addr : Bytes) : Prop :=
  ∃ entry, s.clients.lookup addr = some entry ∧ entry.client = c

def Entrusted (s : St) (c : ℕ) : Prop :=
  ∃ j call, s.calls j = some call ∧ c ∈ call.custody

structure Books (s : St) : Prop where
  fresh : ∀ c, s.nitems ≤ c → s.items c = none
  entries : ∀ addr entry, s.clients.lookup addr = some entry →
    ∃ item, s.items entry.client = some item ∧ item.addr = addr
  adders : ∀ c item, s.items c = some item →
    ∃ call rate, s.calls item.adder = some call ∧ call.op = .add item.net item.addr rate
  calls : ∀ j call, s.calls j = some call → call.Sound s j
  found : ∀ c item, s.items c = some item →
    Client.Shut item.st ∨ Entry s c item.addr ∨ Entrusted s c

theorem books_new : Books newPool where
  fresh _ _ := rfl
  entries _ _ h := by cases h
  adders _ _ h := by cases h
  calls _ _ h := by cases h
  found _ _ h := by cases h

theorem Move.kept (hf : s.items s.nitems = none) (hm : Move s a t) : Kept s t := by
  cases hm with
  | dialled h hpc hop =>
    refine kept_update rfl ?_
    intro item hitem
    cases hf.symm.trans hitem
  | handler h hpc hc => exact kept_set rfl hc (Item.keeps_of_st rfl rfl rfl rfl)
  | install h hpc hop hc => exact kept_set rfl hc (Item.keeps_of_st rfl rfl rfl rfl)
  | enter h hpc hc hs => exact kept_set rfl hc (Item.step_keeps hs)
  | client hc hs => exact kept_set rfl hc (Item.step_keeps hs)
  | _ => exact kept_of_eq rfl

theorem Move.new_item (hm : Move s a t) (hn : s.items c = none) (hc : t.items c = some item) :
    c < t.nitems ∧ ∃ call rate, t.calls item.adder = some call ∧
      call.op = .add item.net item.addr rate ∧ c ∈ call.custody := by
  have old : ∀ {d : ℕ} {x y : Item}, s.items d = some x →
      Function.update s.items d (some y) c ≠ some item := by
    intro d x y hd hupd
    rcases update_eq_some hupd with ⟨rfl, -⟩ | ⟨-, hold⟩
    · cases hn.symm.trans hd
    · cases hn.symm.trans hold
  cases hm with
  | dialled h hpc hop =>
    rcases update_eq_some hc with ⟨rfl, rfl⟩ | ⟨-, hold⟩
    · refine ⟨Nat.lt_succ_self _, _, _, Function.update_self .., hop, ?_⟩
      simp [Call.custody, hop, Pc.pending]
    · cases hn.symm.trans hold
  | handler h hpc hd => exact absurd hc (old hd)
  | install h hpc hop hd => exact absurd hc (old hd)
  | enter h hpc hd hs => exact absurd hc (old hd)
  | client hd hs => exact absurd hc (old hd)
  | _ => cases hn.symm.trans hc

theorem Item.step_begin {k : ℕ} (h : item.step (.call k .close) = some item') :
    ∃ inner, item'.st.calls k = some inner ∧ inner.op = .close := by
  obtain ⟨u, hr, hu, rfl⟩ := Item.step_eq_some h
  simp only [Client.step] at hu
  split at hu
  · cases hu
  · cases hu
    exact ⟨_, Function.update_self .., rfl⟩

inductive Passes (s t : St) (i : ℕ) (call call' : Call) : Prop
  | idle (h : call.pc.pending = []) (h' : call'.pc.pending = [])
  | snapshot (hop : call.op = .close) (hpc : ∀ c k cs, call'.pc ≠ .closing c k cs)
  | dialled {net addr : Bytes} {rate : ℤ} {cfg : Client.Cfg} (hop : call.op = .add net addr rate)
      (h : call.pc.pending = []) (h' : call'.pc = .dialled s.nitems)
      (hc : t.items s.nitems = some (.new net addr i cfg))
  | removed {addr : Bytes} {entry : PoolClient} (hop : call.op = .remove addr)
      (h : call.pc.pending = []) (h' : call'.pc = .close [entry.client])
      (hl : s.clients.lookup addr = some entry)
  | goesOn (h : call'.pc.pending = call.pc.pending) (hpc : ∀ c k cs, call'.pc ≠ .closing c k cs)
  | inserted {c : ℕ} {net addr : Bytes} {rate : ℤ} (hop : call.op = .add net addr rate)
      (h : call.pc.pending = [c]) (h' : call'.pc.pending = [])
      (hl : t.clients.lookup addr = some ⟨c, rate⟩)
  | enter {c k : ℕ} {cs : List ℕ} {item : Item} {inner : Client.Call}
      (h : call.pc.pending = c :: cs) (h' : call'.pc = .closing c k cs)
      (hc : t.items c = some item) (hi : item.st.calls k = some inner) (hop : inner.op = .close)
  | closed {c k : ℕ} {cs : List ℕ} {item : Item} {inner : Client.Call} {ret : Client.Ret}
      (h : call.pc = .closing c k cs) (h' : call'.pc = .close cs) (hc : s.items c = some item)
      (hi : item.st.calls k = some inner) (hr : inner.pc = .returned ret)

inductive Shift (s t : St) : Prop
  | stay (h : t.calls = s.calls)
  | begin {i : ℕ} {op : Op} (hnew : s.calls i = none)
      (h : t.calls = Function.update s.calls i (some { op, pc := op.entry }))
  | moves {i : ℕ} {call call' : Call} (h : t.calls = Function.update s.calls i (some call'))
      (hcall : s.calls i = some call) (hop : call'.op = call.op) (hp : Passes s t i call call')

theorem shift_idle {pc : Pc} (h : t.calls = Function.update s.calls i (some { call with pc }))
    (hcall : s.calls i = some call) (hp : call.pc.pending = []) (hp' : pc.pending = []) :
    Shift s t :=
  .moves h hcall rfl (.idle hp hp')

theorem Move.shift (hm : Move s a t) : Shift s t := by
  cases hm with
  | begin i op h => exact .begin h rfl
  | client hc hs => exact .stay rfl
  | present h hpc hop hmu hl => exact shift_idle rfl h (by rw [hpc]; rfl) rfl
  | missing h hpc hop hmu hl => exact shift_idle rfl h (by rw [hpc]; rfl) rfl
  | absent h hpc hop hmu hl => exact shift_idle rfl h (by rw [hpc]; rfl) rfl
  | store h hpc hop => exact shift_idle rfl h (by rw [hpc]; rfl) rfl
  | dialFailed h hpc hop => exact shift_idle rfl h (by rw [hpc]; rfl) rfl
  | installAll h hpc hop hmu hs => exact shift_idle rfl h (by rw [hpc]; rfl) rfl
  | finish h hpc => exact shift_idle rfl h (by rw [hpc]; rfl) rfl
  | install h hpc hop hc => exact shift_idle rfl h (by rw [hpc]; rfl) rfl
  | installed h hpc => exact shift_idle rfl h (by rw [hpc]; rfl) rfl
  | removed h hpc hop hmu hl =>
    exact .moves rfl h rfl (.removed hop (by rw [hpc]; rfl) rfl hl)
  | dialled h hpc hop =>
    exact .moves rfl h rfl (.dialled hop (by rw [hpc]; rfl) rfl (Function.update_self ..))
  | handler h hpc hc => exact .moves rfl h rfl (.goesOn (by rw [hpc]; rfl) (by simp))
  | lost h hpc hop hmu hl => exact .moves rfl h rfl (.goesOn (by rw [hpc]; rfl) (by simp))
  | inserted h hpc hop hmu hl =>
    exact .moves rfl h rfl (.inserted hop (by rw [hpc]; rfl) rfl (AList.lookup_insert _))
  | closeAll h hpc hop hmu hs => exact .moves rfl h rfl (.snapshot hop (by simp))
  | enter h hpc hc hs =>
    obtain ⟨inner, hi, hop⟩ := Item.step_begin hs
    exact .moves rfl h rfl (.enter (by rw [hpc]; rfl) rfl (Function.update_self ..) hi hop)
  | closed h hpc hc hi hr => exact .moves rfl h rfl (.closed hpc rfl hc hi hr)

theorem Move.call_op {j : ℕ} (hm : Move s a t) (hcall : s.calls j = some call) :
    ∃ call', t.calls j = some call' ∧ call'.op = call.op := by
  cases hm.shift with
  | stay h => exact ⟨call, h ▸ hcall, rfl⟩
  | @begin i op hnew h =>
    have hij : j ≠ i := by
      rintro rfl
      cases hnew.symm.trans hcall
    exact ⟨call, by rw [h, Function.update_of_ne hij, hcall], rfl⟩
  | @moves i old new h hold hop hp =>
    by_cases hij : j = i
    · subst hij
      cases hold.symm.trans hcall
      exact ⟨new, by rw [h, Function.update_self], hop⟩
    · exact ⟨call, by rw [h, Function.update_of_ne hij, hcall], rfl⟩

theorem Passes.sound (hb : Books s) (hk : Kept s t) (hcall : s.calls i = some call)
    (hop : call'.op = call.op) (hp : Passes s t i call call') : call'.Sound t i := by
  have hs : call.Sound t i := (hb.calls i call hcall).kept hk
  cases hp with
  | idle h h' => exact Call.sound_idle h'
  | inserted hadd h h' hl => exact Call.sound_idle h'
  | goesOn h hpc =>
    exact ⟨hs.fewer hop (by simp [h]), fun c k cs heq => absurd heq (hpc c k cs)⟩
  | closed h h' hc hi hr =>
    exact ⟨hs.fewer hop (by simp_all [Pc.pending]), by simp [h']⟩
  | enter h h' hc hi hin =>
    refine ⟨hs.fewer hop (fun _ => by rw [h, h']; exact id), ?_⟩
    intro d l ds heq
    cases h'.symm.trans heq
    exact ⟨_, _, hc, hi, hin⟩
  | snapshot hclose hpc =>
    refine ⟨?_, fun c k cs heq => absurd heq (hpc c k cs)⟩
    simp [Call.custody, hop, hclose]
  | dialled hadd h h' hc =>
    refine ⟨?_, by simp [h']⟩
    simp [Call.custody, hop, hadd, h', Pc.pending, hc, Op.Charged, Item.new]
  | removed hrem h h' hl =>
    refine ⟨?_, by simp [h']⟩
    obtain ⟨item, hitem, haddr⟩ := hb.entries _ _ hl
    obtain ⟨item', hitem', hkeeps⟩ := hk _ _ hitem
    simp [Call.custody, hop, hrem, h', Pc.pending, hitem', Op.Charged, hkeeps.addr, haddr]

theorem Books.sound (hb : Books s) (hm : Move s a t) (hk : Kept s t) (j : ℕ) (call : Call)
    (hj : t.calls j = some call) : call.Sound t j := by
  cases hm.shift with
  | stay h => exact (hb.calls j call (h ▸ hj)).kept hk
  | @begin i op hnew h =>
    rw [h] at hj
    rcases update_eq_some hj with ⟨rfl, rfl⟩ | ⟨-, hold⟩
    · exact Call.sound_idle (by cases op <;> rfl)
    · exact (hb.calls j call hold).kept hk
  | moves h hcall hop hp =>
    rw [h] at hj
    rcases update_eq_some hj with ⟨rfl, rfl⟩ | ⟨-, hold⟩
    · exact hp.sound hb hk hcall hop
    · exact (hb.calls j call hold).kept hk

theorem Passes.custody (hb : Books s) (hcall : s.calls i = some call) (hop : call'.op = call.op)
    (hp : Passes s t i call call') (hitem : s.items c = some item) (hc : c ∈ call.custody) :
    c ∈ call'.custody ∨ Entry t c item.addr ∨ Client.Shut item.st := by
  have hs : call.Sound s i := hb.calls i call hcall
  have hpend := Call.mem_pending hc
  cases hp with
  | idle h h' => simp [h] at hpend
  | dialled hadd h h' hd => simp [h] at hpend
  | removed hrem h h' hl => simp [h] at hpend
  | snapshot hclose hpc => simp [Call.custody, hclose] at hc
  | goesOn h hpc => exact Or.inl (Call.custody_mono hop.symm (by simp [h]) hc)
  | enter h h' hd hi hin =>
    exact Or.inl (Call.custody_mono hop.symm (by rw [h, h']; exact id) hc)
  | inserted hadd h h' hl =>
    -- the call files the client under its own argument, which is the client's address
    obtain ⟨item', hitem', hch⟩ := hs.charged c hc
    cases hitem.symm.trans hitem'
    rw [hadd] at hch
    obtain rfl : c = _ := by simpa [h] using hpend
    exact Or.inr (Or.inl ⟨_, hch.2.1 ▸ hl, rfl⟩)
  | @closed d k ds other inner ret h h' hd hi hr =>
    by_cases hcd : c = d
    · -- what has returned in the client is a call to its `Close`, and that leaves it shut
      subst hcd
      obtain ⟨other', inner', hd', hi', hclose⟩ := hs.inner c k ds h
      cases hd.symm.trans hitem
      cases hd.symm.trans hd'
      cases hi.symm.trans hi'
      have horderly := (Client.orderly_new item.cfg).run item.reach
      exact Or.inr (Or.inr (horderly.shut ⟨k, inner, ret, hi, hclose, hr⟩))
    · refine Or.inl (Call.custody_mono hop.symm ?_ hc)
      rw [h, h']
      exact fun hmem => (List.mem_cons.mp hmem).resolve_left hcd

theorem Books.entrusted (hb : Books s) (hm : Move s a t) (hitem : s.items c = some item)
    (he : Entrusted s c) : Entrusted t c ∨ Entry t c item.addr ∨ Client.Shut item.st := by
  obtain ⟨j, call, hj, hc⟩ := he
  cases hm.shift with
  | stay h => exact Or.inl ⟨j, call, h ▸ hj, hc⟩
  | @begin i op hnew h =>
    have hij : j ≠ i := by
      rintro rfl
      cases hnew.symm.trans hj
    exact Or.inl ⟨j, call, by rw [h, Function.update_of_ne hij, hj], hc⟩
  | @moves i old new h hold hop hp =>
    by_cases hij : j = i
    · subst hij
      cases hold.symm.trans hj
      rcases hp.custody hb hold hop hitem hc with hc' | hout
      · exact Or.inl ⟨j, new, by rw [h, Function.update_self], hc'⟩
      · exact Or.inr hout
    · exact Or.inl ⟨j, call, by rw [h, Function.update_of_ne hij, hj], hc⟩

theorem entry_insert {addr other : Bytes} {entry : PoolClient}
    (ht : t.clients = s.clients.insert other entry) (he : Entry s c addr)
    (hsame : addr = other → entry.client = c) : Entry t c addr := by
  obtain ⟨old, hold, hc⟩ := he
  by_cases haddr : addr = other
  · subst haddr
    exact ⟨entry, by rw [ht, AList.lookup_insert], hsame rfl⟩
  · exact ⟨old, by rw [ht, AList.lookup_insert_ne haddr, hold], hc⟩

theorem Move.entry {addr : Bytes} (hm : Move s a t) (he : Entry s c addr) :
    Entry t c addr ∨ Entrusted t c := by
  obtain ⟨entry, hl, hc⟩ := he
  cases hm with
  | @present i call net other rate found h hpc hop hmu hf =>
    refine Or.inl (entry_insert rfl ⟨entry, hl, hc⟩ ?_)
    rintro rfl
    cases hf.symm.trans hl
    exact hc
  | @lost i call d net other rate found h hpc hop hmu hf =>
    refine Or.inl (entry_insert rfl ⟨entry, hl, hc⟩ ?_)
    rintro rfl
    cases hf.symm.trans hl
    exact hc
  | @inserted i call d net other rate h hpc hop hmu hf =>
    refine Or.inl (entry_insert rfl ⟨entry, hl, hc⟩ ?_)
    rintro rfl
    cases hf.symm.trans hl
  | @removed i call other found h hpc hop hmu hf =>
    by_cases haddr : addr = other
    · subst haddr
      cases hf.symm.trans hl
      refine Or.inr ⟨i, _, Function.update_self .., ?_⟩
      simp [Call.custody, hop, Pc.pending, hc]
    · exact Or.inl ⟨entry, (AList.lookup_erase_ne haddr).trans hl, hc⟩
  | @absent i call other h hpc hop hmu hf =>
    have haddr : addr ≠ other := by
      rintro rfl
      cases hf.symm.trans hl
    exact Or.inl ⟨entry, (AList.lookup_erase_ne haddr).trans hl, hc⟩
  | _ => exact Or.inl ⟨entry, hl, hc⟩

theorem Move.entry_origin {addr : Bytes} {entry : PoolClient} (hm : Move s a t)
    (hl : t.clients.lookup addr = some entry) :
    Entry s entry.client addr ∨ ∃ i call net rate, s.calls i = some call ∧
      call.op = .add net addr rate ∧ call.pc = .insert entry.client ∧
      t.calls i = some { call with pc := .returned .added } := by
  have inserted : ∀ {other : Bytes} {new : PoolClient},
      (s.clients.insert other new).lookup addr = some entry →
      (addr = other ∧ new = entry) ∨ Entry s entry.client addr := by
    intro other new hnew
    by_cases haddr : addr = other
    · subst haddr
      rw [AList.lookup_insert] at hnew
      exact Or.inl ⟨rfl, Option.some.inj hnew⟩
    · rw [AList.lookup_insert_ne haddr] at hnew
      exact Or.inr ⟨entry, hnew, rfl⟩
  have erased : ∀ {other : Bytes}, (s.clients.erase other).lookup addr = some entry →
      Entry s entry.client addr := by
    intro other hold
    by_cases haddr : addr = other
    · subst haddr
      rw [AList.lookup_erase] at hold
      cases hold
    · rw [AList.lookup_erase_ne haddr] at hold
      exact ⟨entry, hold, rfl⟩
  cases hm with
  | present h hpc hop hmu hf =>
    rcases inserted hl with ⟨rfl, rfl⟩ | hold
    · exact Or.inl ⟨_, hf, rfl⟩
    · exact Or.inl hold
  | lost h hpc hop hmu hf =>
    rcases inserted hl with ⟨rfl, rfl⟩ | hold
    · exact Or.inl ⟨_, hf, rfl⟩
    · exact Or.inl hold
  | inserted h hpc hop hmu hf =>
    rcases inserted hl with ⟨rfl, rfl⟩ | hold
    · exact Or.inr ⟨_, _, _, _, h, hop, hpc, Function.update_self ..⟩
    · exact Or.inl hold
  | removed h hpc hop hmu hf => exact Or.inl (erased hl)
  | absent h hpc hop hmu hf => exact Or.inl (erased hl)
  | _ => exact Or.inl ⟨entry, hl, rfl⟩

theorem Move.nitems_le (hm : Move s a t) : s.nitems ≤ t.nitems := by
  cases hm with
  | dialled h hpc hop => exact Nat.le_succ _
  | _ => exact le_rfl

theorem Books.move (hb : Books s) (hm : Move s a t) : Books t := by
  have hk : Kept s t := hm.kept (hb.fresh s.nitems le_rfl)
  constructor
  case fresh =>
    intro c hc
    have hn : s.items c = none := hb.fresh c (hm.nitems_le.trans hc)
    by_contra hsome
    obtain ⟨item, hitem⟩ := Option.ne_none_iff_exists'.mp hsome
    exact absurd (hm.new_item hn hitem).1 (Nat.not_lt.mpr hc)
  case entries =>
    intro addr entry hl
    rcases hm.entry_origin hl with ⟨old, hold, hc⟩ | ⟨i, call, net, rate, hcall, hop, hpc, -⟩
    · obtain ⟨item, hitem, haddr⟩ := hb.entries addr old hold
      obtain ⟨item', hitem', hkeeps⟩ := hk _ _ hitem
      exact ⟨item', hc ▸ hitem', hkeeps.addr.trans haddr⟩
    · have hmem : entry.client ∈ call.custody := by simp [Call.custody, hop, hpc, Pc.pending]
      obtain ⟨item, hitem, hch⟩ := (hb.calls i call hcall).charged _ hmem
      obtain ⟨item', hitem', hkeeps⟩ := hk _ _ hitem
      rw [hop] at hch
      exact ⟨item', hitem', hkeeps.addr.trans hch.2.1⟩
  case adders =>
    intro c item' hitem'
    cases hs : s.items c with
    | none =>
      obtain ⟨-, call, rate, hcall, hop, -⟩ := hm.new_item hs hitem'
      exact ⟨call, rate, hcall, hop⟩
    | some item =>
      obtain ⟨new, hnew, hkeeps⟩ := hk c item hs
      cases hitem'.symm.trans hnew
      obtain ⟨call, rate, hcall, hop⟩ := hb.adders c item hs
      obtain ⟨call', hcall', hop'⟩ := hm.call_op hcall
      refine ⟨call', rate, hkeeps.adder ▸ hcall', ?_⟩
      rw [hop', hop, hkeeps.net, hkeeps.addr]
  case calls => exact hb.sound hm hk
  case found =>
    intro c item' hitem'
    cases hs : s.items c with
    | none =>
      obtain ⟨-, call, rate, hcall, -, hmem⟩ := hm.new_item hs hitem'
      exact Or.inr (Or.inr ⟨_, call, hcall, hmem⟩)
    | some item =>
      obtain ⟨new, hnew, hkeeps⟩ := hk c item hs
      cases hitem'.symm.trans hnew
      rw [hkeeps.addr]
      rcases hb.found c item hs with hshut | hentry | hin
      · exact Or.inl (hkeeps.shut hshut)
      · exact Or.inr (hm.entry hentry)
      · rcases hb.entrusted hm hs hin with hin | hentry | hshut
        · exact Or.inr (Or.inr hin)
        · exact Or.inr (Or.inl hentry)
        · exact Or.inl (hkeeps.shut hshut)

theorem books_reachable (h : Reachable step always newPool s) : Books s :=
  h.invariant books_new (fun _ _ _ hb _ hs => hb.move (step_move hs))

theorem Books.holder (hb : Books s) (hitem : s.items c = some item) (he : Entrusted s c)
    (hadd : ∀ call, s.calls item.adder = some call → ∃ ret, call.pc = .returned ret) :
    ∃ j removal, s.calls j = some removal ∧ removal.op = .remove item.addr ∧
      c ∈ removal.pc.pending := by
  obtain ⟨j, call, hj, hmem⟩ := he
  obtain ⟨item', hitem', hch⟩ := (hb.calls j call hj).charged c hmem
  cases hitem.symm.trans hitem'
  have hpend := Call.mem_pending hmem
  cases hop : call.op with
  | add net addr rate =>
    rw [hop] at hch
    obtain ⟨ret, hret⟩ := hadd call (hch.2.2 ▸ hj)
    simp [hret, Pc.pending] at hpend
  | remove addr =>
    rw [hop] at hch
    exact ⟨j, call, hj, hch ▸ hop, hpend⟩
  | _ => simp [Call.custody, hop] at hmem

/-- Every entry of `Clients` is filed under its own address, and a client whose `Add` has
returned is an entry, or closed, or still to be closed by the `Remove` that took it out. -/
theorem pool_leaks_no_client (s : St) (h : Reachable step always newPool s) :
    (∀ addr entry, s.clients.lookup addr = some entry →
      ∃ item, s.items entry.client = some item ∧ item.addr = addr) ∧
    ∀ c item, s.items c = some item →
      ∃ call rate, s.calls item.adder = some call ∧ call.op = .add item.net item.addr rate ∧
        ∀ ret, call.pc = .returned ret →
          Entry s c item.addr ∨ Client.Shut item.st ∨
            ∃ j removal, s.calls j = some removal ∧ removal.op = .remove item.addr ∧
              c ∈ removal.pc.pending := by
  have hb := books_reachable h
  refine ⟨hb.entries, ?_⟩
  intro c item hitem
  obtain ⟨call, rate, hcall, hop⟩ := hb.adders c item hitem
  refine ⟨call, rate, hcall, hop, ?_⟩
  intro ret hret
  rcases hb.found c item hitem with hshut | hentry | hin
  · exact Or.inr (Or.inl hshut)
  · exact Or.inl hentry
  · refine Or.inr (Or.inr (hb.holder hitem hin ?_))
    intro other hother
    cases hcall.symm.trans hother
    exact ⟨ret, hret⟩

def demoAddr : Bytes := [97]

/-- Two calls of `Add` dial one address; the second to come back closes its client. -/
def racedActs : List Act :=
  [.call 0 (.add [] demoAddr 1), .call 1 (.add [] demoAddr 2), .caller 0, .caller 1,
    .dial 0 Client.demoCfg none, .dial 1 Client.demoCfg none, .caller 0, .caller 1, .caller 0,
    .caller 1, .enter 1 0, .client 1 (.caller 0), .client 1 (.caller 0), .client 1 (.caller 0),
    .client 1 (.caller 0), .caller 1, .caller 1]

theorem raced_clients_kept :
    ∃ s item ret call, run step always newPool racedActs = some s ∧ s.items 1 = some item ∧
      s.calls 1 = some call ∧ call.pc = .returned ret ∧
      (Entry s 1 demoAddr ∨ Client.Shut item.st ∨
        ∃ j removal, s.calls j = some removal ∧ removal.op = .remove demoAddr ∧
          1 ∈ removal.pc.pending) := by
  obtain ⟨s, item, call, hrun, hitem, hadder, haddr, hcall, hpc⟩ :
      ∃ s item call, run step always newPool racedActs = some s ∧ s.items 1 = some item ∧
        item.adder = 1 ∧ item.addr = demoAddr ∧ s.calls 1 = some call ∧
        call.pc = .returned .added := ⟨_, _, _, rfl, rfl, rfl, rfl, rfl, rfl⟩
  refine ⟨s, item, .added, call, hrun, hitem, hcall, hpc, ?_⟩
  obtain ⟨call', rate, hcall', hop, hkept⟩ :=
    (pool_leaks_no_client s ⟨racedActs, hrun⟩).2 1 item hitem
  rw [hadder] at hcall'
  cases hcall.symm.trans hcall'
  rw [haddr] at hkept
  exact hkept _ hpc

/-- `Remove` has taken the entry out and has not come to `item.Close()` yet. -/
def removingActs : List Act :=
  [.call 0 (.add [] demoAddr 1), .caller 0, .dial 0 Client.demoCfg none, .caller 0, .caller 0,
    .call 1 (.remove demoAddr), .caller 1]

theorem removed_client_still_open :
    ∃ s item call, run step always newPool removingActs = some s ∧ s.items 0 = some item ∧
      s.calls item.adder = some call ∧ call.pc = .returned .added ∧
      s.clients.lookup item.addr = none ∧ item.st.closed = false :=
  ⟨_, _, _, rfl, rfl, rfl, rfl, rfl, rfl⟩

end Gearman.Pool
