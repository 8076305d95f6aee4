import Gearman.IdGen
import Gearman.PoolSelect

/-!
# The calls that go through a pool

`Do`, `DoBg`, `Status` and `Echo` of a pool choose a client under the pool's lock, let go of
the lock and make the same call on that client. `Do` and `DoBg` draw the id of the job from
the process's generator in between. The calls run beside the pool's own machine, in which each
client is a machine again.

A selection handler is any function of the entries and the last address: the action names the
address it returns.
-/

namespace Gearman.Pool.Calls
open Bytes Transition
open Client (AutoincId)

inductive Op
  | submit (bg : Bool) (funcname data : Bytes) (flag : UInt8) (h : Option ℕ)
  | status (addr handle : Bytes)
  | echo (addr data : Bytes)
deriving DecidableEq, Repr

/-- `addr` is returned by `Do` and `DoBg` only. -/
inductive Ret
  | notFound
  | reply (addr : Option Bytes) (ret : Client.Ret)
deriving DecidableEq, Repr

inductive Pc
  | start
  | genId (c : ℕ)
  | enter (c : ℕ) (op : Client.Op)
  | inside (c k : ℕ)
  | returned (ret : Ret)
deriving DecidableEq, Repr

structure Call where
  op : Op
  pc : Pc

structure St where
  pool : Pool.St := newPool
  last : Bytes := []
  idGen : AutoincId
  calls : ℕ → Option Call := fun _ => none

inductive Act
  | pool (a : Pool.Act)
  | call (i : ℕ) (op : Op)
  | select (i : ℕ) (addr : Bytes)
  | lookup (i : ℕ)
  | genId (i : ℕ)
  | enter (i k : ℕ)
  | leave (i : ℕ)

namespace Op

def server : Op → Option Bytes
  | .submit _ _ _ _ _ => none
  | .status addr _ => some addr
  | .echo addr _ => if addr = [] then none else some addr

def chosen (c : ℕ) : Op → Pc
  | .submit _ _ _ _ _ => .genId c
  | .status _ handle => .enter c (.status handle)
  | .echo _ data => .enter c (.echo data)

def inner (id : Bytes) : Op → Client.Op
  | .submit bg funcname data flag h => .submit bg funcname data flag h id
  | .status _ handle => .status handle
  | .echo _ data => .echo data

def named (item : Item) : Op → Option Bytes
  | .submit _ _ _ _ _ => some item.addr
  | _ => none

end Op

def St.setPc (s : St) (i : ℕ) (call : Call) (pc : Pc) : St :=
  { s with calls := Function.update s.calls i (some { call with pc }) }

def choose (s : St) (i : ℕ) (call : Call) : Option PoolClient → St
  | none => s.setPc i call (.returned .notFound)
  | some client => s.setPc i call (call.op.chosen client.client)

def selectStep (s : St) (i : ℕ) (addr : Bytes) (call : Call) : Option St :=
  match call.pc, call.op.server with
  | .start, none =>
    if s.pool.mutex.isSome then none
    else match selectServer s.pool (fun _ => .ret addr) s.last with
      | .ret (client, last) => some (choose { s with last } i call client.toOption)
      | .draw _ _ => none
  | _, _ => none

def lookupStep (s : St) (i : ℕ) (call : Call) : Option St :=
  match call.pc, call.op.server with
  | .start, some addr =>
    if s.pool.mutex.isSome then none else some (choose s i call (s.pool.clients.lookup addr))
  | _, _ => none

def genIdStep (s : St) (i : ℕ) (call : Call) : Option St :=
  match call.pc with
  | .genId c =>
    some ({ s with idGen := s.idGen.id.2 }.setPc i call (.enter c (call.op.inner s.idGen.id.1)))
  | _ => none

def enterStep (s : St) (i k : ℕ) (call : Call) : Option St :=
  match call.pc with
  | .enter c op => do
    let item ← s.pool.items c
    let item' ← item.step (.call k op)
    some ({ s with pool := s.pool.setItem c item' }.setPc i call (.inside c k))
  | _ => none

def leaveStep (s : St) (i : ℕ) (call : Call) : Option St :=
  match call.pc with
  | .inside c k => do
    let item ← s.pool.items c
    let inner ← item.st.calls k
    match inner.pc with
    | .returned ret => some (s.setPc i call (.returned (.reply (call.op.named item) ret)))
    | _ => none
  | _ => none

def step (s : St) : Act → Option St
  | .pool a => (Pool.step s.pool a).map (fun pool => { s with pool })
  | .call i op =>
    if (s.calls i).isSome then none
    else some { s with calls := Function.update s.calls i (some { op, pc := .start }) }
  | .select i addr => (s.calls i).bind (selectStep s i addr)
  | .lookup i => (s.calls i).bind (lookupStep s i)
  | .genId i => (s.calls i).bind (genIdStep s i)
  | .enter i k => (s.calls i).bind (enterStep s i k)
  | .leave i => (s.calls i).bind (leaveStep s i)

def start (idGen : AutoincId) : St := { idGen }

variable {s t : St} {a : Act} {i c k : ℕ} {call : Call}

def Act.picks (i : ℕ) : Act → Bool
  | .select j _ => j = i
  | .lookup j => j = i
  | _ => false

inductive Move (s : St) : Act → St → Prop
  | pool {a : Pool.Act} {pool : Pool.St} (h : Pool.step s.pool a = some pool) :
      Move s (.pool a) { s with pool }
  | begin {i : ℕ} {op : Op} (h : s.calls i = none) :
      Move s (.call i op)
        { s with calls := Function.update s.calls i (some { op, pc := .start }) }
  | notFound {a : Act} {i : ℕ} {call : Call} (ha : a.picks i = true) (h : s.calls i = some call)
      (hpc : call.pc = .start) (hmu : s.pool.mutex = none) :
      Move s a (s.setPc i call (.returned .notFound))
  | chosen {a : Act} {i : ℕ} {call : Call} {addr : Bytes} (last : Bytes) {client : PoolClient}
      (ha : a.picks i = true) (h : s.calls i = some call) (hpc : call.pc = .start)
      (hmu : s.pool.mutex = none)
      (hl : s.pool.clients.lookup addr = some client)
      (haddr : ∀ server, call.op.server = some server → addr = server) :
      Move s a ({ s with last }.setPc i call (call.op.chosen client.client))
  | drawn {i c : ℕ} {call : Call} (h : s.calls i = some call) (hpc : call.pc = .genId c) :
      Move s (.genId i) ({ s with idGen := s.idGen.id.2 }.setPc i call
        (.enter c (call.op.inner s.idGen.id.1)))
  | enter {i c k : ℕ} {call : Call} {op : Client.Op} {item item' : Item}
      (h : s.calls i = some call) (hpc : call.pc = .enter c op)
      (hc : s.pool.items c = some item) (hs : item.step (.call k op) = some item') :
      Move s (.enter i k) ({ s with pool := s.pool.setItem c item' }.setPc i call (.inside c k))
  | leave {i c k : ℕ} {call : Call} {item : Item} {inner : Client.Call} {ret : Client.Ret}
      (h : s.calls i = some call) (hpc : call.pc = .inside c k)
      (hc : s.pool.items c = some item) (hk : item.st.calls k = some inner)
      (hr : inner.pc = .returned ret) :
      Move s (.leave i) (s.setPc i call (.returned (.reply (call.op.named item) ret)))

theorem selectStep_move {addr : Bytes} (hcall : s.calls i = some call)
    (h : selectStep s i addr call = some t) : Move s (.select i addr) t := by
  unfold selectStep at h
  split at h
  · next hpc hserver =>
    split_ifs at h with hmu
    rw [Bool.not_eq_true, Option.isSome_eq_false_iff, Option.isNone_iff_eq_none] at hmu
    rcases selectServer_ret s.pool addr s.last with hsel | ⟨client, hl, hsel⟩
    · rw [hsel] at h
      cases h
      exact .notFound (by simp [Act.picks]) hcall hpc hmu
    · rw [hsel] at h
      cases h
      exact .chosen addr (by simp [Act.picks]) hcall hpc hmu hl (by simp [hserver])
  · cases h

theorem lookupStep_move (hcall : s.calls i = some call) (h : lookupStep s i call = some t) :
    Move s (.lookup i) t := by
  unfold lookupStep at h
  split at h
  · next addr hpc hserver =>
    split_ifs at h with hmu
    rw [Bool.not_eq_true, Option.isSome_eq_false_iff, Option.isNone_iff_eq_none] at hmu
    cases h
    cases hl : s.pool.clients.lookup addr with
    | none => exact .notFound (by simp [Act.picks]) hcall hpc hmu
    | some client =>
      refine .chosen s.last (by simp [Act.picks]) hcall hpc hmu hl ?_
      intro server hs
      exact Option.some.inj (hserver.symm.trans hs)
  · cases h

theorem step_move (h : step s a = some t) : Move s a t := by
  cases a with
  | pool a =>
    obtain ⟨pool, hpool, rfl⟩ := Option.map_eq_some_iff.mp h
    exact .pool hpool
  | call i op =>
    simp only [step] at h
    split_ifs at h with hnew
    cases h
    exact .begin (Option.not_isSome_iff_eq_none.mp hnew)
  | select i addr =>
    obtain ⟨call, hcall, h⟩ := Option.bind_eq_some_iff.mp h
    exact selectStep_move hcall h
  | lookup i =>
    obtain ⟨call, hcall, h⟩ := Option.bind_eq_some_iff.mp h
    exact lookupStep_move hcall h
  | genId i =>
    obtain ⟨call, hcall, h⟩ := Option.bind_eq_some_iff.mp h
    unfold genIdStep at h
    split at h
    · next hpc =>
      cases h
      exact .drawn hcall hpc
    · cases h
  | enter i k =>
    obtain ⟨call, hcall, h⟩ := Option.bind_eq_some_iff.mp h
    unfold enterStep at h
    split at h
    · next hpc =>
      obtain ⟨item, hitem, h⟩ := Option.bind_eq_some_iff.mp h
      obtain ⟨item', hs, h⟩ := Option.bind_eq_some_iff.mp h
      cases h
      exact .enter hcall hpc hitem hs
    · cases h
  | leave i =>
    obtain ⟨call, hcall, h⟩ := Option.bind_eq_some_iff.mp h
    unfold leaveStep at h
    split at h
    · next hpc =>
      obtain ⟨item, hitem, h⟩ := Option.bind_eq_some_iff.mp h
      obtain ⟨inner, hinner, h⟩ := Option.bind_eq_some_iff.mp h
      split at h
      · next hr =>
        cases h
        exact .leave hcall hpc hitem hinner hr
      · cases h
    · cases h

/-- The calls that have entered a client, each with the client and its number there, and the ids
that were drawn, each with the call it is for. -/
structure Record where
  entered : List (ℕ × ℕ × ℕ) := []
  drawn : List (ℕ × Bytes) := []

def Record.note (x : Record) (s : St) (a : Act) (_ : St) : Record :=
  match a with
  | .genId i => { x with drawn := x.drawn ++ [(i, s.idGen.id.1)] }
  | .enter i k =>
    match (s.calls i).map Call.pc with
    | some (.enter c _) => { x with entered := x.entered ++ [(i, c, k)] }
    | _ => x
  | _ => x

def Picked (s : St) (op : Op) (c : ℕ) (item : Item) : Prop :=
  s.pool.items c = some item ∧ ∀ server, op.server = some server → item.addr = server

/-- What is asked of the client is what was asked of the pool, with an id drawn for it. -/
def Asked (x : Record) (i : ℕ) (op : Op) (inner : Client.Op) : Prop :=
  match op with
  | .submit _ _ _ _ _ => ∃ id, (i, id) ∈ x.drawn ∧ inner = op.inner id
  | _ => inner = op.inner []

def Standing (s : St) (x : Record) (i : ℕ) (call : Call) : Prop :=
  match call.pc with
  | .genId c => ∃ item, Picked s call.op c item
  | .enter c op => (∃ item, Picked s call.op c item) ∧ Asked x i call.op op
  | .inside c k => (i, c, k) ∈ x.entered ∧ ∃ item inner, Picked s call.op c item ∧
      item.st.calls k = some inner ∧ Asked x i call.op inner.op
  | .returned (.reply addr ret) => ∃ c k, (i, c, k) ∈ x.entered ∧ ∃ item inner,
      Picked s call.op c item ∧ item.st.calls k = some inner ∧ Asked x i call.op inner.op ∧
      addr = call.op.named item ∧ inner.pc = .returned ret
  | _ => True

structure Follows (item item' : Item) : Prop where
  addr : item'.addr = item.addr
  calls : ∀ k inner, item.st.calls k = some inner → ∃ inner', item'.st.calls k = some inner' ∧
    inner'.op = inner.op ∧ ∀ ret, inner.pc = .returned ret → inner'.pc = .returned ret

def Followed (p q : Pool.St) : Prop :=
  ∀ c item, p.items c = some item → ∃ item', q.items c = some item' ∧ Follows item item'

variable {x y : Record} {item item' : Item} {p q : Pool.St}

theorem follows_of_st (haddr : item'.addr = item.addr) (hst : item'.st = item.st) :
    Follows item item' :=
  ⟨haddr, fun _ inner h => ⟨inner, hst ▸ h, rfl, fun _ hr => hr⟩⟩

theorem returned_stays {s t : Client.St} {call call' : Client.Call} {ret : Client.Ret}
    (h : Client.Advance s t i call call') (hr : call.pc = .returned ret) :
    call'.pc = .returned ret := by
  rcases h.pc with hpc | hl | hs
  · exact hpc.trans hr
  · generalize call'.pc = pc at hl
    cases hl <;> simp_all
  · generalize call'.pc = pc at hs
    cases hs <;> simp_all

theorem step_follows {act : Client.Act} (h : item.step act = some item') : Follows item item' := by
  obtain ⟨u, hr, hu, rfl⟩ := Item.step_eq_some h
  refine ⟨rfl, ?_⟩
  intro k inner hk
  obtain ⟨inner', hk', hadv⟩ := (Client.step_move hu).call hk
  exact ⟨inner', hk', hadv.op, fun ret => returned_stays hadv⟩

theorem followed_refl (p : Pool.St) : Followed p p :=
  fun _ item h => ⟨item, h, follows_of_st rfl rfl⟩

theorem followed_set (hq : q.items = Function.update p.items c (some item'))
    (hc : p.items c = some item) (hf : Follows item item') : Followed p q := by
  intro d old hd
  by_cases hdc : d = c
  · subst hdc
    cases hc.symm.trans hd
    exact ⟨item', by rw [hq, Function.update_self], hf⟩
  · exact ⟨old, by rw [hq, Function.update_of_ne hdc, hd], follows_of_st rfl rfl⟩

theorem pool_followed {a : Pool.Act} (hfresh : p.items p.nitems = none)
    (hm : Pool.Move p a q) : Followed p q := by
  cases hm with
  | dialled h hpc hop =>
    intro c item hc
    have hne : c ≠ p.nitems := by
      rintro rfl
      cases hfresh.symm.trans hc
    exact ⟨item, (Function.update_of_ne hne ..).trans hc, follows_of_st rfl rfl⟩
  | handler h hpc hc => exact followed_set rfl hc (follows_of_st rfl rfl)
  | install h hpc hop hc => exact followed_set rfl hc (follows_of_st rfl rfl)
  | enter h hpc hc hs => exact followed_set rfl hc (step_follows hs)
  | client hc hs => exact followed_set rfl hc (step_follows hs)
  | _ => exact fun c item hc => ⟨item, hc, follows_of_st rfl rfl⟩

theorem Move.pool_step (hm : Move s a t) :
    t.pool = s.pool ∨ ∃ b, Pool.step s.pool b = some t.pool := by
  cases hm with
  | pool h => exact Or.inr ⟨_, h⟩
  | @enter i c k call op item item' h hpc hc hs =>
    exact Or.inr ⟨.client c (.call k op), by simp [Pool.step, hc, hs, St.setPc]⟩
  | _ => exact Or.inl rfl

theorem Move.followed (hb : Books s.pool) (hm : Move s a t) : Followed s.pool t.pool := by
  rcases hm.pool_step with h | ⟨b, h⟩
  · rw [h]
    exact followed_refl _
  · exact pool_followed (hb.fresh _ le_rfl) (Pool.step_move h)

theorem Picked.follow {op : Op} (h : Picked s op c item) (hf : Followed s.pool t.pool) :
    ∃ item', Picked t op c item' ∧ Follows item item' := by
  obtain ⟨item', hc, hfol⟩ := hf c item h.1
  exact ⟨item', ⟨hc, fun server hs => hfol.addr.trans (h.2 server hs)⟩, hfol⟩

theorem Asked.mono {op : Op} {inner : Client.Op} (h : Asked x i op inner)
    (hd : x.drawn ⊆ y.drawn) : Asked y i op inner := by
  cases op with
  | submit bg funcname data flag handler =>
    obtain ⟨id, hmem, hid⟩ := h
    exact ⟨id, hd hmem, hid⟩
  | _ => exact h

theorem named_follow {op : Op} (hf : Follows item item') : op.named item' = op.named item := by
  cases op with
  | submit bg funcname data flag h => exact congrArg some hf.addr
  | _ => rfl

theorem Standing.follow (h : Standing s x i call) (hf : Followed s.pool t.pool)
    (he : x.entered ⊆ y.entered) (hd : x.drawn ⊆ y.drawn) : Standing t y i call := by
  unfold Standing at h ⊢
  split at h
  · obtain ⟨item, hp⟩ := h
    obtain ⟨item', hp', -⟩ := hp.follow hf
    exact ⟨item', hp'⟩
  · obtain ⟨⟨item, hp⟩, hask⟩ := h
    obtain ⟨item', hp', -⟩ := hp.follow hf
    exact ⟨⟨item', hp'⟩, hask.mono hd⟩
  · obtain ⟨hent, item, inner, hp, hk, hask⟩ := h
    obtain ⟨item', hp', hfol⟩ := hp.follow hf
    obtain ⟨inner', hk', hop, -⟩ := hfol.calls _ inner hk
    exact ⟨he hent, item', inner', hp', hk', hop ▸ hask.mono hd⟩
  · obtain ⟨c, k, hent, item, inner, hp, hk, hask, haddr, hret⟩ := h
    obtain ⟨item', hp', hfol⟩ := hp.follow hf
    obtain ⟨inner', hk', hop, hstay⟩ := hfol.calls _ inner hk
    exact ⟨c, k, he hent, item', inner', hp', hk', hop ▸ hask.mono hd,
      haddr.trans (named_follow hfol).symm, hstay _ hret⟩
  · trivial

structure Inv (ai : AutoincId) (s : St) (x : Record) : Prop where
  books : Books s.pool
  gen : s.idGen = ai.after x.drawn.length
  ids : x.drawn.map Prod.snd = ai.ids x.drawn.length
  once : (x.entered.map Prod.snd).Nodup
  begun : ∀ e ∈ x.entered, ∃ item inner, s.pool.items e.2.1 = some item ∧
    item.st.calls e.2.2 = some inner
  calls : ∀ i call, s.calls i = some call → Standing s x i call

theorem inv_start (ai : AutoincId) : Inv ai (start ai) {} where
  books := books_new
  gen := by
    simp [start, AutoincId.after]
  ids := rfl
  once := List.nodup_nil
  begun := by simp
  calls := fun i call h => by cases h

theorem Inv.begun_follow {ai : AutoincId} (hi : Inv ai s x) (hf : Followed s.pool t.pool)
    (e : ℕ × ℕ × ℕ) (he : e ∈ x.entered) : ∃ item inner, t.pool.items e.2.1 = some item ∧
      item.st.calls e.2.2 = some inner := by
  obtain ⟨item, inner, hc, hk⟩ := hi.begun e he
  obtain ⟨item', hc', hfol⟩ := hf _ item hc
  obtain ⟨inner', hk', -⟩ := hfol.calls _ inner hk
  exact ⟨item', inner', hc', hk'⟩

theorem Inv.books_move {ai : AutoincId} (hi : Inv ai s x) (hm : Move s a t) : Books t.pool := by
  rcases hm.pool_step with h | ⟨b, h⟩
  · exact h ▸ hi.books
  · exact hi.books.move (Pool.step_move h)

theorem Inv.calls_update {ai : AutoincId} {pc : Pc} (hi : Inv ai s x)
    (hcalls : t.calls = Function.update s.calls i (some { call with pc }))
    (hf : Followed s.pool t.pool) (he : x.entered ⊆ y.entered) (hd : x.drawn ⊆ y.drawn)
    (hnew : Standing t y i { call with pc }) (j : ℕ) (other : Call)
    (hj : t.calls j = some other) : Standing t y j other := by
  rw [hcalls] at hj
  exact forall_update (P := fun j other => Standing t y j other) hnew
    (fun j other h => (hi.calls j other h).follow hf he hd) j other hj

theorem Inv.still {ai : AutoincId} {pc : Pc} (hi : Inv ai s x) (hm : Move s a t)
    (hg : t.idGen = s.idGen) (hcalls : t.calls = Function.update s.calls i (some { call with pc }))
    (hnew : Standing t x i { call with pc }) : Inv ai t x where
  books := hi.books_move hm
  gen := hg.trans hi.gen
  ids := hi.ids
  once := hi.once
  begun := hi.begun_follow (hm.followed hi.books)
  calls := hi.calls_update hcalls (hm.followed hi.books) (List.Subset.refl _)
    (List.Subset.refl _) hnew

theorem picked_of_lookup {addr : Bytes} {client : PoolClient} {op : Op} (hb : Books s.pool)
    (hl : s.pool.clients.lookup addr = some client)
    (haddr : ∀ server, op.server = some server → addr = server) :
    ∃ item, Picked s op client.client item := by
  obtain ⟨item, hitem, hi⟩ := hb.entries addr client hl
  exact ⟨item, hitem, fun server hs => hi.trans (haddr server hs)⟩

theorem standing_chosen {op : Op} (h : ∃ item, Picked s op c item) :
    Standing s x i { op, pc := op.chosen c } := by
  cases op with
  | submit bg funcname data flag handler => exact h
  | status addr handle => exact ⟨h, rfl⟩
  | echo addr data => exact ⟨h, rfl⟩

theorem Inv.drawn {ai : AutoincId} (hi : Inv ai s x) (h : s.calls i = some call)
    (hpc : call.pc = .genId c) :
    Inv ai ({ s with idGen := s.idGen.id.2 }.setPc i call (.enter c (call.op.inner s.idGen.id.1)))
      { x with drawn := x.drawn ++ [(i, s.idGen.id.1)] } where
  books := hi.books
  gen := by
    simp [St.setPc, hi.gen, Client.after_id]
  ids := by
    simp [hi.ids, hi.gen, Client.after_id, Client.ids_succ]
  once := hi.once
  begun := hi.begun
  calls := by
    refine hi.calls_update rfl (followed_refl _) (List.Subset.refl _)
      (List.subset_append_left ..) ?_
    have hst := hi.calls i call h
    simp only [Standing, hpc] at hst
    refine ⟨hst, ?_⟩
    cases hop : call.op with
    | submit bg funcname data flag handler => exact ⟨_, by simp, rfl⟩
    | _ => rfl

theorem Inv.enter {ai : AutoincId} {op : Client.Op} (hi : Inv ai s x) (h : s.calls i = some call)
    (hpc : call.pc = .enter c op) (hc : s.pool.items c = some item)
    (hs : item.step (.call k op) = some item') (hm : Move s (.enter i k)
      ({ s with pool := s.pool.setItem c item' }.setPc i call (.inside c k))) :
    Inv ai ({ s with pool := s.pool.setItem c item' }.setPc i call (.inside c k))
      { x with entered := x.entered ++ [(i, c, k)] } := by
  have hfol := hm.followed hi.books
  obtain ⟨u, hr, hu, hitem'⟩ := Item.step_eq_some hs
  simp only [Client.step] at hu
  split_ifs at hu with hk
  cases hu
  have hset : (s.pool.setItem c item').items c = some item' := Function.update_self ..
  have hinner : item'.st.calls k = some { op, pc := op.entry } := by
    rw [hitem']
    exact Function.update_self ..
  refine ⟨hi.books_move hm, hi.gen, hi.ids, ?_, ?_, ?_⟩
  · rw [List.map_append, List.nodup_append]
    refine ⟨hi.once, by simp, ?_⟩
    intro e he e' he' heq
    obtain ⟨d, hd, rfl⟩ := List.mem_map.mp he
    simp only [List.map_cons, List.map_nil, List.mem_singleton] at he'
    rw [he'] at heq
    -- the number of a call that has begun is taken
    obtain ⟨old, inner, hold, hinner⟩ := hi.begun d hd
    rw [heq] at hold hinner
    cases hc.symm.trans hold
    simp [hinner] at hk
  · intro e he
    rcases List.mem_append.mp he with he | he
    · exact hi.begun_follow hfol e he
    · rw [List.mem_singleton.mp he]
      exact ⟨item', _, hset, hinner⟩
  · refine hi.calls_update rfl hfol (List.subset_append_left ..) (List.Subset.refl _) ?_
    have hst := hi.calls i call h
    simp only [Standing, hpc] at hst
    obtain ⟨⟨old, hp⟩, hask⟩ := hst
    cases hc.symm.trans hp.1
    refine ⟨by simp, item', _, ⟨hset, ?_⟩, hinner, hask⟩
    intro server hserver
    rw [(step_follows hs).addr]
    exact hp.2 server hserver

theorem note_picks (ha : a.picks i = true) : x.note s a t = x := by
  cases a <;> first | rfl | cases ha

theorem Inv.move {ai : AutoincId} (hi : Inv ai s x) (hm : Move s a t) :
    Inv ai t (x.note s a t) := by
  have hfol := hm.followed hi.books
  cases hm with
  | pool h =>
    exact ⟨hi.books_move (.pool h), hi.gen, hi.ids, hi.once, hi.begun_follow hfol,
      fun j other hj => (hi.calls j other hj).follow hfol (List.Subset.refl _)
        (List.Subset.refl _)⟩
  | @begin i op h =>
    refine ⟨hi.books, hi.gen, hi.ids, hi.once, hi.begun, ?_⟩
    exact forall_update (P := fun j other => Standing _ x j other) trivial hi.calls
  | notFound ha h hpc hmu =>
    rw [note_picks ha]
    exact hi.still (.notFound ha h hpc hmu) rfl rfl trivial
  | chosen last ha h hpc hmu hl haddr =>
    rw [note_picks ha]
    exact hi.still (.chosen last ha h hpc hmu hl haddr) rfl rfl
      (standing_chosen (picked_of_lookup hi.books hl haddr))
  | drawn h hpc => exact hi.drawn h hpc
  | @enter i c k call op item item' h hpc hc hs =>
    have hnote : x.note s (.enter i k)
        ({ s with pool := s.pool.setItem c item' }.setPc i call (.inside c k)) =
        { x with entered := x.entered ++ [(i, c, k)] } := by
      simp [Record.note, h, hpc]
    rw [hnote]
    exact hi.enter h hpc hc hs (.enter h hpc hc hs)
  | @leave i c k call item inner ret h hpc hc hk hr =>
    refine hi.still (.leave h hpc hc hk hr) rfl rfl ?_
    have hst := hi.calls i call h
    simp only [Standing, hpc] at hst
    obtain ⟨hent, old, inner', hp, hk', hask⟩ := hst
    cases hc.symm.trans hp.1
    cases hk.symm.trans hk'
    exact ⟨c, k, hent, item, inner, hp, hk, hask, rfl, hr⟩

theorem Inv.run {ai : AutoincId} {allow : St × Record → Act → Bool} {acts : List Act}
    (h : Transition.run (traced step Record.note) allow (start ai, {}) acts = some (s, x)) :
    Inv ai s x :=
  run_invariant (I := fun z => Inv ai z.1 z.2)
    (fun z a w hz _ hw => by
      obtain ⟨hstep, hnote⟩ := traced_eq_some.mp hw
      exact hnote ▸ hz.move (step_move hstep)) h (inv_start ai)

/-- A call of the pool returns what one call on one client has returned: a call that it has made
itself, with its own arguments, on a client of the server it names if it names one; and no two
calls of the pool ever share one. -/
theorem pool_reply_own (ai : AutoincId) (acts : List Act) (s : St) (x : Record)
    (h : run (traced step Record.note) always (start ai, {}) acts = some (s, x)) :
    (x.entered.map Prod.snd).Nodup ∧
    ∀ i call addr ret, s.calls i = some call → call.pc = .returned (.reply addr ret) →
      ∃ c k item inner, (i, c, k) ∈ x.entered ∧ s.pool.items c = some item ∧
        (∀ server, call.op.server = some server → item.addr = server) ∧
        addr = call.op.named item ∧ item.st.calls k = some inner ∧
        Asked x i call.op inner.op ∧ inner.pc = .returned ret := by
  have hi := Inv.run h
  refine ⟨hi.once, ?_⟩
  intro i call addr ret hcall hpc
  have hst := hi.calls i call hcall
  simp only [Standing, hpc] at hst
  obtain ⟨c, k, hent, item, inner, ⟨hc, hserver⟩, hk, hask, haddr, hret⟩ := hst
  exact ⟨c, k, item, inner, hent, hc, hserver, haddr, hk, hask, hret⟩

def poolCfg : Client.Cfg := { wantExceptions := false, responseTimeout := 5 }

def addActs : List Act :=
  [.pool (.call 0 (.add [] [97] 1)), .pool (.caller 0), .pool (.dial 0 poolCfg none),
    .pool (.caller 0), .pool (.caller 0)]

def doActs : List Act :=
  [.call 7 (.submit false [102] [5] 0 none), .select 7 [97], .genId 7, .enter 7 0]

def answeredTwo : List Act :=
  addActs ++ doActs ++ [.call 8 (.echo [] [9]), .select 8 [97], .enter 8 1] ++
    [Client.Act.caller 0, .caller 1, .caller 0, .caller 0, .caller 0, .write 0 none,
      .answer 0 0 Client.dtJobCreated [72], .reader, .reader, .readPacket, .reader, .process,
      .process, .process, .process, .caller 0, .caller 0, .caller 1, .caller 1, .caller 1,
      .write 1 none, .answer 0 1 Client.dtEchoRes [9], .reader, .reader, .readPacket, .reader,
      .process, .process, .process, .process, .caller 1, .caller 1].map
      (fun a => .pool (.client 0 a)) ++ [.leave 8, .leave 7]

theorem pool_reply_own_of_two :
    ∃ s x call call', run (traced step Record.note) always (start ⟨0⟩, {}) answeredTwo =
        some (s, x) ∧
      s.calls 7 = some call ∧ call.pc = .returned (.reply (some [97]) (.handle [72])) ∧
      s.calls 8 = some call' ∧ call'.pc = .returned (.reply none (.echo (some [9]))) ∧
      (x.entered.map Prod.snd).Nodup ∧
      (∃ c k item inner, (7, c, k) ∈ x.entered ∧ s.pool.items c = some item ∧
        item.st.calls k = some inner ∧ Asked x 7 call.op inner.op ∧
        inner.pc = .returned (.handle [72])) ∧
      ∃ c k item inner, (8, c, k) ∈ x.entered ∧ s.pool.items c = some item ∧
        item.st.calls k = some inner ∧ Asked x 8 call'.op inner.op ∧
        inner.pc = .returned (.echo (some [9])) := by
  have hrun : (run (traced step Record.note) always (start ⟨0⟩, {}) answeredTwo).map
      (fun z => ((z.1.calls 7).map Call.pc, (z.1.calls 8).map Call.pc)) =
      some (some (.returned (.reply (some [97]) (.handle [72]))),
        some (.returned (.reply none (.echo (some [9]))))) := by decide +kernel
  obtain ⟨z, hz, hcalls⟩ := Option.map_eq_some_iff.mp hrun
  obtain ⟨hdo, hecho⟩ := Prod.mk.inj hcalls
  obtain ⟨call, hcall, hpc⟩ := Option.map_eq_some_iff.mp hdo
  obtain ⟨call', hcall', hpc'⟩ := Option.map_eq_some_iff.mp hecho
  obtain ⟨honce, hown⟩ := pool_reply_own ⟨0⟩ answeredTwo z.1 z.2 hz
  obtain ⟨c, k, item, inner, he, hc, -, -, hk, hask, hr⟩ := hown 7 call _ _ hcall hpc
  obtain ⟨c', k', item', inner', he', hc', -, -, hk', hask', hr'⟩ := hown 8 call' _ _ hcall' hpc'
  exact ⟨z.1, z.2, call, call', hz, hcall, hpc, hcall', hpc', honce,
    ⟨c, k, item, inner, he, hc, hk, hask, hr⟩, c', k', item', inner', he', hc', hk', hask', hr'⟩

/-- The ids that two processes give out are all different, if the processes start at different
nanoseconds and neither gives out 2^32 of them; and every id is one that `do` accepts and that
the server and a worker can split off. -/
theorem pool_ids_unique (m n : ℕ) (hm : m < 10 ^ 9) (hn : n < 10 ^ 9) (hne : m ≠ n)
    (acts acts' : List Act) (s s' : St) (x x' : Record)
    (h : run (traced step Record.note) always (start (Client.newAutoIncId m), {}) acts =
      some (s, x))
    (h' : run (traced step Record.note) always (start (Client.newAutoIncId n), {}) acts' =
      some (s', x'))
    (hx : x.drawn.length < 2 ^ 32) (hx' : x'.drawn.length < 2 ^ 32) :
    ((x.drawn ++ x'.drawn).map Prod.snd).Nodup ∧
    ∀ id ∈ (x.drawn ++ x'.drawn).map Prod.snd, id ≠ [] ∧ (0 : UInt8) ∉ id := by
  have hids := (Inv.run h).ids
  have hids' := (Inv.run h').ids
  rw [List.map_append, hids, hids']
  constructor
  · rw [List.nodup_append]
    refine ⟨Client.ids_nodup _ (by omega), Client.ids_nodup _ (by omega), ?_⟩
    intro id hid id' hid' heq
    subst heq
    exact Client.ids_disjoint hm hn hne hx hx' hid hid'
  · intro id hid
    have hnth : ∃ ai j, id = AutoincId.nth ai j := by
      rcases List.mem_append.mp hid with hid | hid
      · obtain ⟨j, -, rfl⟩ := List.mem_map.mp hid
        exact ⟨_, j, rfl⟩
      · obtain ⟨j, -, rfl⟩ := List.mem_map.mp hid
        exact ⟨_, j, rfl⟩
    obtain ⟨ai, j, rfl⟩ := hnth
    exact ⟨Client.nth_ne_nil ai j, Client.zero_notMem_nth ai j⟩

theorem pool_ids_unique_of_two :
    ∃ s x s' x', run (traced step Record.note) always (start (Client.newAutoIncId 1), {})
        (addActs ++ doActs) = some (s, x) ∧
      run (traced step Record.note) always (start (Client.newAutoIncId 2), {})
        (addActs ++ doActs) = some (s', x') ∧
      x.drawn.length = 1 ∧ x'.drawn.length = 1 ∧
      ((x.drawn ++ x'.drawn).map Prod.snd).Nodup := by
  have hrun : ∀ n ∈ [1, 2], (run (traced step Record.note) always
      (start (Client.newAutoIncId n), {}) (addActs ++ doActs)).map (fun z => z.2.drawn.length) =
      some 1 := by decide +kernel
  obtain ⟨z, hz, hlen⟩ := Option.map_eq_some_iff.mp (hrun 1 (by simp))
  obtain ⟨z', hz', hlen'⟩ := Option.map_eq_some_iff.mp (hrun 2 (by simp))
  exact ⟨z.1, z.2, z'.1, z'.2, hz, hz', hlen, hlen',
    (pool_ids_unique 1 2 (by decide) (by decide) (by decide) _ _ z.1 z'.1 z.2 z'.2 hz hz'
      (by simp [hlen]) (by simp [hlen'])).1⟩

end Gearman.Pool.Calls
