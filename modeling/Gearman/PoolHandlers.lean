import Gearman.PoolProgress

/-!
# The error handlers of a pool's clients

`SetErrorHandler` stores the handler in the pool, takes a snapshot of the clients and installs
the handler on each of them. `Add` reads the pool's handler before it files the client, so a
client may have been given the old one and be filed after the snapshot. Two overlapping calls of
`SetErrorHandler` may install their handlers in either order, so here they do not overlap.
-/

namespace Gearman.Pool
open Bytes Transition

variable {s t : St} {a : Act} {c i j : ℕ} {item item' : Item} {call call' : Call}

def Call.sets (call : Call) : Bool :=
  match call.op, call.pc with
  | .setErrorHandler _, .snapshot => true
  | _, .install _ => true
  | _, _ => false

def Pc.stakes : Pc → Bool
  | .dialled _ => true
  | .insert _ => true
  | .snapshot => true
  | .install _ => true
  | _ => false

def Call.stores (call : Call) : Bool :=
  match call.op, call.pc with
  | .setErrorHandler _, .start => true
  | _, _ => false

namespace Handlers

/-- `setting` is the call of `SetErrorHandler` in progress, `read` are the clients for which
`Add` has read the handler, `early` those for which it had when the last handler was stored, and
`missed` those of them that the snapshot after it did not have. -/
structure History where
  setting : Option ℕ := none
  read : List ℕ := []
  early : List ℕ := []
  missed : List ℕ := []

def History.moved (x : History) (i : ℕ) (call : Call) : History :=
  match call.op, call.pc with
  | .setErrorHandler _, .start => { x with setting := some i, early := x.read }
  | _, .dialled c => { x with read := c :: x.read }
  | _, .install [] => { x with setting := none }
  | _, _ => x

def History.taken (x : History) (cs : List ℕ) (call : Call) : History :=
  match call.op with
  | .setErrorHandler _ => { x with missed := x.early.filter (· ∉ cs) }
  | _ => x

def History.note (x : History) (s : St) (a : Act) (_ : St) : History :=
  match a with
  | .caller i => (s.calls i).elim x (x.moved i)
  | .snapshot i cs => (s.calls i).elim x (x.taken cs)
  | _ => x

/-- Nobody stores a handler while another is being installed. -/
def apart (z : St × History) (a : Act) : Bool :=
  match a with
  | .caller i => (z.1.calls i).any Call.stores → z.2.setting = none
  | _ => true

def Agrees (s : St) (c : ℕ) : Prop :=
  ∃ item, s.items c = some item ∧ item.errorHandler = s.errorHandler

def Inserting (s : St) (c : ℕ) : Prop :=
  ∃ j call, s.calls j = some call ∧ call.pc = .insert c

def InPlay (s : St) (c : ℕ) : Prop := (∃ addr, Entry s c addr) ∨ Inserting s c

/-- Which clients have the pool's handler, by how far a call of `SetErrorHandler` has come. -/
def Agreement (s : St) (x : History) : Prop :=
  match x.setting with
  | none => ∀ c, InPlay s c → Agrees s c ∨ c ∈ x.missed
  | some j => ∃ call, s.calls j = some call ∧ call.op = .setErrorHandler s.errorHandler ∧
      ((call.pc = .snapshot ∧ ∀ c, Inserting s c → Agrees s c ∨ c ∈ x.early) ∨
        ∃ cs, call.pc = .install cs ∧ ∀ c, InPlay s c → Agrees s c ∨ c ∈ x.missed ∨ c ∈ cs)

structure Carried (s : St) : Prop where
  ready : Ready s
  plain : ∀ j call c item, s.calls j = some call → call.pc = .dialled c →
    s.items c = some item → item.errorHandler = none
  unfiled : ∀ j call c, s.calls j = some call → call.pc = .dialled c → ∀ addr, ¬ Entry s c addr
  untouched : ∀ j call c, s.calls j = some call → call.pc = .dialled c →
    ∀ i call' cs, s.calls i = some call' → call'.pc = .install cs → c ∉ cs

structure Inv (s : St) (x : History) : Prop where
  carried : Carried s
  read : ∀ c, Inserting s c → c ∈ x.read
  alone : ∀ j call, s.calls j = some call → call.sets = true → x.setting = some j
  agree : Agreement s x

variable {x : History}

theorem inv_new : Inv newPool {} where
  carried := ⟨ready_new, (fun _ _ _ _ h => by cases h), (fun _ _ _ h => by cases h),
    fun _ _ _ h => by cases h⟩
  read := by
    rintro c ⟨j, call, h, -⟩
    cases h
  alone := fun _ _ h => by cases h
  agree := by
    rintro c (⟨addr, entry, h, -⟩ | ⟨j, call, h, -⟩)
    · cases h
    · cases h

theorem dialler (hi : Ready s) (h : s.calls j = some call)
    (hpc : call.pc = .dialled c ∨ call.pc = .insert c) (hitem : s.items c = some item) :
    item.adder = j := by
  have hsu := hi.suits j call h
  cases hop : call.op with
  | add net addr rate =>
    have hcust : c ∈ call.custody := by
      rcases hpc with hpc | hpc <;> simp [Call.custody, hop, hpc, Pc.pending]
    obtain ⟨item', hitem', hch⟩ := (hi.books.calls j call h).charged c hcust
    cases hitem.symm.trans hitem'
    rw [hop] at hch
    exact hch.2.2
  | _ => rcases hpc with hpc | hpc <;> rw [hop, hpc] at hsu <;> cases hsu

theorem exists_dialled (hi : Ready s) (h : s.calls j = some call) (hpc : call.pc = .dialled c) :
    ∃ item, s.items c = some item :=
  hi.stocked c (hi.targets j call c h (by simp [hpc, Pc.targets, Pc.pending]))

theorem not_inserting (hi : Ready s) (h : s.calls j = some call) (hpc : call.pc = .dialled c) :
    ¬ Inserting s c := by
  rintro ⟨i, other, hother, hins⟩
  obtain ⟨item, hitem⟩ := exists_dialled hi h hpc
  have hmine := dialler hi h (Or.inl hpc) hitem
  have hyours := dialler hi hother (Or.inr hins) hitem
  obtain rfl := hmine.symm.trans hyours
  cases h.symm.trans hother
  cases hpc.symm.trans hins

theorem entries_inPlay (hm : Move s a t) (c : ℕ) (addr : Bytes) (h : Entry t c addr) :
    InPlay s c := by
  obtain ⟨entry, hl, rfl⟩ := h
  rcases hm.entry_origin hl with hold | ⟨i, call, net, rate, hcall, -, hpc, -⟩
  · exact Or.inl ⟨addr, hold⟩
  · exact Or.inr ⟨i, call, hcall, hpc⟩

theorem Carried.move (hi : Carried s) (hm : Move s a t)
    (hd : ∀ j call c, t.calls j = some call → call.pc = .dialled c → s.calls j = some call ∧
      ∀ item, s.items c = some item →
        ∃ item', t.items c = some item' ∧ item'.errorHandler = item.errorHandler)
    (hin : ∀ i call cs, t.calls i = some call → call.pc = .install cs → ∀ c ∈ cs,
      (∃ addr, Entry s c addr) ∨
        ∃ call' cs', s.calls i = some call' ∧ call'.pc = .install cs' ∧ c ∈ cs') : Carried t where
  ready := hi.ready.move hm
  plain := by
    intro j call c item hcall hpc hitem
    obtain ⟨hold, hkept⟩ := hd j call c hcall hpc
    obtain ⟨old, hitem₀⟩ := exists_dialled hi.ready hold hpc
    obtain ⟨new, hnew, heq⟩ := hkept old hitem₀
    cases hitem.symm.trans hnew
    exact heq.trans (hi.plain j call c old hold hpc hitem₀)
  unfiled := by
    intro j call c hcall hpc addr he
    obtain ⟨hold, -⟩ := hd j call c hcall hpc
    rcases entries_inPlay hm c addr he with ⟨addr', he'⟩ | hins
    · exact hi.unfiled j call c hold hpc addr' he'
    · exact not_inserting hi.ready hold hpc hins
  untouched := by
    intro j call c hcall hpc i other cs hother hins hmem
    obtain ⟨hold, -⟩ := hd j call c hcall hpc
    rcases hin i other cs hother hins c hmem with ⟨addr, he⟩ | ⟨old, cs', hold', hpc', hmem'⟩
    · exact hi.unfiled j call c hold hpc addr he
    · exact hi.untouched j call c hold hpc i old cs' hold' hpc' hmem'

/-- A step that neither stores, reads nor installs a handler. -/
structure Calm (s t : St) : Prop where
  handler : t.errorHandler = s.errorHandler
  items : ∀ c item, s.items c = some item →
    ∃ item', t.items c = some item' ∧ item'.errorHandler = item.errorHandler
  inserting : ∀ c, Inserting t c → Inserting s c
  sets : ∀ j call, call.sets = true → (t.calls j = some call ↔ s.calls j = some call)
  entries : ∀ c addr, Entry t c addr → InPlay s c

theorem Calm.agrees (hc : Calm s t) (h : Agrees s c) : Agrees t c := by
  obtain ⟨item, hitem, heq⟩ := h
  obtain ⟨item', hitem', heq'⟩ := hc.items c item hitem
  exact ⟨item', hitem', heq'.trans (heq.trans hc.handler.symm)⟩

theorem Calm.inPlay (hc : Calm s t) (h : InPlay t c) : InPlay s c := by
  rcases h with ⟨addr, h⟩ | h
  · exact hc.entries c addr h
  · exact Or.inr (hc.inserting c h)

theorem sets_snapshot {handler : Option ℕ} (hop : call.op = .setErrorHandler handler)
    (hpc : call.pc = .snapshot) : call.sets = true := by
  simp [Call.sets, hop, hpc]

theorem sets_install {cs : List ℕ} (hpc : call.pc = .install cs) : call.sets = true := by
  cases hop : call.op <;> simp [Call.sets, hop, hpc]

theorem Agreement.calm (h : Agreement s x) (hc : Calm s t) : Agreement t x := by
  unfold Agreement at h ⊢
  split at h
  · intro c hin
    exact (h c (hc.inPlay hin)).imp_left hc.agrees
  · obtain ⟨call, hcall, hop, hphase⟩ := h
    rcases hphase with ⟨hpc, hall⟩ | ⟨cs, hpc, hall⟩
    · refine ⟨call, (hc.sets _ call (sets_snapshot hop hpc)).mpr hcall, hc.handler ▸ hop,
        Or.inl ⟨hpc, ?_⟩⟩
      intro c hin
      exact (hall c (hc.inserting c hin)).imp_left hc.agrees
    · refine ⟨call, (hc.sets _ call (sets_install hpc)).mpr hcall, hc.handler ▸ hop,
        Or.inr ⟨cs, hpc, ?_⟩⟩
      intro c hin
      exact (hall c (hc.inPlay hin)).imp_left hc.agrees

theorem Inv.calm (hi : Inv s x) (hm : Move s a t) (hc : Calm s t)
    (hd : ∀ j call c, t.calls j = some call → call.pc = .dialled c → s.calls j = some call) :
    Inv t x where
  carried := by
    refine hi.carried.move hm ?_ ?_
    · intro j call c hcall hpc
      exact ⟨hd j call c hcall hpc, hc.items c⟩
    · intro i call cs hcall hpc c hmem
      exact Or.inr ⟨call, cs, (hc.sets i call (sets_install hpc)).mp hcall, hpc, hmem⟩
  read := fun c h => hi.read c (hc.inserting c h)
  alone := fun j call hcall hs => hi.alone j call ((hc.sets j call hs).mp hcall) hs
  agree := hi.agree.calm hc

theorem dialled_of_update (hcalls : t.calls = Function.update s.calls i (some call'))
    (hnew : ∀ c, call'.pc ≠ .dialled c) (hj : t.calls j = some call) (hpc : call.pc = .dialled c) :
    s.calls j = some call ∧ j ≠ i := by
  rw [hcalls] at hj
  rcases update_eq_some hj with ⟨-, rfl⟩ | ⟨hne, h⟩
  · exact absurd hpc (hnew c)
  · exact ⟨h, hne⟩

theorem inserting_of_update (hcalls : t.calls = Function.update s.calls i (some call'))
    (hnew : call'.pc ≠ .insert c) (h : Inserting t c) : Inserting s c := by
  obtain ⟨j, call, hj, hpc⟩ := h
  rw [hcalls] at hj
  rcases update_eq_some hj with ⟨-, rfl⟩ | ⟨-, h⟩
  · exact absurd hpc hnew
  · exact ⟨j, call, h, hpc⟩

theorem calm_update (hm : Move s a t)
    (hcalls : t.calls = Function.update s.calls i (some call'))
    (hins : ∀ c, call'.pc ≠ .insert c) (hsets : call'.sets = false)
    (hold : ∀ call, s.calls i = some call → call.sets = false)
    (hh : t.errorHandler = s.errorHandler)
    (hitems : ∀ c item, s.items c = some item →
      ∃ item', t.items c = some item' ∧ item'.errorHandler = item.errorHandler) : Calm s t where
  handler := hh
  items := hitems
  inserting := fun c h => inserting_of_update hcalls (hins c) h
  sets := by
    intro j call hs
    rw [hcalls]
    by_cases hj : j = i
    · subst hj
      rw [Function.update_self]
      constructor
      · intro h
        cases h
        simp [hsets] at hs
      · intro h
        simp [hold call h] at hs
    · rw [Function.update_of_ne hj]
  entries := entries_inPlay hm

theorem sets_of_stakes (h : call.pc.stakes = false) : call.sets = false := by
  cases hop : call.op <;> cases hpc : call.pc <;> simp_all [Call.sets, Pc.stakes]

theorem Inv.moved (hi : Inv s x) (hm : Move s a t) (h : s.calls i = some call)
    (hcalls : t.calls = Function.update s.calls i (some call')) (hpc : call.sets = false)
    (hpc' : call'.pc.stakes = false) (hh : t.errorHandler = s.errorHandler)
    (hitems : ∀ c item, s.items c = some item →
      ∃ item', t.items c = some item' ∧ item'.errorHandler = item.errorHandler) : Inv t x := by
  refine hi.calm hm (calm_update hm hcalls ?_ (sets_of_stakes hpc') ?_ hh hitems) ?_
  · intro c hins
    rw [hins] at hpc'
    cases hpc'
  · intro old hold
    cases h.symm.trans hold
    exact hpc
  · intro j other c hj hd
    refine (dialled_of_update hcalls ?_ hj hd).1
    intro c hdial
    rw [hdial] at hpc'
    cases hpc'

theorem kept_handlers (h : t.items = s.items) (c : ℕ) (item : Item) (hc : s.items c = some item) :
    ∃ item', t.items c = some item' ∧ item'.errorHandler = item.errorHandler :=
  ⟨item, h ▸ hc, rfl⟩

theorem set_handlers (h : t.items = Function.update s.items c (some item'))
    (hc : s.items c = some item) (heq : item'.errorHandler = item.errorHandler) (d : ℕ)
    (old : Item) (hd : s.items d = some old) :
    ∃ new, t.items d = some new ∧ new.errorHandler = old.errorHandler := by
  rw [h]
  by_cases hdc : d = c
  · subst hdc
    cases hc.symm.trans hd
    exact ⟨item', Function.update_self .., heq⟩
  · exact ⟨old, (Function.update_of_ne hdc ..).trans hd, rfl⟩

theorem step_handler {act : Client.Act} (h : item.step act = some item') :
    item'.errorHandler = item.errorHandler := by
  obtain ⟨u, hr, hu, rfl⟩ := Item.step_eq_some h
  rfl

theorem install_of_update {cs : List ℕ}
    (hcalls : t.calls = Function.update s.calls i (some call'))
    (hnew : ∀ cs, call'.pc = .install cs → ∀ c ∈ cs, (∃ addr, Entry s c addr) ∨
      ∃ call cs', s.calls i = some call ∧ call.pc = .install cs' ∧ c ∈ cs')
    (hj : t.calls j = some call) (hpc : call.pc = .install cs) (c : ℕ) (hc : c ∈ cs) :
    (∃ addr, Entry s c addr) ∨
      ∃ call cs', s.calls j = some call ∧ call.pc = .install cs' ∧ c ∈ cs' := by
  rw [hcalls] at hj
  rcases update_eq_some hj with ⟨rfl, rfl⟩ | ⟨-, h⟩
  · exact hnew cs hpc c hc
  · exact Or.inr ⟨call, cs, h, hpc, hc⟩

theorem Carried.update (hi : Carried s) (hm : Move s a t)
    (hcalls : t.calls = Function.update s.calls i (some call')) (hitems : t.items = s.items)
    (hd : ∀ c, call'.pc ≠ .dialled c)
    (hin : ∀ cs, call'.pc = .install cs → ∀ c ∈ cs, ∃ addr, Entry s c addr) : Carried t := by
  refine hi.move hm ?_ ?_
  · intro j other c hj hpc
    exact ⟨(dialled_of_update hcalls hd hj hpc).1, kept_handlers hitems c⟩
  · intro j other cs hj hins c hc
    exact install_of_update hcalls (fun ds hds d hmem => Or.inl (hin ds hds d hmem)) hj hins c hc

theorem Inv.store (hi : Inv s x) {handler : Option ℕ} (h : s.calls i = some call)
    (hpc : call.pc = .start) (hop : call.op = .setErrorHandler handler)
    (hset : x.setting = none) :
    Inv ({ s with errorHandler := handler }.setPc i call .snapshot)
      { x with setting := some i, early := x.read } where
  carried := hi.carried.update (.store h hpc hop) rfl rfl (by simp) (by simp)
  read := fun c hc => hi.read c (inserting_of_update rfl (by simp) hc)
  alone := by
    intro j other hj hs
    rcases update_eq_some hj with ⟨rfl, -⟩ | ⟨-, hold⟩
    · rfl
    · have hbusy := hi.alone j other hold hs
      cases hset.symm.trans hbusy
  agree := by
    refine ⟨_, Function.update_self .., hop, Or.inl ⟨rfl, ?_⟩⟩
    intro c hc
    exact Or.inr (hi.read c (inserting_of_update rfl (by simp) hc))

theorem Inv.setter (hi : Inv s x) (h : s.calls i = some call) (hs : call.sets = true) :
    x.setting = some i ∧ call.op = .setErrorHandler s.errorHandler ∧
      ((call.pc = .snapshot ∧ ∀ c, Inserting s c → Agrees s c ∨ c ∈ x.early) ∨
        ∃ cs, call.pc = .install cs ∧ ∀ c, InPlay s c → Agrees s c ∨ c ∈ x.missed ∨ c ∈ cs) := by
  have hset := hi.alone i call h hs
  have hag := hi.agree
  simp only [Agreement, hset] at hag
  obtain ⟨own, hown, hop, hphase⟩ := hag
  cases h.symm.trans hown
  exact ⟨hset, hop, hphase⟩

theorem Inv.alone_update (hi : Inv s x) (hset : x.setting = some i)
    (hcalls : t.calls = Function.update s.calls i (some call')) (hj : t.calls j = some call)
    (hs : call.sets = true) : x.setting = some j := by
  rw [hcalls] at hj
  rcases update_eq_some hj with ⟨rfl, -⟩ | ⟨-, hold⟩
  · exact hset
  · exact hi.alone j call hold hs

theorem Inv.installAll (hi : Inv s x) {cs : List ℕ} {handler : Option ℕ}
    (h : s.calls i = some call) (hpc : call.pc = .snapshot)
    (hop : call.op = .setErrorHandler handler) (hmu : s.mutex = none)
    (hcs : cs.Perm (s.clients.entries.map (·.2.client))) :
    Inv (s.setPc i call (.install cs)) { x with missed := x.early.filter (· ∉ cs) } := by
  obtain ⟨hset, hop', hphase⟩ := hi.setter h (sets_snapshot hop hpc)
  have hfiled : ∀ c, (∃ addr, Entry s c addr) ↔ c ∈ cs := by
    intro c
    rw [hcs.mem_iff, List.mem_map]
    constructor
    · rintro ⟨addr, entry, hl, rfl⟩
      exact ⟨⟨addr, entry⟩, AList.mem_lookup_iff.mp hl, rfl⟩
    · rintro ⟨e, he, rfl⟩
      exact ⟨e.1, e.2, AList.mem_lookup_iff.mpr he, rfl⟩
  refine ⟨?_, ?_, ?_, ?_⟩
  · refine hi.carried.update (.installAll h hpc hop hmu hcs) rfl rfl (by simp) ?_
    intro ds hds c hc
    cases hds
    exact (hfiled c).mpr hc
  · exact fun c hc => hi.read c (inserting_of_update rfl (by simp) hc)
  · exact fun j other hj hs => hi.alone_update hset rfl hj hs
  · simp only [Agreement, hset]
    refine ⟨_, Function.update_self .., hop', Or.inr ⟨cs, rfl, ?_⟩⟩
    rintro c (⟨addr, he⟩ | hins)
    · exact Or.inr (Or.inr ((hfiled c).mp ⟨addr, he⟩))
    · rcases hphase with ⟨-, hall⟩ | ⟨ds, hds, -⟩
      · rcases hall c (inserting_of_update rfl (by simp) hins) with hagree | hearly
        · exact Or.inl hagree
        · -- a client that was filed in the meantime is in the snapshot
          by_cases hc : c ∈ cs
          · exact Or.inr (Or.inr hc)
          · exact Or.inr (Or.inl (List.mem_filter.mpr ⟨hearly, by simpa using hc⟩))
      · cases hpc.symm.trans hds

theorem inPlay_of_update (h : InPlay t c)
    (hcalls : t.calls = Function.update s.calls i (some call')) (hnew : call'.pc ≠ .insert c)
    (hclients : t.clients = s.clients) : InPlay s c := by
  rcases h with ⟨addr, entry, hl, hc⟩ | hins
  · exact Or.inl ⟨addr, entry, hclients ▸ hl, hc⟩
  · exact Or.inr (inserting_of_update hcalls hnew hins)

theorem agrees_set {d : ℕ} (hitems : t.items = Function.update s.items c (some item'))
    (hh : t.errorHandler = s.errorHandler) (heq : item'.errorHandler = s.errorHandler)
    (hd : Agrees s d ∨ d = c) : Agrees t d := by
  unfold Agrees
  rw [hitems, hh]
  by_cases hdc : d = c
  · subst hdc
    exact ⟨item', Function.update_self .., heq⟩
  · obtain ⟨old, hold, hagree⟩ := hd.resolve_right hdc
    exact ⟨old, (Function.update_of_ne hdc ..).trans hold, hagree⟩

theorem Inv.install (hi : Inv s x) {cs : List ℕ} {handler : Option ℕ} (h : s.calls i = some call)
    (hpc : call.pc = .install (c :: cs)) (hop : call.op = .setErrorHandler handler)
    (hc : s.items c = some item) :
    Inv ((s.setItem c { item with errorHandler := handler }).setPc i call (.install cs)) x := by
  obtain ⟨hset, hop', hphase⟩ := hi.setter h (sets_install hpc)
  have hh : handler = s.errorHandler := by
    cases hop.symm.trans hop'
    rfl
  refine ⟨?_, ?_, ?_, ?_⟩
  · refine hi.carried.move (.install h hpc hop hc) ?_ ?_
    · intro j other d hj hd
      obtain ⟨hold, -⟩ := dialled_of_update rfl (by simp) hj hd
      refine ⟨hold, ?_⟩
      intro old hitem
      have hne : d ≠ c := by
        rintro rfl
        exact hi.carried.untouched j other d hold hd i call _ h hpc List.mem_cons_self
      exact ⟨old, (Function.update_of_ne hne ..).trans hitem, rfl⟩
    · intro j other ds hj hins d hd
      refine install_of_update rfl ?_ hj hins d hd
      intro es hes e he
      cases hes
      exact Or.inr ⟨call, _, h, hpc, List.mem_cons_of_mem _ he⟩
  · exact fun d hd => hi.read d (inserting_of_update rfl (by simp) hd)
  · exact fun j other hj hs => hi.alone_update hset rfl hj hs
  · simp only [Agreement, hset]
    refine ⟨_, Function.update_self .., hop', Or.inr ⟨cs, rfl, ?_⟩⟩
    intro d hd
    rcases hphase with ⟨hsnap, -⟩ | ⟨ds, hds, hall⟩
    · cases hsnap.symm.trans hpc
    · cases hpc.symm.trans hds
      rcases hall d (inPlay_of_update hd rfl (by simp) rfl) with hagree | hmiss | hmem
      · exact Or.inl (agrees_set rfl rfl hh (Or.inl hagree))
      · exact Or.inr (Or.inl hmiss)
      · rcases List.mem_cons.mp hmem with hdc | hrest
        · exact Or.inl (agrees_set rfl rfl hh (Or.inr hdc))
        · exact Or.inr (Or.inr hrest)

theorem Inv.installed (hi : Inv s x) (h : s.calls i = some call) (hpc : call.pc = .install []) :
    Inv (s.setPc i call (.returned (call.op.ret call.err))) { x with setting := none } := by
  obtain ⟨hset, hop, hphase⟩ := hi.setter h (sets_install hpc)
  refine ⟨?_, ?_, ?_, ?_⟩
  · exact hi.carried.update (.installed h hpc) rfl rfl (by simp) (by simp)
  · exact fun c hc => hi.read c (inserting_of_update rfl (by simp) hc)
  · intro j other hj hs
    rcases update_eq_some hj with ⟨-, rfl⟩ | ⟨hne, hold⟩
    · rw [sets_of_stakes rfl] at hs
      cases hs
    · have hbusy := hi.alone j other hold hs
      cases hset.symm.trans hbusy
      exact absurd rfl hne
  · intro c hc
    rcases hphase with ⟨hsnap, -⟩ | ⟨ds, hds, hall⟩
    · cases hsnap.symm.trans hpc
    · cases hpc.symm.trans hds
      rcases hall c (inPlay_of_update hc rfl (by simp) rfl) with hagree | hmiss | hmem
      · exact Or.inl hagree
      · exact Or.inr hmiss
      · cases hmem

theorem Agreement.joined (hag : Agreement s x)
    (hins : ∀ d, Inserting t d → Inserting s d ∨ d = c)
    (hagree : ∀ d, Agrees s d ∨ d = c → Agrees t d) (hh : t.errorHandler = s.errorHandler)
    (hclients : t.clients = s.clients)
    (hsets : ∀ j own, s.calls j = some own → own.sets = true → t.calls j = some own)
    (read : List ℕ) : Agreement t { x with read } := by
  have hplay : ∀ d, InPlay t d → InPlay s d ∨ d = c := by
    rintro d (⟨addr, entry, hl, hd⟩ | hd)
    · exact Or.inl (Or.inl ⟨addr, entry, hclients ▸ hl, hd⟩)
    · exact (hins d hd).imp_left Or.inr
  unfold Agreement at hag ⊢
  dsimp only at hag ⊢
  split at hag
  · intro d hd
    rcases hplay d hd with hold | hdc
    · exact (hag d hold).imp_left (fun h => hagree d (Or.inl h))
    · exact Or.inl (hagree d (Or.inr hdc))
  · obtain ⟨own, hown, hop, hphase⟩ := hag
    rw [hh]
    rcases hphase with ⟨hsnap, hall⟩ | ⟨cs, hcs, hall⟩
    · refine ⟨own, hsets _ own hown (sets_snapshot hop hsnap), hop, Or.inl ⟨hsnap, ?_⟩⟩
      intro d hd
      rcases hins d hd with hold | hdc
      · exact (hall d hold).imp_left (fun h => hagree d (Or.inl h))
      · exact Or.inl (hagree d (Or.inr hdc))
    · refine ⟨own, hsets _ own hown (sets_install hcs), hop, Or.inr ⟨cs, hcs, ?_⟩⟩
      intro d hd
      rcases hplay d hd with hold | hdc
      · exact (hall d hold).imp_left (fun h => hagree d (Or.inl h))
      · exact Or.inl (hagree d (Or.inr hdc))

theorem Inv.given (hi : Inv s x) (h : s.calls i = some call) (hpc : call.pc = .dialled c)
    (hc : s.items c = some item) :
    Inv ((s.setItem c { item with
      errorHandler := s.errorHandler <|> item.errorHandler }).setPc i call (.insert c))
      { x with read := c :: x.read } := by
  have hready := hi.carried.ready
  have hnotset : call.sets = false := by
    cases hop : call.op <;> simp [Call.sets, hop, hpc]
  have hgiven : (s.errorHandler <|> item.errorHandler) = s.errorHandler := by
    rw [hi.carried.plain i call c item h hpc hc]
    cases s.errorHandler <;> rfl
  have hins : ∀ d, Inserting ((s.setItem c { item with
      errorHandler := s.errorHandler <|> item.errorHandler }).setPc i call (.insert c)) d →
      Inserting s d ∨ d = c := by
    rintro d ⟨j, other, hj, hd⟩
    rcases update_eq_some hj with ⟨-, rfl⟩ | ⟨-, hold⟩
    · cases hd
      exact Or.inr rfl
    · exact Or.inl ⟨j, other, hold, hd⟩
  refine ⟨?_, ?_, ?_, ?_⟩
  · refine hi.carried.move (.handler h hpc hc) ?_ ?_
    · intro j other d hj hd
      obtain ⟨hold, hji⟩ := dialled_of_update rfl (by simp) hj hd
      refine ⟨hold, ?_⟩
      intro old hitem
      have hne : d ≠ c := by
        rintro rfl
        have hmine := dialler hready h (Or.inl hpc) hc
        have hyours := dialler hready hold (Or.inl hd) hc
        exact hji (hyours.symm.trans hmine)
      exact ⟨old, (Function.update_of_ne hne ..).trans hitem, rfl⟩
    · intro j other cs hj hi' d hd
      exact install_of_update rfl (by simp) hj hi' d hd
  · intro d hd
    rcases hins d hd with hold | rfl
    · exact List.mem_cons_of_mem _ (hi.read d hold)
    · exact List.mem_cons_self
  · intro j other hj hs
    rcases update_eq_some hj with ⟨-, rfl⟩ | ⟨-, hold⟩
    · cases hop : call.op <;> simp [Call.sets, hop] at hs
    · exact hi.alone j other hold hs
  · refine hi.agree.joined hins (fun d hd => agrees_set rfl rfl hgiven hd) rfl rfl ?_ _
    intro j own hown hs
    have hji : j ≠ i := by
      rintro rfl
      cases h.symm.trans hown
      simp [hnotset] at hs
    exact (Function.update_of_ne hji ..).trans hown

theorem Inv.dialled (hi : Inv s x) {net addr : Bytes} {rate : ℤ} {cfg : Client.Cfg}
    (h : s.calls i = some call) (hpc : call.pc = .dial) (hop : call.op = .add net addr rate) :
    Inv ({ s.setItem s.nitems (.new net addr i cfg) with nitems := s.nitems + 1 }.setPc i call
      (.dialled s.nitems)) x := by
  have hready := hi.carried.ready
  have hm : Move s (.dial i cfg none) _ := .dialled h hpc hop
  have hcalm : Calm s ({ s.setItem s.nitems (.new net addr i cfg) with
      nitems := s.nitems + 1 }.setPc i call (.dialled s.nitems)) := by
    refine calm_update hm rfl (by simp) (by simp [Call.sets, hop]) ?_ rfl ?_
    · intro old hold
      cases h.symm.trans hold
      exact sets_of_stakes (by rw [hpc]; rfl)
    · intro c item hc
      have hlt := hready.books.lt_nitems hc
      exact ⟨item, (Function.update_of_ne hlt.ne ..).trans hc, rfl⟩
  refine ⟨⟨hready.move hm, ?_, ?_, ?_⟩, fun c hc => hi.read c (hcalm.inserting c hc),
    fun j other hj hs => hi.alone j other ((hcalm.sets j other hs).mp hj) hs, hi.agree.calm hcalm⟩
  · intro j other c item hj hd hc
    rcases update_eq_some hj with ⟨-, rfl⟩ | ⟨-, hold⟩
    · cases hd
      cases (Function.update_self ..).symm.trans hc
      rfl
    · have hlt := hready.targets j other c hold (by simp [hd, Pc.targets, Pc.pending])
      exact hi.carried.plain j other c item hold hd
        ((Function.update_of_ne hlt.ne ..).symm.trans hc)
  · intro j other c hj hd addr' he
    rcases update_eq_some hj with ⟨-, rfl⟩ | ⟨-, hold⟩
    · cases hd
      have hlt := hready.books.entry_lt (c := s.nitems) he
      exact absurd hlt (lt_irrefl _)
    · exact hi.carried.unfiled j other c hold hd addr' he
  · intro j other c hj hd k setter cs hk hins
    have hk' := (hcalm.sets k setter (sets_install hins)).mp hk
    rcases update_eq_some hj with ⟨-, rfl⟩ | ⟨-, hold⟩
    · cases hd
      intro hmem
      have hlt := hready.targets k setter s.nitems hk' (by simpa [hins, Pc.targets] using hmem)
      exact absurd hlt (lt_irrefl _)
    · exact hi.carried.untouched j other c hold hd k setter cs hk' hins

theorem note_still (h : s.calls i = some call) (hs : call.stores = false)
    (hd : ∀ c, call.pc ≠ .dialled c) (hin : call.pc ≠ .install []) :
    x.note s (.caller i) t = x := by
  simp only [History.note, h, Option.elim_some, History.moved]
  split
  · next hop hpc => simp [Call.stores, hop, hpc] at hs
  · next hpc => exact absurd hpc (hd _)
  · next hpc => exact absurd hpc hin
  · rfl

theorem note_dialled (h : s.calls i = some call) (hpc : call.pc = .dialled c) :
    x.note s (.caller i) t = { x with read := c :: x.read } := by
  cases hop : call.op <;> simp [History.note, h, History.moved, hop, hpc]

theorem note_installed (h : s.calls i = some call) (hpc : call.pc = .install []) :
    x.note s (.caller i) t = { x with setting := none } := by
  cases hop : call.op <;> simp [History.note, h, History.moved, hop, hpc]

theorem Inv.move (hi : Inv s x) (hm : Move s a t) (ha : apart (s, x) a = true) :
    Inv t (x.note s a t) := by
  have hm' := hm
  cases hm with
  | begin i op h =>
    refine hi.calm hm' (calm_update hm' rfl ?_ ?_ (fun _ hold => by cases h.symm.trans hold) rfl
      (kept_handlers rfl)) ?_
    · cases op <;> simp [Op.entry]
    · cases op <;> rfl
    · intro j other c hj hd
      refine (dialled_of_update rfl ?_ hj hd).1
      cases op <;> simp [Op.entry]
  | client hc hs =>
    exact hi.calm hm' ⟨rfl, set_handlers rfl hc (step_handler hs), fun _ h => h,
      fun _ _ _ => Iff.rfl, entries_inPlay hm'⟩ (fun _ _ _ h _ => h)
  | dialled h hpc hop => exact hi.dialled h hpc hop
  | dialFailed h hpc hop =>
    exact hi.moved hm' h rfl (sets_of_stakes (by rw [hpc]; rfl)) rfl rfl (kept_handlers rfl)
  | enter h hpc hc hs =>
    exact hi.moved hm' h rfl (sets_of_stakes (by rw [hpc]; rfl)) rfl rfl
      (set_handlers rfl hc (step_handler hs))
  | closeAll h hpc hop hmu hs =>
    simp only [History.note, h, Option.elim_some, History.taken, hop]
    exact hi.moved hm' h rfl (by simp [Call.sets, hop, hpc]) rfl rfl (kept_handlers rfl)
  | installAll h hpc hop hmu hs =>
    simp only [History.note, h, Option.elim_some, History.taken, hop]
    exact hi.installAll h hpc hop hmu hs
  | store h hpc hop =>
    have hset : x.setting = none := by
      simpa [apart, h, Call.stores, hop, hpc] using ha
    simp only [History.note, h, Option.elim_some, History.moved, hop, hpc]
    exact hi.store h hpc hop hset
  | handler h hpc hc =>
    rw [note_dialled h hpc]
    exact hi.given h hpc hc
  | install h hpc hop hc =>
    rw [note_still h (by simp [Call.stores, hpc]) (by simp [hpc]) (by simp [hpc])]
    exact hi.install h hpc hop hc
  | installed h hpc =>
    rw [note_installed h hpc]
    exact hi.installed h hpc
  | present h hpc hop hmu hl | missing h hpc hop hmu hl | removed h hpc hop hmu hl
  | absent h hpc hop hmu hl | lost h hpc hop hmu hl | inserted h hpc hop hmu hl =>
    rw [note_still h (by simp [Call.stores, hop]) (by simp [hpc]) (by simp [hpc])]
    exact hi.moved hm' h rfl (by simp [Call.sets, hop, hpc]) rfl rfl (kept_handlers rfl)
  | closed h hpc hc hk hr | finish h hpc =>
    rw [note_still h (by simp [Call.stores, hpc]) (by simp [hpc]) (by simp [hpc])]
    exact hi.moved hm' h rfl (sets_of_stakes (by rw [hpc]; rfl)) rfl rfl (kept_handlers rfl)

theorem Inv.run {acts : List Act}
    (h : Transition.run (traced step History.note) apart (newPool, {}) acts = some (s, x)) :
    Inv s x :=
  run_invariant (I := fun z => Inv z.1 z.2)
    (fun z a w hz ha hw => by
      obtain ⟨hstep, hnote⟩ := traced_eq_some.mp hw
      exact hnote ▸ hz.move (step_move hstep) ha) h inv_new

/-- Whenever no `SetErrorHandler` is under way, every client of the pool has the pool's handler,
unless `Add` had read the handler for it before the last one was stored and filed it after the
snapshot. -/
theorem error_handlers_agree (acts : List Act) (s : St) (x : History)
    (h : run (traced step History.note) apart (newPool, {}) acts = some (s, x))
    (hset : x.setting = none) (addr : Bytes) (entry : PoolClient)
    (hl : s.clients.lookup addr = some entry) (hm : entry.client ∉ x.missed) :
    ∃ item, s.items entry.client = some item ∧ item.errorHandler = s.errorHandler := by
  have hag := (Inv.run h).agree
  simp only [Agreement, hset] at hag
  exact (hag entry.client (Or.inl ⟨addr, entry, hl, rfl⟩)).resolve_right hm

def overtakenActs : List Act :=
  [.call 0 (.add [] [97] 1), .caller 0, .dial 0 ⟨false, 5⟩ none, .caller 0, .caller 0,
    .call 1 (.add [] [98] 1), .caller 1, .dial 1 ⟨false, 5⟩ none, .caller 1,
    .call 2 (.setErrorHandler (some 7)), .caller 2, .snapshot 2 [0], .caller 1, .caller 2,
    .caller 2]

theorem error_handlers_agree_but_one :
    ∃ s x, run (traced step History.note) apart (newPool, {}) overtakenActs = some (s, x) ∧
      x.missed = [1] ∧ (s.items 1).map Item.errorHandler = some none ∧
      ∃ item, s.items 0 = some item ∧ item.errorHandler = some 7 := by
  have hrun : (run (traced step History.note) apart (newPool, {}) overtakenActs).map
      (fun z => ([z.2.setting, z.1.errorHandler], z.2.missed,
        (z.1.items 1).map Item.errorHandler, (z.1.clients.lookup [97]).map PoolClient.client)) =
      some ([none, some 7], [1], some none, some 0) := by decide +kernel
  obtain ⟨z, hz, heq⟩ := Option.map_eq_some_iff.mp hrun
  simp only [Prod.mk.injEq, List.cons.injEq] at heq
  obtain ⟨⟨hset, hh, -⟩, hmissed, hother, hl⟩ := heq
  obtain ⟨entry, hl, hc⟩ := Option.map_eq_some_iff.mp hl
  obtain ⟨item, hitem, heq⟩ := error_handlers_agree overtakenActs z.1 z.2 hz hset [97] entry hl
    (by rw [hmissed, hc]; decide)
  exact ⟨z.1, z.2, hz, hmissed, hother, item, hc ▸ hitem, heq.trans hh⟩

-- Two calls that overlap: the later handler stays in the pool, the earlier on the client.
example : (run step always newPool
    [.call 0 (.add [] [97] 1), .caller 0, .dial 0 ⟨false, 5⟩ none, .caller 0, .caller 0,
      .call 1 (.setErrorHandler (some 7)), .call 2 (.setErrorHandler (some 8)), .caller 1,
      .caller 2, .snapshot 1 [0], .snapshot 2 [0], .caller 2, .caller 1, .caller 2,
      .caller 1]).map (fun s => (s.errorHandler, (s.items 0).map Item.errorHandler)) =
    some (some 8, some (some 7)) := by decide +kernel

end Handlers
end Gearman.Pool
