import Gearman.ClientLifecycle

/-!
# The pool as a machine of interleaved goroutines

Every client of the pool is a client machine of its own, and the calls of the pool's API
run beside all of them. A step is one critical section of `Pool.mutex`, one dial, one
access to a client. `Add` closes the client that lost the race for its address under the
lock, so the lock spans steps there; `Remove` and `Close` close outside it. A closing call
of the pool begins a call to `Close` in the client's machine and goes on when that call
has returned.

`Clients` is iterated in an order the action names. `DefaultExceptions` and
`DefaultTimeout` are package variables, so each dial has its own configuration.
-/

namespace Gearman.Pool
open Bytes Transition

/-- A client that `New` has returned, in a state it can reach. The call of `Add` it was
made for is read by no code. -/
structure Item where
  net : Bytes
  addr : Bytes
  adder : ℕ
  errorHandler : Option ℕ := none
  cfg : Client.Cfg
  st : Client.St
  reach : Reachable (Client.step cfg) always (Client.new cfg) st

def Item.new (net addr : Bytes) (adder : ℕ) (cfg : Client.Cfg) : Item :=
  { net, addr, adder, cfg, st := Client.new cfg, reach := .refl _ }

def Item.step (item : Item) (a : Client.Act) : Option Item :=
  match h : Client.step item.cfg item.st a with
  | none => none
  | some t => some { item with st := t, reach := item.reach.trans (.single rfl h) }

structure PoolClient where
  client : ℕ
  rate : ℤ
deriving DecidableEq, Repr

inductive Op
  | add (net addr : Bytes) (rate : ℤ)
  | remove (addr : Bytes)
  | close
  | setErrorHandler (h : Option ℕ)

inductive Ret
  | added
  | err (e : Client.Err)
  | removed
  | closed (err : AList (fun _ : Bytes => Client.Ret))
  | installed

inductive Pc
  | start
  | dial
  | dialled (c : ℕ)
  | insert (c : ℕ)
  | snapshot
  | close (cs : List ℕ)
  | closing (c k : ℕ) (cs : List ℕ)
  | install (cs : List ℕ)
  | returned (ret : Ret)

structure Call where
  op : Op
  pc : Pc
  err : AList (fun _ : Bytes => Client.Ret) := ∅

/-- `items` are the clients there ever were; `mutex` is the call that holds the lock from
one step to the next. -/
structure St where
  mutex : Option ℕ := none
  clients : AList (fun _ : Bytes => PoolClient) := ∅
  errorHandler : Option ℕ := none
  items : ℕ → Option Item := fun _ => none
  nitems : ℕ := 0
  calls : ℕ → Option Call := fun _ => none

inductive Act
  | call (i : ℕ) (op : Op)
  | caller (i : ℕ)
  | dial (i : ℕ) (cfg : Client.Cfg) (err : Option Client.Err)
  | snapshot (i : ℕ) (clients : List ℕ)
  | enter (i k : ℕ)
  | client (c : ℕ) (a : Client.Act)

def Op.entry : Op → Pc
  | .close => .snapshot
  | _ => .start

def Op.ret (op : Op) (err : AList (fun _ : Bytes => Client.Ret)) : Ret :=
  match op with
  | .add _ _ _ => .added
  | .remove _ => .removed
  | .close => .closed err
  | .setErrorHandler _ => .installed

namespace St

def setPc (s : St) (i : ℕ) (call : Call) (pc : Pc) : St :=
  { s with calls := Function.update s.calls i (some { call with pc }) }

def setItem (s : St) (c : ℕ) (item : Item) : St :=
  { s with items := Function.update s.items c (some item) }

/-- `Clients[addr]` exists: `Add` only sets its rate. -/
def setRate (s : St) (addr : Bytes) (item : PoolClient) (rate : ℤ) : St :=
  { s with clients := s.clients.insert addr { item with rate } }

end St

def addStep (s : St) (i : ℕ) (call : Call) (addr : Bytes) (rate : ℤ) : Option St :=
  if s.mutex.isSome then none
  else match s.clients.lookup addr with
    | some item => some ((s.setRate addr item rate).setPc i call (.returned .added))
    -- unlocked here: the dial comes without the lock, and another call may overtake this one
    | none => some (s.setPc i call .dial)

def removeStep (s : St) (i : ℕ) (call : Call) (addr : Bytes) : Option St :=
  if s.mutex.isSome then none
  else match s.clients.lookup addr with
    | some item => some ({ s with clients := s.clients.erase addr }.setPc i call
        (.close [item.client]))
    | none => some ({ s with clients := s.clients.erase addr }.setPc i call (.returned .removed))

/-- `Add` has its client and takes the lock again. -/
def insertStep (s : St) (i : ℕ) (call : Call) (c : ℕ) (addr : Bytes) (rate : ℤ) : Option St :=
  if s.mutex.isSome then none
  else match s.clients.lookup addr with
    | some item => some ({ s.setRate addr item rate with mutex := some i }.setPc i call
        (.close [c]))
    | none => some ({ s with clients := s.clients.insert addr { client := c, rate } }.setPc i call
        (.returned .added))

def finishStep (s : St) (i : ℕ) (call : Call) : St :=
  { s with
    mutex := match call.op with
      -- the deferred `Unlock`: `Add` closes under the lock it has taken in `insertStep`
      | .add _ _ _ => none
      | _ => s.mutex }.setPc i call (.returned (call.op.ret call.err))

def closingStep (s : St) (i : ℕ) (call : Call) (c k : ℕ) (cs : List ℕ) : Option St := do
  let item ← s.items c
  let inner ← item.st.calls k
  match inner.pc with
  | .returned ret =>
    some (s.setPc i { call with err := call.err.insert item.addr ret } (.close cs))
  | _ => none

def callerStep (s : St) (i : ℕ) (call : Call) : Option St :=
  match call.pc, call.op with
  | .start, .add _ addr rate => addStep s i call addr rate
  | .start, .remove addr => removeStep s i call addr
  | .start, .setErrorHandler h => some ({ s with errorHandler := h }.setPc i call .snapshot)
  | .dialled c, _ => do
    let item ← s.items c
    -- `Add` installs the pool's handler only if there is one
    some ((s.setItem c { item with
      errorHandler := s.errorHandler <|> item.errorHandler }).setPc i call (.insert c))
  | .insert c, .add _ addr rate => insertStep s i call c addr rate
  | .close [], _ => some (finishStep s i call)
  | .closing c k cs, _ => closingStep s i call c k cs
  | .install (c :: cs), .setErrorHandler h => do
    let item ← s.items c
    some ((s.setItem c { item with errorHandler := h }).setPc i call (.install cs))
  | .install [], _ => some (s.setPc i call (.returned (call.op.ret call.err)))
  | _, _ => none

def dialStep (s : St) (i : ℕ) (cfg : Client.Cfg) (err : Option Client.Err) (call : Call) :
    Option St :=
  match call.pc, call.op, err with
  | .dial, .add _ _ _, some err => some (s.setPc i call (.returned (.err err)))
  | .dial, .add net addr _, none =>
    some ({ s.setItem s.nitems (.new net addr i cfg) with nitems := s.nitems + 1 }.setPc i call
      (.dialled s.nitems))
  | _, _, _ => none

def snapshotStep (s : St) (i : ℕ) (clients : List ℕ) (call : Call) : Option St :=
  match call.pc with
  | .snapshot =>
    -- under `RLock`, which waits for a writer only
    if s.mutex.isNone ∧ clients.Perm (s.clients.entries.map (·.2.client)) then
      match call.op with
      | .close => some (s.setPc i call (.close clients))
      | .setErrorHandler _ => some (s.setPc i call (.install clients))
      | _ => none
    else none
  | _ => none

/-- The next `c.Close()` begins, as the call `k` of the client. -/
def enterStep (s : St) (i k : ℕ) (call : Call) : Option St :=
  match call.pc with
  | .close (c :: cs) => do
    let item ← s.items c
    let item' ← item.step (.call k .close)
    some ((s.setItem c item').setPc i call (.closing c k cs))
  | _ => none

def step (s : St) : Act → Option St
  | .call i op =>
    if (s.calls i).isSome then none
    else some { s with calls := Function.update s.calls i (some { op, pc := op.entry }) }
  | .caller i => (s.calls i).bind (callerStep s i)
  | .dial i cfg err => (s.calls i).bind (dialStep s i cfg err)
  | .snapshot i clients => (s.calls i).bind (snapshotStep s i clients)
  | .enter i k => (s.calls i).bind (enterStep s i k)
  | .client c a => do
    let item ← s.items c
    let item' ← item.step a
    some (s.setItem c item')

def newPool : St := {}

variable {s t : St} {a : Act} {item item' : Item} {act : Client.Act}

theorem Item.step_eq_some (h : item.step act = some item') :
    ∃ t hr, Client.step item.cfg item.st act = some t ∧
      item' = { item with st := t, reach := hr } := by
  unfold Item.step at h
  split at h
  · cases h
  · rename_i t ht
    exact ⟨t, _, ht, (Option.some.inj h).symm⟩

inductive Move (s : St) : Act → St → Prop
  | begin (i : ℕ) (op : Op) (h : s.calls i = none) :
      Move s (.call i op)
        { s with calls := Function.update s.calls i (some { op, pc := op.entry }) }
  | present {i : ℕ} {call : Call} {net addr : Bytes} {rate : ℤ} {item : PoolClient}
      (h : s.calls i = some call) (hpc : call.pc = .start) (hop : call.op = .add net addr rate)
      (hmu : s.mutex = none) (hl : s.clients.lookup addr = some item) :
      Move s (.caller i) ((s.setRate addr item rate).setPc i call (.returned .added))
  | missing {i : ℕ} {call : Call} {net addr : Bytes} {rate : ℤ} (h : s.calls i = some call)
      (hpc : call.pc = .start) (hop : call.op = .add net addr rate) (hmu : s.mutex = none)
      (hl : s.clients.lookup addr = none) : Move s (.caller i) (s.setPc i call .dial)
  | removed {i : ℕ} {call : Call} {addr : Bytes} {item : PoolClient} (h : s.calls i = some call)
      (hpc : call.pc = .start) (hop : call.op = .remove addr) (hmu : s.mutex = none)
      (hl : s.clients.lookup addr = some item) :
      Move s (.caller i)
        ({ s with clients := s.clients.erase addr }.setPc i call (.close [item.client]))
  | absent {i : ℕ} {call : Call} {addr : Bytes} (h : s.calls i = some call)
      (hpc : call.pc = .start) (hop : call.op = .remove addr) (hmu : s.mutex = none)
      (hl : s.clients.lookup addr = none) :
      Move s (.caller i)
        ({ s with clients := s.clients.erase addr }.setPc i call (.returned .removed))
  | store {i : ℕ} {call : Call} {handler : Option ℕ} (h : s.calls i = some call)
      (hpc : call.pc = .start) (hop : call.op = .setErrorHandler handler) :
      Move s (.caller i) ({ s with errorHandler := handler }.setPc i call .snapshot)
  | dialFailed {i : ℕ} {call : Call} {net addr : Bytes} {rate : ℤ} {cfg : Client.Cfg}
      {err : Client.Err} (h : s.calls i = some call) (hpc : call.pc = .dial)
      (hop : call.op = .add net addr rate) :
      Move s (.dial i cfg (some err)) (s.setPc i call (.returned (.err err)))
  | dialled {i : ℕ} {call : Call} {net addr : Bytes} {rate : ℤ} {cfg : Client.Cfg}
      (h : s.calls i = some call) (hpc : call.pc = .dial) (hop : call.op = .add net addr rate) :
      Move s (.dial i cfg none)
        ({ s.setItem s.nitems (.new net addr i cfg) with nitems := s.nitems + 1 }.setPc i call
          (.dialled s.nitems))
  | handler {i : ℕ} {call : Call} {c : ℕ} {item : Item} (h : s.calls i = some call)
      (hpc : call.pc = .dialled c) (hc : s.items c = some item) :
      Move s (.caller i) ((s.setItem c { item with
        errorHandler := s.errorHandler <|> item.errorHandler }).setPc i call (.insert c))
  | lost {i : ℕ} {call : Call} {c : ℕ} {net addr : Bytes} {rate : ℤ} {item : PoolClient}
      (h : s.calls i = some call) (hpc : call.pc = .insert c) (hop : call.op = .add net addr rate)
      (hmu : s.mutex = none) (hl : s.clients.lookup addr = some item) :
      Move s (.caller i)
        ({ s.setRate addr item rate with mutex := some i }.setPc i call (.close [c]))
  | inserted {i : ℕ} {call : Call} {c : ℕ} {net addr : Bytes} {rate : ℤ}
      (h : s.calls i = some call) (hpc : call.pc = .insert c) (hop : call.op = .add net addr rate)
      (hmu : s.mutex = none) (hl : s.clients.lookup addr = none) :
      Move s (.caller i) ({ s with clients := s.clients.insert addr { client := c, rate } }.setPc
        i call (.returned .added))
  | closeAll {i : ℕ} {call : Call} {clients : List ℕ} (h : s.calls i = some call)
      (hpc : call.pc = .snapshot) (hop : call.op = .close) (hmu : s.mutex = none)
      (hs : clients.Perm (s.clients.entries.map (·.2.client))) :
      Move s (.snapshot i clients) (s.setPc i call (.close clients))
  | installAll {i : ℕ} {call : Call} {clients : List ℕ} {handler : Option ℕ}
      (h : s.calls i = some call) (hpc : call.pc = .snapshot)
      (hop : call.op = .setErrorHandler handler) (hmu : s.mutex = none)
      (hs : clients.Perm (s.clients.entries.map (·.2.client))) :
      Move s (.snapshot i clients) (s.setPc i call (.install clients))
  | enter {i k : ℕ} {call : Call} {c : ℕ} {cs : List ℕ} {item item' : Item}
      (h : s.calls i = some call) (hpc : call.pc = .close (c :: cs)) (hc : s.items c = some item)
      (hs : item.step (.call k .close) = some item') :
      Move s (.enter i k) ((s.setItem c item').setPc i call (.closing c k cs))
  | closed {i : ℕ} {call : Call} {c k : ℕ} {cs : List ℕ} {item : Item} {inner : Client.Call}
      {ret : Client.Ret} (h : s.calls i = some call) (hpc : call.pc = .closing c k cs)
      (hc : s.items c = some item) (hi : item.st.calls k = some inner)
      (hr : inner.pc = .returned ret) :
      Move s (.caller i)
        (s.setPc i { call with err := call.err.insert item.addr ret } (.close cs))
  | finish {i : ℕ} {call : Call} (h : s.calls i = some call) (hpc : call.pc = .close []) :
      Move s (.caller i) (finishStep s i call)
  | install {i : ℕ} {call : Call} {c : ℕ} {cs : List ℕ} {item : Item} {handler : Option ℕ}
      (h : s.calls i = some call) (hpc : call.pc = .install (c :: cs))
      (hop : call.op = .setErrorHandler handler) (hc : s.items c = some item) :
      Move s (.caller i)
        ((s.setItem c { item with errorHandler := handler }).setPc i call (.install cs))
  | installed {i : ℕ} {call : Call} (h : s.calls i = some call) (hpc : call.pc = .install []) :
      Move s (.caller i) (s.setPc i call (.returned (call.op.ret call.err)))
  | client {c : ℕ} {item item' : Item} {act : Client.Act} (hc : s.items c = some item)
      (hs : item.step act = some item') : Move s (.client c act) (s.setItem c item')

variable {i : ℕ} {call : Call}

theorem addStep_move {net addr : Bytes} {rate : ℤ} (hcall : s.calls i = some call)
    (hpc : call.pc = .start) (hop : call.op = .add net addr rate)
    (h : addStep s i call addr rate = some t) : Move s (.caller i) t := by
  simp only [addStep, Option.isSome_iff_ne_none, ne_eq, ite_not] at h
  split at h
  · rename_i hmu
    split at h <;> cases h
    · exact .present hcall hpc hop hmu (by assumption)
    · exact .missing hcall hpc hop hmu (by assumption)
  · cases h

theorem removeStep_move {addr : Bytes} (hcall : s.calls i = some call) (hpc : call.pc = .start)
    (hop : call.op = .remove addr) (h : removeStep s i call addr = some t) :
    Move s (.caller i) t := by
  simp only [removeStep, Option.isSome_iff_ne_none, ne_eq, ite_not] at h
  split at h
  · rename_i hmu
    split at h <;> cases h
    · exact .removed hcall hpc hop hmu (by assumption)
    · exact .absent hcall hpc hop hmu (by assumption)
  · cases h

theorem insertStep_move {c : ℕ} {net addr : Bytes} {rate : ℤ} (hcall : s.calls i = some call)
    (hpc : call.pc = .insert c) (hop : call.op = .add net addr rate)
    (h : insertStep s i call c addr rate = some t) : Move s (.caller i) t := by
  simp only [insertStep, Option.isSome_iff_ne_none, ne_eq, ite_not] at h
  split at h
  · rename_i hmu
    split at h <;> cases h
    · exact .lost hcall hpc hop hmu (by assumption)
    · exact .inserted hcall hpc hop hmu (by assumption)
  · cases h

theorem closingStep_move {c k : ℕ} {cs : List ℕ} (hcall : s.calls i = some call)
    (hpc : call.pc = .closing c k cs) (h : closingStep s i call c k cs = some t) :
    Move s (.caller i) t := by
  obtain ⟨item, hitem, h⟩ := Option.bind_eq_some_iff.mp h
  obtain ⟨inner, hinner, h⟩ := Option.bind_eq_some_iff.mp h
  split at h
  · cases h
    exact .closed hcall hpc hitem hinner (by assumption)
  · cases h

theorem callerStep_move (hcall : s.calls i = some call) (h : callerStep s i call = some t) :
    Move s (.caller i) t := by
  unfold callerStep at h
  split at h
  · exact addStep_move hcall (by assumption) (by assumption) h
  · exact removeStep_move hcall (by assumption) (by assumption) h
  · cases h
    exact .store hcall (by assumption) (by assumption)
  · obtain ⟨item, hitem, h⟩ := Option.bind_eq_some_iff.mp h
    cases h
    exact .handler hcall (by assumption) hitem
  · exact insertStep_move hcall (by assumption) (by assumption) h
  · cases h
    exact .finish hcall (by assumption)
  · exact closingStep_move hcall (by assumption) h
  · obtain ⟨item, hitem, h⟩ := Option.bind_eq_some_iff.mp h
    cases h
    exact .install hcall (by assumption) (by assumption) hitem
  · cases h
    exact .installed hcall (by assumption)
  · cases h

theorem dialStep_move {cfg : Client.Cfg} {err : Option Client.Err} (hcall : s.calls i = some call)
    (h : dialStep s i cfg err call = some t) : Move s (.dial i cfg err) t := by
  unfold dialStep at h
  split at h
  · cases h
    exact .dialFailed hcall (by assumption) (by assumption)
  · cases h
    exact .dialled hcall (by assumption) (by assumption)
  · cases h

theorem snapshotStep_move {clients : List ℕ} (hcall : s.calls i = some call)
    (h : snapshotStep s i clients call = some t) : Move s (.snapshot i clients) t := by
  unfold snapshotStep at h
  split at h
  · rename_i hpc
    split at h
    · rename_i hs
      have hmu : s.mutex = none := Option.isNone_iff_eq_none.mp hs.1
      split at h <;> cases h
      · exact .closeAll hcall hpc (by assumption) hmu hs.2
      · exact .installAll hcall hpc (by assumption) hmu hs.2
    · cases h
  · cases h

theorem enterStep_move {k : ℕ} (hcall : s.calls i = some call)
    (h : enterStep s i k call = some t) : Move s (.enter i k) t := by
  unfold enterStep at h
  split at h
  · obtain ⟨item, hitem, h⟩ := Option.bind_eq_some_iff.mp h
    obtain ⟨item', hstep, h⟩ := Option.bind_eq_some_iff.mp h
    cases h
    exact .enter hcall (by assumption) hitem hstep
  · cases h

theorem step_move (h : step s a = some t) : Move s a t := by
  cases a with
  | call i op =>
    simp only [step] at h
    split at h
    · cases h
    · rename_i hnew
      cases h
      exact .begin i op (Option.not_isSome_iff_eq_none.mp hnew)
  | caller i =>
    obtain ⟨call, hcall, h⟩ := Option.bind_eq_some_iff.mp h
    exact callerStep_move hcall h
  | dial i cfg err =>
    obtain ⟨call, hcall, h⟩ := Option.bind_eq_some_iff.mp h
    exact dialStep_move hcall h
  | snapshot i clients =>
    obtain ⟨call, hcall, h⟩ := Option.bind_eq_some_iff.mp h
    exact snapshotStep_move hcall h
  | enter i k =>
    obtain ⟨call, hcall, h⟩ := Option.bind_eq_some_iff.mp h
    exact enterStep_move hcall h
  | client c act =>
    obtain ⟨item, hitem, h⟩ := Option.bind_eq_some_iff.mp h
    obtain ⟨item', hstep, h⟩ := Option.bind_eq_some_iff.mp h
    cases h
    exact .client hitem hstep

end Gearman.Pool
