import Gearman.Decimal
import Gearman.Transition
import Gearman.WorkerExec

/-!
# The worker's API, one call at a time

An agent is whether a connection is published and the reader/writer that was last
published, with the packets written on it. A call that writes to an agent without
one dereferences nil, which is `none`; an error the call returns, or panics with in
the case of `Work`, stands beside the state. The order in which the function map is
ranged over and the agents whose dial fails are inputs of the call.

An agent with a connection has had one published, so `Ready`, which connects every
agent before it writes, never dereferences nil. The other calls write to whatever
agents there are.
-/

namespace Gearman.Worker.Calls
open Bytes Transition

structure Agent where
  conn : Bool := false
  rw : Option (List OutPack) := none

structure St where
  agents : List Agent := []
  funcs : JobFuncs := ∅
  running : Bool := false
  ready : Bool := false
  closed : Bool := false
  id : Bytes := []

inductive Call
  | addServer
  | addFunc (funcname : Bytes) (f : JobFunc)
  | removeFunc (funcname : Bytes)
  | reset
  | ready (fails : List ℕ) (order : List Bytes)
  | work (fails : List ℕ) (order : List Bytes)
  | echo (data : Bytes)
  | setId (id : Bytes)
  | close

def Agent.write (a : Agent) (outpack : OutPack) : Option Agent :=
  a.rw.map (fun log => { a with rw := some (log ++ [outpack]) })

def broadcast (outpack : OutPack) : List Agent → Option (List Agent)
  | [] => some []
  | a :: as => do
    let a ← a.write outpack
    let as ← broadcast outpack as
    return a :: as

def prepFuncOutpack (funcname : Bytes) (timeout : UInt32) : Option OutPack :=
  if timeout = 0 then return { dataType := dtCanDo, data := funcname }
  else do
    let l := funcname.length
    let timeoutString := Decimal.formatUint timeout.toNat
    let data := getBuffer (l + timeoutString.length + 1)
    let (data, _) ← copyTo data 0 data.length funcname
    let data ← setAt data l 0
    let (data, _) ← copyTo data (l + 1) data.length timeoutString
    return { dataType := dtCanDoTimeout, data }

def addFuncOut (funcname : Bytes) (timeout : UInt32) (agents : List Agent) :
    Option (List Agent) := do
  let outpack ← prepFuncOutpack funcname timeout
  broadcast outpack agents

def funcExists (funcname : Bytes) : Err :=
  .errorf "The function already exists: %s" [.bytes funcname]

def addFunc (s : St) (funcname : Bytes) (f : JobFunc) : Option (St × Option Err) :=
  if (s.funcs.lookup funcname).isSome then some (s, some (funcExists funcname))
  else
    let s := { s with funcs := s.funcs.insert funcname f }
    if s.running then do
      let agents ← addFuncOut funcname f.timeout s.agents
      return ({ s with agents }, none)
    else some (s, none)

def removeFunc (s : St) (funcname : Bytes) : Option (St × Option Err) :=
  if (s.funcs.lookup funcname).isNone then some (s, some (Exec.funcMissing funcname))
  else
    let s := { s with funcs := s.funcs.erase funcname }
    if s.running then do
      let agents ← broadcast { dataType := dtCantDo, data := funcname } s.agents
      return ({ s with agents }, none)
    else some (s, none)

def dialErr : Err := .op false

/-- `Connect` on the agents in order, numbered from `i`; it stops at a failed dial. -/
def connectAll (fails : List ℕ) : ℕ → List Agent → List Agent × Option Err
  | _, [] => ([], none)
  | i, a :: as =>
    if a.conn then
      ((a :: (connectAll fails (i + 1) as).1), (connectAll fails (i + 1) as).2)
    else if i ∈ fails then (a :: as, some dialErr)
    else
      (({ conn := true, rw := some [] } :: (connectAll fails (i + 1) as).1),
        (connectAll fails (i + 1) as).2)

def announceAll (funcs : JobFuncs) : List Bytes → List Agent → Option (List Agent)
  | [], agents => some agents
  | funcname :: order, agents =>
    match funcs.lookup funcname with
    | none => announceAll funcs order agents
    | some f => do
      let agents ← addFuncOut funcname f.timeout agents
      announceAll funcs order agents

def ready (s : St) (fails : List ℕ) (order : List Bytes) : Option (St × Option Err) :=
  if s.agents = [] then some (s, some .noneAgents)
  else if s.funcs.keys = [] then some (s, some .noneFuncs)
  else
    match connectAll fails 0 s.agents with
    | (agents, some err) => some ({ s with agents }, some err)
    | (agents, none) => do
      let agents ← announceAll s.funcs order agents
      return ({ s with agents, ready := true }, none)

def start (s : St) : Option (St × Option Err) := do
  let agents ← broadcast { dataType := dtGrabJobUniq } s.agents
  return ({ s with agents, running := true }, none)

def work (s : St) (fails : List ℕ) (order : List Bytes) : Option (St × Option Err) :=
  if s.ready then start s
  else do
    let (s, err) ← ready s fails order
    match err with
    | some err => return (s, some err)
    | none => start s

def step (s : St) : Call → Option (St × Option Err)
  | .addServer => some ({ s with agents := s.agents ++ [{}] }, none)
  | .addFunc funcname f => addFunc s funcname f
  | .removeFunc funcname => removeFunc s funcname
  | .reset => do
    let agents ← broadcast { dataType := dtResetAbilities } s.agents
    return ({ s with agents, funcs := ∅ }, none)
  | .ready fails order => ready s fails order
  | .work fails order => work s fails order
  | .echo data => do
    let agents ← broadcast { dataType := dtEchoReq, data } s.agents
    return ({ s with agents }, none)
  | .setId id => do
    let agents ← broadcast { dataType := dtSetClientId, data := id } s.agents
    return ({ s with agents, id }, none)
  | .close =>
    if s.closed then some (s, none)
    else some ({ s with
      closed := true
      running := false
      agents := s.agents.map (fun a => { a with conn := false }) }, none)

def next (s : St) (call : Call) : Option St := (step s call).map Prod.fst

/-- A ranged map yields each of its keys once, in any order. -/
def ranges (s : St) : Call → Bool
  | .ready _ order => order.isPerm s.funcs.keys
  | .work _ order => order.isPerm s.funcs.keys
  | _ => true

theorem broadcast_eq {outpack : OutPack} {agents : List Agent}
    (h : ∀ a ∈ agents, a.rw.isSome = true) :
    broadcast outpack agents =
      some (agents.map (fun a => { a with rw := a.rw.map (· ++ [outpack]) })) := by
  induction agents with
  | nil => rfl
  | cons a agents ih =>
    obtain ⟨log, hlog⟩ := Option.isSome_iff_exists.mp (h a (by simp))
    have ht := ih (fun b hb => h b (by simp [hb]))
    simp [broadcast, Agent.write, hlog, ht]

def funcPack (funcname : Bytes) (timeout : UInt32) : OutPack :=
  if timeout = 0 then { dataType := dtCanDo, data := funcname }
  else { dataType := dtCanDoTimeout
         data := funcname ++ 0 :: Decimal.formatUint timeout.toNat }

theorem prepFuncOutpack_eq (funcname : Bytes) (timeout : UInt32) :
    prepFuncOutpack funcname timeout = some (funcPack funcname timeout) := by
  by_cases ht : timeout = 0
  · simp [prepFuncOutpack, funcPack, ht]
  · generalize hd : Decimal.formatUint timeout.toNat = d
    have hz : getBuffer (funcname.length + d.length + 1) =
        [] ++ zeros funcname.length ++ (0 :: zeros d.length) := by
      rw [getBuffer, Nat.add_assoc, zeros_add, zeros_succ, List.nil_append]
    have hf := copyTo_append [] (zeros funcname.length) (0 :: zeros d.length) funcname
      (i := 0) (j := ([] ++ zeros funcname.length ++ (0 :: zeros d.length)).length) rfl
      (by simp) (by simp) le_rfl
    have hs : setAt ([] ++ funcname ++ (0 :: zeros d.length)) funcname.length 0 =
        some ((funcname ++ [0]) ++ zeros d.length ++ []) := by
      rw [List.nil_append, setAt_append _ _ _ _ rfl]
      simp
    have hc := copyTo_append (funcname ++ [0]) (zeros d.length) [] d (i := funcname.length + 1)
      (j := ((funcname ++ [0]) ++ zeros d.length ++ []).length) (by simp) (by simp)
      (by simp; omega) le_rfl
    simp only [prepFuncOutpack, if_neg ht, hd, hz, hf, hs, hc, Option.bind_eq_bind,
      Option.bind_some, Option.pure_def]
    simp [funcPack, ht, hd]

theorem broadcast_isSome_iff {outpack : OutPack} {agents : List Agent} :
    (broadcast outpack agents).isSome = true ↔ ∀ a ∈ agents, a.rw.isSome = true := by
  induction agents with
  | nil => simp [broadcast]
  | cons a agents ih =>
    cases hrw : a.rw with
    | none => simp [broadcast, Agent.write, hrw]
    | some log =>
      rw [List.forall_mem_cons, ← ih]
      cases hb : broadcast outpack agents <;> simp [broadcast, Agent.write, hrw, hb]

theorem addFuncOut_isSome_iff {funcname : Bytes} {timeout : UInt32} {agents : List Agent} :
    (addFuncOut funcname timeout agents).isSome = true ↔ ∀ a ∈ agents, a.rw.isSome = true := by
  simp only [addFuncOut, prepFuncOutpack_eq, Option.bind_eq_bind, Option.bind_some]
  exact broadcast_isSome_iff

/-- An agent is connected only over a reader/writer. -/
def Backed (agents : List Agent) : Prop := ∀ a ∈ agents, a.conn = true → a.rw.isSome = true

theorem Agent.backed_write {a b : Agent} {outpack : OutPack} (h : a.write outpack = some b) :
    b.rw.isSome = true := by
  obtain ⟨log, -, rfl⟩ := Option.map_eq_some_iff.mp h
  rfl

theorem backed_broadcast {outpack : OutPack} {agents agents' : List Agent}
    (h : broadcast outpack agents = some agents') : ∀ a ∈ agents', a.rw.isSome = true := by
  induction agents generalizing agents' with
  | nil =>
    cases h
    simp
  | cons a agents ih =>
    obtain ⟨b, hb, h⟩ := Option.bind_eq_some_iff.mp h
    obtain ⟨rest, hrest, h⟩ := Option.bind_eq_some_iff.mp h
    cases h
    exact List.forall_mem_cons.mpr ⟨Agent.backed_write hb, ih hrest⟩

theorem backed_addFuncOut {funcname : Bytes} {timeout : UInt32} {agents agents' : List Agent}
    (h : addFuncOut funcname timeout agents = some agents') :
    ∀ a ∈ agents', a.rw.isSome = true := by
  obtain ⟨outpack, -, h⟩ := Option.bind_eq_some_iff.mp h
  exact backed_broadcast h

theorem backed_announceAll (funcs : JobFuncs) (order : List Bytes) {agents : List Agent}
    (h : ∀ a ∈ agents, a.rw.isSome = true) :
    ∃ agents', announceAll funcs order agents = some agents' ∧
      ∀ a ∈ agents', a.rw.isSome = true := by
  induction order generalizing agents with
  | nil => exact ⟨agents, rfl, h⟩
  | cons funcname order ih =>
    cases hf : funcs.lookup funcname with
    | none =>
      obtain ⟨agents', heq, hall⟩ := ih h
      exact ⟨agents', by simp only [announceAll, hf, heq], hall⟩
    | some f =>
      obtain ⟨mid, hmid⟩ := Option.isSome_iff_exists.mp
        ((@addFuncOut_isSome_iff funcname f.timeout agents).mpr h)
      obtain ⟨agents', heq, hall⟩ := ih (backed_addFuncOut hmid)
      exact ⟨agents', by simp only [announceAll, hf, hmid, Option.bind_eq_bind, Option.bind_some,
        heq], hall⟩

theorem backed_connectAll {fails : List ℕ} {i : ℕ} {agents : List Agent} (h : Backed agents) :
    Backed (connectAll fails i agents).1 ∧ ((connectAll fails i agents).2 = none →
      ∀ a ∈ (connectAll fails i agents).1, a.rw.isSome = true) := by
  induction agents generalizing i with
  | nil => simp [connectAll, Backed]
  | cons a agents ih =>
    obtain ⟨ha, hrest⟩ := List.forall_mem_cons.mp h
    obtain ⟨hb, hall⟩ := ih (i := i + 1) hrest
    by_cases hc : a.conn = true
    · simp only [connectAll, if_pos hc]
      exact ⟨List.forall_mem_cons.mpr ⟨ha, hb⟩,
        fun hn => List.forall_mem_cons.mpr ⟨ha hc, hall hn⟩⟩
    · by_cases hi : i ∈ fails
      · simp only [connectAll, if_neg hc, if_pos hi]
        exact ⟨h, fun hn => by cases hn⟩
      · simp only [connectAll, if_neg hc, if_neg hi]
        exact ⟨List.forall_mem_cons.mpr ⟨fun _ => rfl, hb⟩,
          fun hn => List.forall_mem_cons.mpr ⟨rfl, hall hn⟩⟩

theorem ready_spec {s : St} (h : Backed s.agents) (fails : List ℕ) (order : List Bytes) :
    ∃ t err, ready s fails order = some (t, err) ∧ Backed t.agents ∧
      (err = none → ∀ a ∈ t.agents, a.rw.isSome = true) := by
  unfold ready
  split_ifs with hagents hfuncs
  · exact ⟨s, _, rfl, h, fun hn => by cases hn⟩
  · exact ⟨s, _, rfl, h, fun hn => by cases hn⟩
  · obtain ⟨hb, hall⟩ := backed_connectAll (i := 0) h
    generalize connectAll fails 0 s.agents = connected at hb hall
    match connected, hb, hall with
    | (agents, some err), hb, _ => exact ⟨_, _, rfl, hb, fun hn => by cases hn⟩
    | (agents, none), _, hall =>
      obtain ⟨agents', heq, hall'⟩ :=
        backed_announceAll s.funcs order (hall rfl)
      refine ⟨{ s with agents := agents', ready := true }, none, ?_,
        fun a ha _ => hall' a ha, fun _ => hall'⟩
      simp only [heq, Option.bind_eq_bind, Option.bind_some, Option.pure_def]

/-- The call writes to every agent that has been added, connected or not. -/
def writesAll (s : St) : Call → Bool
  | .addFunc funcname _ => s.running && (s.funcs.lookup funcname).isNone
  | .removeFunc funcname => s.running && (s.funcs.lookup funcname).isSome
  | .work _ _ => s.ready
  | .reset => true
  | .echo _ => true
  | .setId _ => true
  | .addServer => false
  | .ready _ _ => false
  | .close => false

theorem isSome_of_broadcast {outpack : OutPack} {agents : List Agent} {f : List Agent → St} :
    ((broadcast outpack agents).bind fun agents => some (f agents, (none : Option Err))).isSome =
      true ↔ ∀ a ∈ agents, a.rw.isSome = true := by
  rw [← @broadcast_isSome_iff outpack]
  cases broadcast outpack agents <;> simp

theorem start_isSome_iff {s : St} :
    (start s).isSome = true ↔ ∀ a ∈ s.agents, a.rw.isSome = true := by
  simpa [start] using isSome_of_broadcast

theorem step_isSome_iff {s : St} (h : Backed s.agents) (call : Call) :
    (step s call).isSome = true ↔
      (writesAll s call = true → ∀ a ∈ s.agents, a.rw.isSome = true) := by
  cases call with
  | addServer => simp [step, writesAll]
  | addFunc funcname f =>
    cases hf : s.funcs.lookup funcname with
    | some g => simp [step, addFunc, writesAll, hf]
    | none =>
      cases hr : s.running with
      | false => simp [step, addFunc, writesAll, hf, hr]
      | true =>
        simp only [step, addFunc, addFuncOut, prepFuncOutpack_eq, hf, hr, writesAll]
        simpa using isSome_of_broadcast
  | removeFunc funcname =>
    cases hf : s.funcs.lookup funcname with
    | none => simp [step, removeFunc, writesAll, hf]
    | some g =>
      cases hr : s.running with
      | false => simp [step, removeFunc, writesAll, hf, hr]
      | true =>
        simp only [step, removeFunc, hf, hr, writesAll]
        simpa using isSome_of_broadcast
  | reset => simpa [step, writesAll] using isSome_of_broadcast
  | echo data => simpa [step, writesAll] using isSome_of_broadcast
  | setId id => simpa [step, writesAll] using isSome_of_broadcast
  | ready fails order =>
    obtain ⟨t, err, heq, -⟩ := ready_spec h fails order
    simp [step, writesAll, heq]
  | work fails order =>
    cases hr : s.ready with
    | true => simp [step, work, writesAll, hr, start_isSome_iff]
    | false =>
      obtain ⟨t, err, heq, -, hall⟩ := ready_spec h fails order
      cases err with
      | some err => simp [step, work, writesAll, hr, heq]
      | none =>
        have hstart := start_isSome_iff.mpr (hall rfl)
        simpa [step, work, writesAll, hr, heq] using hstart
  | close =>
    cases hc : s.closed <;> simp [step, writesAll, hc]

theorem backed_of_broadcast {outpack : OutPack} {agents : List Agent} {f : List Agent → St}
    {t : St} {err : Option Err} (hf : ∀ agents, (f agents).agents = agents)
    (ht : (broadcast outpack agents).bind (fun agents => some (f agents, (none : Option Err))) =
      some (t, err)) : Backed t.agents := by
  obtain ⟨agents', hb, ht⟩ := Option.bind_eq_some_iff.mp ht
  cases ht
  rw [hf]
  exact fun a ha _ => backed_broadcast hb a ha

theorem Backed.step {s t : St} {call : Call} {err : Option Err} (h : Backed s.agents)
    (ht : step s call = some (t, err)) : Backed t.agents := by
  cases call with
  | addServer =>
    cases ht
    intro a ha hc
    rcases List.mem_append.mp ha with ha | ha
    · exact h a ha hc
    · rw [List.mem_singleton.mp ha] at hc
      cases hc
  | addFunc funcname f =>
    simp only [Calls.step, addFunc, addFuncOut, prepFuncOutpack_eq] at ht
    split_ifs at ht with hf hr
    · cases ht
      exact h
    · exact backed_of_broadcast (fun _ => rfl) ht
    · cases ht
      exact h
  | removeFunc funcname =>
    simp only [Calls.step, removeFunc] at ht
    split_ifs at ht with hf hr
    · cases ht
      exact h
    · exact backed_of_broadcast (fun _ => rfl) ht
    · cases ht
      exact h
  | reset => exact backed_of_broadcast (fun _ => rfl) ht
  | echo data => exact backed_of_broadcast (fun _ => rfl) ht
  | setId id => exact backed_of_broadcast (fun _ => rfl) ht
  | ready fails order =>
    obtain ⟨t', err', heq, hb, -⟩ := ready_spec h fails order
    cases heq.symm.trans ht
    exact hb
  | work fails order =>
    simp only [Calls.step, work] at ht
    split_ifs at ht with hr
    · exact backed_of_broadcast (fun _ => rfl) ht
    · obtain ⟨t', err', heq, hb, -⟩ := ready_spec h fails order
      rw [heq] at ht
      cases err' with
      | some e =>
        cases ht
        exact hb
      | none => exact backed_of_broadcast (fun _ => rfl) ht
  | close =>
    simp only [Calls.step] at ht
    split_ifs at ht with hc
    · cases ht
      exact h
    · cases ht
      intro a ha hconn
      obtain ⟨b, -, rfl⟩ := List.mem_map.mp ha
      cases hconn

/-- After any calls, the next one goes through exactly if it does not write to an agent
that has never been connected. -/
theorem call_completes_iff {s : St} (h : Reachable next always {} s) (call : Call) :
    (next s call).isSome = true ↔
      (writesAll s call = true → ∀ a ∈ s.agents, a.rw.isSome = true) := by
  have hb : Backed s.agents := by
    refine h.invariant (I := fun s => Backed s.agents) (fun a ha => by cases ha) ?_
    intro s call t hs _ ht
    obtain ⟨⟨t', err⟩, hstep, rfl⟩ := Option.map_eq_some_iff.mp ht
    exact hs.step hstep
  rw [next, Option.isSome_map]
  exact step_isSome_iff hb call

def demoFunc : JobFunc := { f := fun _ => .returned [] none, timeout := 0 }

/-- `AddServer` and a second `Ready` connect the new agent before anything is written. -/
theorem call_completes_after_ready :
    ∃ s, Reachable next always {} s ∧ writesAll s (.echo []) = true ∧
      (next s (.echo [])).isSome = true := by
  obtain ⟨s, hs, hw, hall⟩ : ∃ s, Transition.run next always {}
      [.addServer, .addFunc [] demoFunc, .ready [] [[]], .addServer, .ready [] [[]]] = some s ∧
        writesAll s (.echo []) = true ∧ ∀ a ∈ s.agents, a.rw.isSome = true :=
    ⟨_, rfl, rfl, by simp⟩
  exact ⟨s, ⟨_, hs⟩, hw, (call_completes_iff ⟨_, hs⟩ (.echo [])).mpr (fun _ => hall)⟩

/-- `Echo` before `Ready`, `Work` after an `AddServer` that follows `Ready`, and `AddFunc` after
an `AddServer` on a running worker write to an agent without a connection. -/
theorem call_without_connection :
    (Transition.run next always {} [.addServer]).map
      (fun s => (next s (.echo [])).isSome) = some false ∧
    (Transition.run next always {}
      [.addServer, .addFunc [] demoFunc, .ready [] [[]], .addServer]).map
      (fun s => (next s (.work [] [[]])).isSome) = some false ∧
    (Transition.run next always {}
      [.addServer, .addFunc [] demoFunc, .work [] [[]], .addServer]).map
      (fun s => (next s (.addFunc [1] demoFunc)).isSome) = some false := by
  exact ⟨rfl, rfl, rfl⟩

end Gearman.Worker.Calls
