import Gearman.Transition
import Gearman.WorkerCalls

/-!
# What the job servers believe the worker can do

A job server folds the packets of a connection into its ability table: `CAN_DO`
and `CAN_DO_TIMEOUT` add a name, `CANT_DO` removes it and `RESET_ABILITIES` clears
the table. The worker tells the servers of a change only when it is running, and
announces everything it has in `Ready`, which comes before it runs.
-/

namespace Gearman.Worker.Calls
open Bytes Transition

abbrev Abilities := AList (fun _ : Bytes => ℕ)

def learn (table : Abilities) (outpack : OutPack) : Abilities :=
  if outpack.dataType = dtCanDo then table.insert outpack.body 0
  else if outpack.dataType = dtCanDoTimeout then
    match indexByte 0 outpack.body with
    | none => table
    | some i =>
      match Decimal.parseUint (outpack.body.drop (i + 1)) with
      | none => table
      | some timeout => table.insert (outpack.body.take i) timeout
  else if outpack.dataType = dtCantDo then table.erase outpack.body
  else if outpack.dataType = dtResetAbilities then ∅
  else table

def abilities (log : List OutPack) : Abilities := log.foldl learn ∅

def registered (funcs : JobFuncs) (funcname : Bytes) : Option ℕ :=
  (funcs.lookup funcname).map (fun f => f.timeout.toNat)

def Agrees (funcs : JobFuncs) (log : List OutPack) : Prop :=
  ∀ funcname, (abilities log).lookup funcname = registered funcs funcname

def Announced (s : St) : Prop :=
  ∀ a ∈ s.agents, a.conn = true → ∃ log, a.rw = some log ∧ Agrees s.funcs log

/-- The calls of a program that adds its servers before `Ready`, resets after it, and
whose dials all succeed. -/
def sequential (s : St) : Call → Bool
  | .addServer => !s.ready
  | .addFunc _ _ => true
  | .removeFunc _ => true
  | .reset => s.ready
  | .ready fails order => fails.isEmpty && ranges s (.ready fails order)
  | .work fails order => fails.isEmpty && ranges s (.work fails order)
  | _ => false

/-- Function names a `CAN_DO_TIMEOUT` body can carry. -/
def nameable (funcname : Bytes) (f : JobFunc) : Bool :=
  f.timeout = 0 || !funcname.contains 0

/-- A change of the functions is announced: the servers have not been told anything
yet, or the worker runs. -/
def announces (s : St) : Call → Bool
  | .addFunc funcname f =>
    (s.funcs.lookup funcname).isSome || ((!s.ready || s.running) && nameable funcname f)
  | .removeFunc funcname => (s.funcs.lookup funcname).isNone || !s.ready || s.running
  | _ => true

theorem abilities_append (log : List OutPack) (outpack : OutPack) :
    abilities (log ++ [outpack]) = learn (abilities log) outpack := by
  simp [abilities]

theorem learn_funcPack (table : Abilities) {funcname : Bytes} {f : JobFunc}
    (hn : nameable funcname f = true) :
    learn table (funcPack funcname f.timeout) = table.insert funcname f.timeout.toNat := by
  by_cases ht : f.timeout = 0
  · simp [learn, funcPack, OutPack.body, ht, dtCanDo, dtWorkFail]
  · have hnul : (0 : UInt8) ∉ funcname := by simpa [nameable, ht] using hn
    have hi := indexByte_append funcname (Decimal.formatUint f.timeout.toNat) hnul
    have hp := Decimal.parseUint_formatUint f.timeout.toNat
    have hb : (funcPack funcname f.timeout).body =
        funcname ++ 0 :: Decimal.formatUint f.timeout.toNat := by
      simp [funcPack, OutPack.body, ht, dtCanDoTimeout, dtWorkFail]
    have hd : (funcPack funcname f.timeout).dataType = dtCanDoTimeout := by
      simp [funcPack, ht]
    simp [learn, hd, hb, hi, hp, dtCanDoTimeout, dtCanDo]

theorem lookup_insert_eq (table : Abilities) (funcname name : Bytes) (n : ℕ) :
    (table.insert funcname n).lookup name =
      if name = funcname then some n else table.lookup name := by
  by_cases h : name = funcname
  · subst h
    simp
  · simp [h, AList.lookup_insert_ne h]

theorem registered_insert (funcs : JobFuncs) (funcname name : Bytes) (f : JobFunc) :
    registered (funcs.insert funcname f) name =
      if name = funcname then some f.timeout.toNat else registered funcs name := by
  by_cases h : name = funcname
  · subst h
    simp [registered]
  · simp [registered, h, AList.lookup_insert_ne h]

theorem Agrees.insert {funcs : JobFuncs} {log : List OutPack} (h : Agrees funcs log)
    {funcname : Bytes} {f : JobFunc} (hn : nameable funcname f = true) :
    Agrees (funcs.insert funcname f) (log ++ [funcPack funcname f.timeout]) := by
  intro name
  rw [abilities_append, learn_funcPack _ hn, lookup_insert_eq, registered_insert, h name]

theorem Agrees.erase {funcs : JobFuncs} {log : List OutPack} (h : Agrees funcs log)
    (funcname : Bytes) :
    Agrees (funcs.erase funcname) (log ++ [{ dataType := dtCantDo, data := funcname }]) := by
  intro name
  have hl : learn (abilities log) { dataType := dtCantDo, data := funcname } =
      (abilities log).erase funcname := by
    simp [learn, OutPack.body, dtCantDo, dtCanDo, dtCanDoTimeout, dtWorkFail]
  rw [abilities_append, hl]
  by_cases hne : name = funcname
  · subst hne
    simp [registered]
  · rw [registered, AList.lookup_erase_ne hne, AList.lookup_erase_ne hne]
    exact h name

theorem agrees_reset (log : List OutPack) :
    Agrees ∅ (log ++ [{ dataType := dtResetAbilities }]) := by
  intro name
  simp [abilities_append, learn, registered, dtResetAbilities, dtCantDo, dtCanDo,
    dtCanDoTimeout]

theorem Agrees.grab {funcs : JobFuncs} {log : List OutPack} (h : Agrees funcs log) :
    Agrees funcs (log ++ [{ dataType := dtGrabJobUniq }]) := by
  intro name
  have hl : learn (abilities log) { dataType := dtGrabJobUniq } = abilities log := by
    simp [learn, dtGrabJobUniq, dtResetAbilities, dtCantDo, dtCanDo, dtCanDoTimeout]
  rw [abilities_append, hl]
  exact h name

def Told (Q : List OutPack → Prop) (agents : List Agent) : Prop :=
  ∀ a ∈ agents, a.conn = true ∧ ∃ log, a.rw = some log ∧ Q log

theorem Told.mono {Q R : List OutPack → Prop} {agents : List Agent} (h : Told Q agents)
    (hqr : ∀ log, Q log → R log) : Told R agents := by
  intro a ha
  obtain ⟨hc, log, hrw, hq⟩ := h a ha
  exact ⟨hc, log, hrw, hqr log hq⟩

theorem Told.broadcast {Q R : List OutPack → Prop} {agents : List Agent} (h : Told Q agents)
    (outpack : OutPack) (hqr : ∀ log, Q log → R (log ++ [outpack])) :
    ∃ agents', broadcast outpack agents = some agents' ∧ Told R agents' := by
  refine ⟨_, broadcast_eq ?_, ?_⟩
  · intro a ha
    obtain ⟨_, log, hrw, _⟩ := h a ha
    simp [hrw]
  · intro b hb
    obtain ⟨a, ha, rfl⟩ := List.mem_map.mp hb
    obtain ⟨hc, log, hrw, hq⟩ := h a ha
    exact ⟨hc, log ++ [outpack], by simp [hrw], hqr log hq⟩

theorem Told.addFuncOut {Q R : List OutPack → Prop} {agents : List Agent} (h : Told Q agents)
    (funcname : Bytes) (timeout : UInt32)
    (hqr : ∀ log, Q log → R (log ++ [funcPack funcname timeout])) :
    ∃ agents', addFuncOut funcname timeout agents = some agents' ∧ Told R agents' := by
  rw [Calls.addFuncOut, prepFuncOutpack_eq]
  exact h.broadcast _ hqr

theorem connectAll_ok (i : ℕ) (agents : List Agent) :
    connectAll [] i agents =
      (agents.map (fun a => if a.conn then a else { conn := true, rw := some [] }), none) := by
  induction agents generalizing i with
  | nil => rfl
  | cons a agents ih =>
    cases ha : a.conn <;> simp [connectAll, ih, ha]

/-- The names still to be announced are the only ones the table may be wrong about. -/
def Pending (funcs : JobFuncs) (order : List Bytes) (log : List OutPack) : Prop :=
  ∀ name, name ∉ order → (abilities log).lookup name = registered funcs name

theorem Pending.announce {funcs : JobFuncs} {order : List Bytes} {log : List OutPack}
    {funcname : Bytes} {f : JobFunc} (hf : funcs.lookup funcname = some f)
    (hn : nameable funcname f = true) (h : Pending funcs (funcname :: order) log) :
    Pending funcs order (log ++ [funcPack funcname f.timeout]) := by
  intro name hname
  rw [abilities_append, learn_funcPack _ hn, lookup_insert_eq]
  split_ifs with he
  · subst he
    simp [registered, hf]
  · apply h
    simp [he, hname]

theorem announceAll_told {funcs : JobFuncs} {order : List Bytes} {agents : List Agent}
    (hnames : ∀ name f, funcs.lookup name = some f → nameable name f = true)
    (hkeys : ∀ name ∈ order, (funcs.lookup name).isSome = true)
    (h : Told (Pending funcs order) agents) :
    ∃ agents', announceAll funcs order agents = some agents' ∧ Told (Agrees funcs) agents' := by
  induction order generalizing agents with
  | nil => exact ⟨agents, rfl, h.mono (fun log hp name => hp name List.not_mem_nil)⟩
  | cons funcname order ih =>
    obtain ⟨f, hf⟩ := Option.isSome_iff_exists.mp (hkeys funcname (by simp))
    obtain ⟨agents₁, h₁, ht₁⟩ := h.addFuncOut funcname f.timeout
      (fun log hp => hp.announce hf (hnames funcname f hf))
    obtain ⟨agents₂, h₂, ht₂⟩ := ih (fun name hm => hkeys name (by simp [hm])) ht₁
    exact ⟨agents₂, by simp [announceAll, hf, h₁, h₂], ht₂⟩

structure Inv (s : St) : Prop where
  idle : s.ready = false → s.running = false ∧ ∀ a ∈ s.agents, a.conn = false
  told : s.ready = true → Told (Agrees s.funcs) s.agents
  names : ∀ name f, s.funcs.lookup name = some f → nameable name f = true

theorem inv_start : Inv {} where
  idle := by simp
  told := by simp
  names := by simp

theorem Inv.ready {s t : St} (hi : Inv s) {order : List Bytes} {err : Option Err}
    (hord : order.isPerm s.funcs.keys = true) (h : Calls.ready s [] order = some (t, err)) :
    Inv t ∧ (err = none → t.ready = true) := by
  simp only [Calls.ready, connectAll_ok] at h
  split_ifs at h with ha hf
  · cases h
    exact ⟨hi, by simp⟩
  · cases h
    exact ⟨hi, by simp⟩
  have hperm := List.isPerm_iff.mp hord
  have hpending : Told (Pending s.funcs order)
      (s.agents.map (fun a => if a.conn then a else { conn := true, rw := some [] })) := by
    intro b hb
    obtain ⟨a, ham, rfl⟩ := List.mem_map.mp hb
    cases hr : s.ready with
    | true =>
      obtain ⟨hc, log, hrw, hag⟩ := hi.told hr a ham
      simp only [hc, if_true]
      exact ⟨trivial, log, hrw, fun name _ => hag name⟩
    | false =>
      have hc := (hi.idle hr).2 a ham
      simp only [hc, Bool.false_eq_true, if_false]
      refine ⟨trivial, [], rfl, ?_⟩
      intro name hname
      have hk : name ∉ s.funcs.keys := fun hm => hname (hperm.mem_iff.mpr hm)
      have hl : s.funcs.lookup name = none := AList.lookup_eq_none.mpr hk
      simp [abilities, registered, hl]
  obtain ⟨agents, hann, htold⟩ := announceAll_told hi.names (fun name hm =>
    AList.lookup_isSome.mpr (AList.mem_keys.mpr (hperm.mem_iff.mp hm))) hpending
  simp only [hann, Option.bind_eq_bind, Option.bind_some, Option.pure_def, Option.some.injEq,
    Prod.mk.injEq] at h
  obtain ⟨rfl, rfl⟩ := h
  exact ⟨⟨by simp, fun _ => htold, hi.names⟩, fun _ => rfl⟩

theorem Inv.start {s : St} (hi : Inv s) (hr : s.ready = true) :
    ∃ t, Calls.start s = some (t, none) ∧ Inv t := by
  obtain ⟨agents, hb, ht⟩ := (hi.told hr).broadcast { dataType := dtGrabJobUniq }
    (fun log hag => hag.grab)
  refine ⟨{ s with agents, running := true }, by simp [Calls.start, hb], ?_⟩
  exact ⟨fun h => absurd h (by simp [hr]), fun _ => ht, hi.names⟩

theorem Inv.work {s t : St} (hi : Inv s) {order : List Bytes} {err : Option Err}
    (hord : order.isPerm s.funcs.keys = true) (h : Calls.work s [] order = some (t, err)) :
    Inv t := by
  rw [Calls.work] at h
  split_ifs at h with hr
  · obtain ⟨u, hu, hiu⟩ := hi.start hr
    cases hu.symm.trans h
    exact hiu
  obtain ⟨⟨u, e⟩, hready, hrest⟩ := Option.bind_eq_some_iff.mp h
  obtain ⟨hiu, hru⟩ := hi.ready hord hready
  cases e with
  | some e =>
    cases hrest
    exact hiu
  | none =>
    obtain ⟨v, hv, hiv⟩ := hiu.start (hru rfl)
    cases hv.symm.trans hrest
    exact hiv

theorem Inv.addServer {s : St} (hi : Inv s) (hr : s.ready = false) :
    Inv { s with agents := s.agents ++ [{}] } where
  idle := by
    intro _
    refine ⟨(hi.idle hr).1, ?_⟩
    intro a ha
    rcases List.mem_append.mp ha with ha | ha
    · exact (hi.idle hr).2 a ha
    · cases List.mem_singleton.mp ha
      rfl
  told := fun h => absurd h (by simp [hr])
  names := hi.names

theorem Inv.ready_of_running {s : St} (hi : Inv s) (hrun : s.running = true) :
    s.ready = true := by
  by_contra hr
  have hidle := hi.idle (by simpa using hr)
  simp [hidle.1] at hrun

theorem names_insert {funcs : JobFuncs} {funcname : Bytes} {f : JobFunc}
    (h : ∀ name g, funcs.lookup name = some g → nameable name g = true)
    (hn : nameable funcname f = true) :
    ∀ name g, (funcs.insert funcname f).lookup name = some g → nameable name g = true := by
  intro name g hg
  by_cases he : name = funcname
  · subst he
    rw [AList.lookup_insert] at hg
    cases hg
    exact hn
  · rw [AList.lookup_insert_ne he] at hg
    exact h name g hg

theorem names_erase {funcs : JobFuncs} {funcname : Bytes}
    (h : ∀ name g, funcs.lookup name = some g → nameable name g = true) :
    ∀ name g, (funcs.erase funcname).lookup name = some g → nameable name g = true := by
  intro name g hg
  by_cases he : name = funcname
  · subst he
    simp at hg
  · rw [AList.lookup_erase_ne he] at hg
    exact h name g hg

theorem Inv.addFunc {s t : St} (hi : Inv s) {funcname : Bytes} {f : JobFunc} {err : Option Err}
    (hann : announces s (.addFunc funcname f) = true)
    (h : Calls.addFunc s funcname f = some (t, err)) : Inv t := by
  simp only [Calls.addFunc] at h
  split_ifs at h with hex hrun
  · cases h
    exact hi
  all_goals
    simp only [announces, hex, Bool.false_or, Bool.and_eq_true, Bool.or_eq_true,
      Bool.not_eq_true'] at hann
    obtain ⟨htell, hn⟩ := hann
  · have hr := hi.ready_of_running hrun
    obtain ⟨agents, hout, ht⟩ := (hi.told hr).addFuncOut funcname f.timeout
      (fun log hag => hag.insert hn)
    rw [hout] at h
    cases h
    exact ⟨fun h => absurd h (by simp [hr]), fun _ => ht, names_insert hi.names hn⟩
  · have hr : s.ready = false := htell.resolve_right hrun
    cases h
    exact ⟨fun _ => hi.idle hr, fun h => absurd h (by simp [hr]), names_insert hi.names hn⟩

theorem Inv.removeFunc {s t : St} (hi : Inv s) {funcname : Bytes} {err : Option Err}
    (hann : announces s (.removeFunc funcname) = true)
    (h : Calls.removeFunc s funcname = some (t, err)) : Inv t := by
  simp only [Calls.removeFunc] at h
  split_ifs at h with hex hrun
  · cases h
    exact hi
  · have hr := hi.ready_of_running hrun
    obtain ⟨agents, hout, ht⟩ := (hi.told hr).broadcast { dataType := dtCantDo, data := funcname }
      (fun log hag => hag.erase funcname)
    rw [hout] at h
    cases h
    exact ⟨fun h => absurd h (by simp [hr]), fun _ => ht, names_erase hi.names⟩
  · have hr : s.ready = false := by
      simpa [announces, hex, hrun] using hann
    cases h
    exact ⟨fun _ => hi.idle hr, fun h => absurd h (by simp [hr]), names_erase hi.names⟩

theorem Inv.reset {s t : St} (hi : Inv s) (hr : s.ready = true) {err : Option Err}
    (h : step s .reset = some (t, err)) : Inv t := by
  obtain ⟨agents, hout, ht⟩ := (hi.told hr).broadcast { dataType := dtResetAbilities }
    (fun log _ => agrees_reset log)
  simp only [step, hout, Option.bind_eq_bind, Option.bind_some, Option.pure_def,
    Option.some.injEq, Prod.mk.injEq] at h
  obtain ⟨rfl, rfl⟩ := h
  exact ⟨fun h => absurd h (by simp [hr]), fun _ => ht, by simp⟩

theorem next_inv {s t : St} {call : Call} (hi : Inv s)
    (hallow : (sequential s call && announces s call) = true) (h : next s call = some t) :
    Inv t := by
  obtain ⟨⟨u, err⟩, hs, rfl⟩ := Option.map_eq_some_iff.mp h
  obtain ⟨hseq, hann⟩ := Bool.and_eq_true_iff.mp hallow
  cases call with
  | addServer =>
    cases hs
    exact hi.addServer (by simpa [sequential] using hseq)
  | addFunc funcname f => exact hi.addFunc hann hs
  | removeFunc funcname => exact hi.removeFunc hann hs
  | reset => exact hi.reset hseq hs
  | ready fails order =>
    obtain ⟨hfails, hord⟩ := Bool.and_eq_true_iff.mp hseq
    cases List.isEmpty_iff.mp hfails
    exact (hi.ready hord hs).1
  | work fails order =>
    obtain ⟨hfails, hord⟩ := Bool.and_eq_true_iff.mp hseq
    cases List.isEmpty_iff.mp hfails
    exact hi.work hord hs
  | echo data => cases hseq
  | setId id => cases hseq
  | close => cases hseq

/-- In every run that changes the functions only before `Ready` or while running, the
servers of a running worker know exactly its functions. -/
theorem announced_of_announces (t : St)
    (h : Reachable next (fun s call => sequential s call && announces s call) {} t)
    (hrun : t.running = true) : Announced t := by
  have hi : Inv t := h.invariant inv_start (fun _ _ _ hi ha hs => next_inv hi ha hs)
  intro a ha _
  exact (hi.told (hi.ready_of_running hrun) a ha).2

def changeCalls : List Call :=
  [.addServer, .addServer, .addFunc [102] demoFunc, .work [] [[102]], .addFunc [103] demoFunc,
    .removeFunc [102]]

theorem announced_after_changes :
    ∃ t, run next (fun s call => sequential s call && announces s call) {} changeCalls = some t ∧
      t.running = true ∧ t.funcs.keys = [[103]] ∧ Announced t :=
  ⟨_, rfl, rfl, rfl, announced_of_announces _ ⟨changeCalls, rfl⟩ rfl⟩

theorem not_announced_in_gap :
    ∃ t, Reachable next sequential {} t ∧ t.running = true ∧ ¬ Announced t := by
  refine ⟨_, ⟨[.addServer, .addFunc [102] demoFunc, .ready [] [[102]], .addFunc [103] demoFunc,
    .work [] [[103], [102]]], rfl⟩, rfl, ?_⟩
  intro h
  obtain ⟨log, hlog, hag⟩ := h _ (List.mem_singleton.mpr rfl) rfl
  cases hlog
  exact absurd (hag [103]) (by decide)

end Gearman.Worker.Calls
