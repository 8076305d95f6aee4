import Gearman.BufioWriter
import Gearman.SlicePool
import Gearman.WorkerBuffers
import Gearman.WorkerLocks

/-!
# The bytes behind the packets of a worker

In the machine a write is a lock, a look at the agent's connection and one step that takes
the packet or fails. Here the parts of `agent.write` go with these steps: `Get` with the
lock, the encoding with the look, the bytes with the write, the deferred `Put` with the
unlock. The buffers are slices over arrays in one memory, so the bytes that are written are
those that stand in the array by then, and writers of different agents run between any two
of the parts. Each action comes with the pool's choice of a buffer.

Each connection has a buffered writer, and a run is held to the error it returns.
-/

namespace Gearman.Worker.Machine
open Bytes Wire Bufio Framing Transition Custody SlicePool
open Buffers (encodeBufSize encodeBufKeep wire)

inductive Part
  | get
  | encode (outpack : OutPack)
  | send (c : ℕ) (outpack : OutPack) (ok : Bool)
  | put

/-- The task that has a part of `write` to do with the step, and the part. -/
def part (s : St) : Act → Option (ℕ × Part)
  | .task i =>
    match s.tasks i with
    | some (.write _ .lock _) => some (i, .get)
    | some (.write ((_, outpack) :: _) .getRW _) => some (i, .encode outpack)
    | some (.write _ .unlock _) => some (i, .put)
    | _ => none
  | .flush i ok =>
    match s.tasks i with
    | some (.write ((_, outpack) :: _) (.flush c) _) => some (i, .send c outpack ok)
    | _ => none
  | _ => none

structure Wires where
  lines : ℕ → Line UInt8 Err
  bufs : Store ℕ UInt8 := {}

namespace Wires

def slice (x : Wires) (h : Header) : Slice := ⟨x.bufs.view h, x.bufs.rest h⟩

def get (x : Wires) (i n : ℕ) : Wires :=
  { x with bufs := x.bufs.get (zeros encodeBufSize) i n }

/-- `encodeInto(*p)`, and `*p = buf` if the buffer is worth keeping. A buffer without the room for
the packet is left as it is for a new one. -/
def encode (x : Wires) (i : ℕ) (outpack : OutPack) : Wires :=
  match x.bufs.lent i with
  | none => x
  | some p =>
    let old := x.slice (x.bufs.cells p)
    let addr := if old.cap < outpack.bodyLen + minPacketLength then x.bufs.narray
      else (x.bufs.cells p).addr
    match outpack.encodeInto old with
    | none => x
    | some buf =>
      { x with
        bufs := x.bufs.fill encodeBufKeep i p addr (buf.data ++ buf.spare) buf.data.length }

def shows (x : Wires) (i : ℕ) : Bytes := ((x.bufs.shown i).map x.bufs.view).getD []

def send (x : Wires) (i c : ℕ) : Wires :=
  { x with
    lines := Function.update x.lines c
      ((x.lines c).push (x.shows i) ((x.lines c).writer.writeAll (x.shows i)).2) }

def put (x : Wires) (i : ℕ) : Wires :=
  match x.bufs.lent i with
  | none => x
  | some p => { x with bufs := x.bufs.put i p }

end Wires

variable (fates : ℕ → List (Bufio.Outcome Err))

def newWires : Wires := { lines := fun c => newLine defaultBufSize (fates c) }

def Wires.note (x : Wires) (s : St) (a : Act × ℕ) (t : St) : Wires :=
  match part s a.1 with
  | some (i, .get) => x.get i a.2
  | some (i, .encode outpack) => x.encode i outpack
  | some (i, .send c _ _) => x.send i c
  | some (i, .put) => x.put i
  | none =>
    if s.nconn < t.nconn then
      { x with lines := Function.update x.lines s.nconn ((newWires fates).lines s.nconn) }
    else x

/-- A write goes well if and only if the buffered writer says so. -/
def writesTrue (x : St × Wires) (a : Act × ℕ) : Bool :=
  match part x.1 a.1 with
  | some (i, .send c _ ok) => ((x.2.lines c).writer.writeAll (x.2.shows i)).1.isNone = ok
  | _ => true

/-- How far the write of a task has come with its buffer. -/
inductive Lease
  | got
  | ready (outpack : OutPack)
  | sent

def Task.lease : Task → Option Lease
  | .write _ .getRW _ => some .got
  | .write ((_, outpack) :: _) (.flush _) _ => some (.ready outpack)
  | .write _ .unlock _ => some .sent
  | _ => none

def St.lease (s : St) : ℕ → Option Lease := held Task.lease s.tasks

variable {cfg : Cfg} {s t : St} {act : Act} {i c : ℕ} {task task' : Task} {outpack : OutPack}

theorem lease_writes (todo : List (ℕ × OutPack)) {next : Task} (h : next.lease = none) :
    (writes todo next).lease = none := by
  cases todo with
  | nil => exact h
  | cons w rest => rfl

theorem lease_back (op : Op) (drains : Bool) : (back op drains).lease = none := by
  cases drains <;> rfl

theorem lease_answer (s : St) (inpack : InPack) (r : Result) :
    (answer s inpack r).lease = none := by
  unfold answer
  split_ifs
  · exact lease_writes _ rfl
  · rfl

theorem lease_entry (cfg : Cfg) (op : Op) : (entry cfg op).lease = none := by
  cases op <;> first | rfl | exact lease_writes _ rfl

def Task.isWrite : Task → Bool
  | .write _ _ _ => true
  | _ => false

theorem lease_of_not_write (h : task.isWrite = false) : task.lease = none := by
  cases task with
  | write todo stage next => cases h
  | _ => rfl

theorem Local.lease (hl : Local cfg s task task') (h : task.isWrite = false) :
    task'.lease = none := by
  cases hl with
  | announce hk ho => exact lease_writes _ rfl
  | noJob ht => exact lease_writes _ (lease_back _ _)
  | noop ht => exact lease_writes _ (lease_back _ _)
  | unlimited hl => exact lease_writes _ (lease_back _ _)
  | reannounce hmu ho => exact lease_writes _ rfl
  | answer hmu => exact lease_answer _ _ _
  | getRW hrw => cases h
  | flushFailed => cases h
  | _ => rfl

theorem Reports.lease {rs : List Report} (hr : Reports cfg s task rs task') :
    task'.lease = none := by
  cases hr with
  | serverErr ht => exact lease_back _ _
  | custome ht hj => exact lease_back _ _
  | _ => rfl

theorem Move.lease (hn : Named s) (hm : Move cfg s act t)
    (hw : ∀ i task, act.runner = some i → s.tasks i = some task → task.isWrite = false) :
    t.lease = s.lease := by
  have one : ∀ {i : ℕ} {task task' : Task}, s.tasks i = some task → act.runner = some i →
      t.tasks = Function.update s.tasks i (some task') → task'.lease = none →
      t.lease = s.lease := by
    intro i task task' h hr ht hl
    rw [St.lease, ht]
    exact held_update_same h (hl.trans (lease_of_not_write (hw i task hr h)).symm)
  cases hm with
  | call op hc =>
    exact held_update_new hn.new_none (lease_entry cfg op)
  | pc h hl ha => exact one h ha rfl (hl.lease (hw _ _ ha h))
  | lock h hl hfree =>
    cases hl with
    | connect hk => exact one h rfl rfl rfl
    | write => exact absurd (hw _ _ rfl h) (by simp [Task.isWrite])
  | unlock h hl =>
    cases hl with
    | written => exact absurd (hw _ _ rfl h) (by simp [Task.isWrite])
    | _ => exact one h rfl rfl rfl
  | dial h hd => exact one h rfl rfl (by cases hd <;> rfl)
  | publish h hp => exact one h rfl rfl (by cases hp <;> rfl)
  | @spawn i task task' new h hs =>
    have hmid : (s.setTask i task').lease = s.lease := by
      have hl : task'.lease = none := by cases hs <;> rfl
      exact held_update_same h (hl.trans (lease_of_not_write (hw _ _ rfl h)).symm)
    have hfree : (s.setTask i task').tasks s.ntask = none :=
      (Function.update_of_ne (Nat.ne_of_gt (hn _ _ h)) ..).trans hn.new_none
    rw [← hmid]
    exact held_update_new hfree (by cases hs <;> rfl)
  | @shut i old task task' h hs => exact one h rfl (shut_setTask s _ _ _) (by cases hs <;> rfl)
  | report h hr ha => exact one h ha rfl hr.lease
  | @setReady i op h hmu => exact one h rfl rfl (by cases op <;> rfl)
  | setRunning h hmu => exact one h rfl rfl (lease_writes _ rfl)
  | closeAgent h hk => exact one h rfl (closeAgent_setTask s _ _ _) rfl
  | changeFuncs h hmu hr heq => exact one h rfl rfl (lease_writes _ rfl)
  | sent h hopen => exact absurd (hw _ _ rfl h) (by simp [Task.isWrite])
  | token h hl hcap => exact one h rfl rfl (lease_writes _ (lease_back _ _))
  | recv h hpc hin ha => exact one h ha rfl rfl
  | @handoff i j op inpack job drains err v h h' hl =>
    have hne : j ≠ i := by
      rintro rfl
      simp [h] at h'
    have hmid : (s.setTask i (afterLimit op inpack drains)).lease = s.lease :=
      held_update_same h (lease_writes _ (lease_back _ _))
    have hjob : (s.setTask i (afterLimit op inpack drains)).tasks j = some _ :=
      (Function.update_of_ne hne ..).trans h'
    rw [← hmid]
    exact held_update_same hjob rfl
  | serve hc => rfl
  | panic h hrw => rfl
  | _ => exact one (by assumption) rfl rfl rfl

theorem part_of_not_write
    (hw : ∀ i task, act.runner = some i → s.tasks i = some task → task.isWrite = false) :
    part s act = none := by
  cases act with
  | task i =>
    cases h : s.tasks i with
    | none => simp [part, h]
    | some task =>
      have hnot := hw i task rfl h
      cases task with
      | write todo stage next => cases hnot
      | _ => simp [part, h]
  | flush i ok =>
    cases h : s.tasks i with
    | none => simp [part, h]
    | some task =>
      have hnot := hw i task rfl h
      cases task with
      | write todo stage next => cases hnot
      | _ => simp [part, h]
  | _ => rfl

theorem Task.Plain.lease (h : task.Plain) : task.lease = none := by
  cases task with
  | write todo stage next => cases h
  | _ => rfl

/-- What a step does with the buffers: a part of `write`, or nothing. -/
inductive Borrows (s : St) (act : Act) (t : St) : Prop
  | got {i : ℕ} (hp : part s act = some (i, .get)) (hold : s.lease i = none)
      (h : t.lease = Function.update s.lease i (some .got))
  | encoded {i : ℕ} {outpack : OutPack} (hp : part s act = some (i, .encode outpack))
      (hold : s.lease i = some .got)
      (h : t.panicked = true ∨ t.lease = Function.update s.lease i (some (.ready outpack)))
  | sent {i c : ℕ} {outpack : OutPack} {ok : Bool}
      (hp : part s act = some (i, .send c outpack ok)) (hold : s.lease i = some (.ready outpack))
      (h : t.lease = Function.update s.lease i (some .sent))
  | put {i : ℕ} (hp : part s act = some (i, .put)) (hold : s.lease i = some .sent)
      (h : t.lease = Function.update s.lease i none)
  | still (hp : part s act = none) (h : t.lease = s.lease)

theorem writeStep_borrows {todo : List (ℕ × OutPack)} {stage : Stage} {next : Task}
    (h : s.tasks i = some (.write todo stage next)) (hnext : next.Plain)
    (hs : writeStep s i next todo stage = some t) : Borrows s (.task i) t := by
  have hl : s.lease i = (Task.write todo stage next).lease := held_of_eq h
  cases todo with
  | nil => cases hs
  | cons w rest =>
    obtain ⟨k, outpack⟩ := w
    cases stage with
    | lock =>
      simp only [writeStep] at hs
      split_ifs at hs
      cases hs
      exact .got (by simp [part, h]) hl (held_update ..)
    | getRW =>
      -- The packet is encoded before `getRW`, also when there is no connection to write to.
      have hp : part s (.task i) = some (i, .encode outpack) := by simp [part, h]
      simp only [writeStep] at hs
      cases hrw : (s.agents k).rw with
      | none =>
        rw [hrw] at hs
        cases hs
        exact .encoded hp hl (Or.inl rfl)
      | some c =>
        rw [hrw] at hs
        cases hs
        exact .encoded hp hl (Or.inr (held_update ..))
    | flush c => cases hs
    | unlock =>
      cases hs
      refine .put (by simp [part, h]) hl ((held_update ..).trans ?_)
      rw [lease_writes _ hnext.lease]
      rfl

theorem flushStep_borrows {todo : List (ℕ × OutPack)} {stage : Stage} {next : Task} {ok : Bool}
    (h : s.tasks i = some (.write todo stage next))
    (hs : flushStep s i ok (.write todo stage next) = some t) : Borrows s (.flush i ok) t := by
  have hl : s.lease i = (Task.write todo stage next).lease := held_of_eq h
  cases todo with
  | nil => cases hs
  | cons w rest =>
    obtain ⟨k, outpack⟩ := w
    cases stage with
    | flush c =>
      have hp : part s (.flush i ok) = some (i, .send c outpack ok) := by simp [part, h]
      simp only [flushStep] at hs
      split_ifs at hs
      · cases hs
        exact .sent hp hl (held_update ..)
      · cases hs
        exact .sent hp hl (held_update ..)
    | _ => cases hs

theorem step_borrows (ho : Owners s) (hs : step cfg s act = some t) : Borrows s act t := by
  by_cases hw : ∀ i task, act.runner = some i → s.tasks i = some task → task.isWrite = false
  · exact .still (part_of_not_write hw) ((step_move hs).lease ho.named hw)
  · simp only [not_forall] at hw
    obtain ⟨i, task, ha, h, hw⟩ := hw
    cases task with
    | write todo stage next =>
      cases step_runs h ha hs with
      | task hrun => exact writeStep_borrows h (ho.sound i _ h).2 hrun
      | flush hrun => exact flushStep_borrows h hrun
      | @dial err hrun => cases err <;> cases hrun
      | _ => contradiction
    | _ => exact absurd rfl hw

def St.packets (s : St) (c : ℕ) : List Bytes := (s.conns c).sent.map wire

theorem packets_setConnAt {conn : Conn} (h : conn.sent = (s.conns c).sent) (d : ℕ) :
    (s.setConnAt c conn).packets d = s.packets d := by
  by_cases hd : d = c
  · subst hd
    simp [St.packets, St.setConnAt, h]
  · simp [St.packets, St.setConnAt, hd]

theorem packets_shut (s : St) (old : Option ℕ) : (s.shut old).packets = s.packets := by
  cases old with
  | none => rfl
  | some c => exact funext (packets_setConnAt rfl)

theorem shut_nconn (s : St) (old : Option ℕ) : (s.shut old).nconn = s.nconn := by
  cases old <;> rfl

inductive Adds (s : St) (act : Act) (t : St) : Prop
  | sent {i c : ℕ} {outpack : OutPack} {ok : Bool}
      (hp : part s act = some (i, .send c outpack ok))
      (ht : t.packets = Function.update s.packets c
        (if ok then s.packets c ++ [wire outpack] else s.packets c))
  | dialled (hp : part s act = none) (hn : s.nconn < t.nconn)
      (ht : t.packets = Function.update s.packets s.nconn [])
  | silent (hp : ∀ i c outpack ok, part s act ≠ some (i, .send c outpack ok))
      (hn : ¬ s.nconn < t.nconn) (ht : t.packets = s.packets)

theorem flushStep_adds {ok : Bool} (h : s.tasks i = some task)
    (hs : flushStep s i ok task = some t) : Adds s (.flush i ok) t := by
  unfold flushStep at hs
  split at hs
  next k outpack rest c next =>
    have hp : part s (.flush i ok) = some (i, .send c outpack ok) := by simp [part, h]
    refine .sent hp (funext fun d => ?_)
    split_ifs at hs with hok
    · cases hs
      by_cases hd : d = c
      · subst hd
        simp [St.packets, St.setConnAt, St.setTask, hok]
      · simp [St.packets, St.setConnAt, St.setTask, hd]
    · cases hs
      rw [if_neg hok, Function.update_eq_self]
      rfl
  next => cases hs

theorem part_ne_send (ha : ∀ i ok, act ≠ .flush i ok) (i c : ℕ) (outpack : OutPack) (ok : Bool) :
    part s act ≠ some (i, .send c outpack ok) := by
  cases act with
  | flush i ok => exact absurd rfl (ha i ok)
  | task i =>
    simp only [part]
    split <;> simp
  | _ => simp [part]

theorem Move.adds (hm : Move cfg s act t) (ha : ∀ i ok, act ≠ .flush i ok) : Adds s act t := by
  have hp := part_ne_send (s := s) ha
  cases hm with
  | sent h hopen => exact absurd rfl (ha _ _)
  | dial h hd =>
    refine .dialled rfl (Nat.lt_succ_self _) (funext fun d => ?_)
    by_cases hd : d = s.nconn
    · subst hd
      simp [St.packets, St.dialled, St.setConnAt, St.setTask]
    · simp [St.packets, St.dialled, St.setConnAt, St.setTask, hd]
  | publish h hpub => exact .silent hp (Nat.lt_irrefl _) (funext (packets_setConnAt rfl))
  | shut h hs => exact .silent hp (by simp [St.setTask, shut_nconn]) (packets_shut s _)
  | closeAgent h hk =>
    exact .silent hp (by simp [St.setTask, St.closeAgent, St.setAgent, shut_nconn])
      (packets_shut s _)
  | read h hw => exact .silent hp (Nat.lt_irrefl _) (funext (packets_setConnAt rfl))
  | serve hc => exact .silent hp (Nat.lt_irrefl _) (funext (packets_setConnAt rfl))
  | _ => exact .silent hp (Nat.lt_irrefl _) rfl

theorem step_adds (hs : step cfg s act = some t) : Adds s act t := by
  have hm := step_move hs
  cases act with
  | flush i ok =>
    unfold step at hs
    split_ifs at hs
    obtain ⟨task, h, ht⟩ := Option.bind_eq_some_iff.mp hs
    exact flushStep_adds h ht
  | _ => exact hm.adds (fun i ok h => by cases h)

def Leased (x : Store ℕ UInt8) (i : ℕ) : Option Lease → Prop
  | none => x.lent i = none ∧ x.shown i = none
  | some .got => (∃ p, x.lent i = some p) ∧ x.shown i = none
  | some (.ready outpack) =>
    (∃ p, x.lent i = some p) ∧ ∃ h, x.shown i = some h ∧ x.view h = wire outpack
  | some .sent => ∃ p, x.lent i = some p

theorem Leased.frame {x y : Store ℕ UInt8} {l : Option Lease} (h : Leased x i l)
    (hlent : y.lent i = x.lent i) (hshown : y.shown i = x.shown i)
    (hview : ∀ hd, x.shown i = some hd → y.view hd = x.view hd) : Leased y i l := by
  cases l with
  | none => exact ⟨hlent.trans h.1, hshown.trans h.2⟩
  | some l =>
    cases l with
    | got => exact ⟨by rw [hlent]; exact h.1, hshown.trans h.2⟩
    | ready outpack =>
      obtain ⟨hl, hd, hs, hv⟩ := h
      exact ⟨by rw [hlent]; exact hl, hd, hshown.trans hs, (hview hd hs).trans hv⟩
    | sent =>
      obtain ⟨p, hp⟩ := h
      exact ⟨p, hlent.trans hp⟩

theorem slice_cap (x : Wires) (p : ℕ) : (x.slice (x.bufs.cells p)).cap = x.bufs.cap p := by
  simp only [Wires.slice, Slice.cap, Store.view, Store.rest, Store.cap, ← List.length_append,
    List.take_append_drop]

theorem Wires.encode_eq {x : Wires} {p : ℕ} (hlent : x.bufs.lent i = some p)
    (hshown : x.bufs.shown i = none) (outpack : OutPack) :
    ∃ addr spare, Room x.bufs i p addr (wire outpack ++ spare) ∧
      x.encode i outpack = { x with
        bufs := x.bufs.fill encodeBufKeep i p addr (wire outpack ++ spare)
          (wire outpack).length } := by
  obtain ⟨spare, henc⟩ := outpack.encodeInto_eq (x.slice (x.bufs.cells p))
  refine ⟨_, spare, ⟨hlent, hshown, ?_⟩, by simp only [encode, hlent, henc]; rfl⟩
  by_cases hcap : (x.slice (x.bufs.cells p)).cap < outpack.bodyLen + minPacketLength
  · exact Or.inr (if_pos hcap)
  · refine Or.inl ⟨if_neg hcap, ?_⟩
    rw [← slice_cap]
    have hroom := outpack.encodeInto_cap henc (not_lt.mp hcap)
    simpa [Slice.cap, wire] using hroom

structure Lent (s : St) (x : Store ℕ UInt8) : Prop where
  sound : Sound encodeBufKeep x
  leased : s.panicked = true ∨ ∀ i, Leased x i (s.lease i)

theorem leased_update {x : Store ℕ UInt8} {l : Option Lease}
    (ht : t.lease = Function.update s.lease i l) (hi : Leased x i l)
    (hothers : ∀ j, j ≠ i → Leased x j (s.lease j)) (j : ℕ) : Leased x j (t.lease j) := by
  rw [ht]
  by_cases hj : j = i
  · subst hj
    rwa [Function.update_self]
  · rw [Function.update_of_ne hj]
    exact hothers j hj

section Parts
variable {x : Wires} (hs : Sound encodeBufKeep x.bufs) (hl : ∀ j, Leased x.bufs j (s.lease j))
include hs hl

theorem lent_get (hold : s.lease i = none) (ht : t.lease = Function.update s.lease i (some .got))
    (n : ℕ) : Lent t (x.get i n).bufs := by
  have hi := hl i
  rw [hold] at hi
  have hshown := get_shown x.bufs (zeros encodeBufSize) i n
  obtain ⟨p, hlent⟩ := get_lent x.bufs (zeros encodeBufSize) i n
  refine ⟨hs.get (by simp [encodeBufSize, encodeBufKeep]) hi.2 n, Or.inr (leased_update ht ?_ ?_)⟩
  · exact ⟨⟨p, (congrFun hlent i).trans (Function.update_self ..)⟩, (congrFun hshown i).trans hi.2⟩
  · intro j hj
    exact (hl j).frame ((congrFun hlent j).trans (Function.update_of_ne hj ..)) (congrFun hshown j)
      (fun hd hd' => hs.view_get hd' _ _ _)

theorem lent_encode (hold : s.lease i = some .got)
    (ht : t.panicked = true ∨ t.lease = Function.update s.lease i (some (.ready outpack))) :
    Lent t (x.encode i outpack).bufs := by
  have hi := hl i
  rw [hold] at hi
  obtain ⟨⟨p, hlent⟩, hshown⟩ := hi
  obtain ⟨addr, spare, hroom, heq⟩ := Wires.encode_eq hlent hshown outpack
  rw [heq]
  -- The array is of this task alone, so the others still show what they have encoded.
  refine ⟨hs.fill hroom _, ht.imp_right (fun ht => leased_update ht ?_ ?_)⟩
  · refine ⟨⟨p, hlent⟩, _, Function.update_self .., ?_⟩
    rw [view_fill, List.take_left]
  · intro j hj
    exact (hl j).frame rfl (Function.update_of_ne hj ..)
      (fun hd hd' => hs.view_fill_of_ne hroom hd' hj _)

theorem lent_send (hold : s.lease i = some (.ready outpack))
    (ht : t.lease = Function.update s.lease i (some .sent)) (c : ℕ) :
    Lent t (x.send i c).bufs := by
  have hi := hl i
  rw [hold] at hi
  exact ⟨hs, Or.inr (leased_update ht hi.1 (fun j _ => hl j))⟩

theorem lent_put (hold : s.lease i = some .sent) (ht : t.lease = Function.update s.lease i none) :
    Lent t (x.put i).bufs := by
  have hi := hl i
  rw [hold] at hi
  obtain ⟨p, hlent⟩ := hi
  have heq : (x.put i).bufs = x.bufs.put i p := by simp only [Wires.put, hlent]
  rw [heq]
  refine ⟨hs.put hlent, Or.inr (leased_update ht ?_ ?_)⟩
  · exact ⟨Function.update_self .., Function.update_self ..⟩
  · intro j hj
    exact (hl j).frame (Function.update_of_ne hj ..) (Function.update_of_ne hj ..)
      (fun _ _ => rfl)

end Parts

theorem calm_of_step (hs : step cfg s act = some t) : s.panicked ≠ true := by
  intro hp
  simp [step, hp] at hs

theorem Lent.step {x : Wires} (hx : Lent s x.bufs) (ho : Owners s) {a : Act × ℕ}
    (hs : step cfg s a.1 = some t) : Lent t (x.note fates s a t).bufs := by
  have hl := hx.leased.resolve_left (calm_of_step hs)
  cases step_borrows ho hs with
  | got hp hold h =>
    simp only [Wires.note, hp]
    exact lent_get hx.sound hl hold h a.2
  | encoded hp hold h =>
    simp only [Wires.note, hp]
    exact lent_encode hx.sound hl hold h
  | sent hp hold h =>
    simp only [Wires.note, hp]
    exact lent_send hx.sound hl hold h _
  | put hp hold h =>
    simp only [Wires.note, hp]
    exact lent_put hx.sound hl hold h
  | still hp h =>
    have heq : (x.note fates s a t).bufs = x.bufs := by
      simp only [Wires.note, hp]
      split_ifs <;> rfl
    rw [heq]
    exact ⟨hx.sound, Or.inr (by rw [h]; exact hl)⟩

theorem encode_lines (x : Wires) (i : ℕ) (outpack : OutPack) :
    (x.encode i outpack).lines = x.lines := by
  unfold Wires.encode
  split
  · rfl
  · dsimp only
    split <;> rfl

theorem put_lines (x : Wires) (i : ℕ) : (x.put i).lines = x.lines := by
  unfold Wires.put
  split <;> rfl

theorem note_lines {x : Wires} {a : Act × ℕ}
    (hp : ∀ i c outpack ok, part s a.1 ≠ some (i, .send c outpack ok))
    (hn : ¬ s.nconn < t.nconn) : (x.note fates s a t).lines = x.lines := by
  cases h : part s a.1 with
  | none => simp only [Wires.note, h, if_neg hn]
  | some ip =>
    obtain ⟨i, q⟩ := ip
    cases q with
    | get => simp only [Wires.note, h]; rfl
    | encode outpack => simp only [Wires.note, h, encode_lines]
    | send c outpack ok => exact absurd h (hp i c outpack ok)
    | put => simp only [Wires.note, h, put_lines]

theorem lease_of_send {ok : Bool} (hp : part s act = some (i, .send c outpack ok)) :
    s.lease i = some (.ready outpack) := by
  cases act with
  | flush j ok' =>
    simp only [part] at hp
    split at hp
    next k outpack' rest c' next h =>
      cases hp
      exact held_of_eq h
    next => cases hp
  | _ => exact absurd hp (part_ne_send (fun _ _ h => by cases h) _ _ _ _)

theorem Lent.shows {x : Wires} (hx : Lent s x.bufs) (hc : s.panicked ≠ true)
    (hl : s.lease i = some (.ready outpack)) : x.shows i = wire outpack := by
  have hi := hx.leased.resolve_left hc i
  rw [hl] at hi
  obtain ⟨-, hd, hshown, hview⟩ := hi
  simp only [Wires.shows, hshown, Option.map_some, Option.getD_some, hview]

structure Clear (l : Line UInt8 Err) (sent : List Bytes) : Prop where
  carried : Bufio.Carried l sent
  packets : ∀ p ∈ l.offered, ∃ outpack, p = wire outpack

theorem clear_newLine (outcomes : List (Bufio.Outcome Err)) :
    Clear (newLine defaultBufSize outcomes) [] where
  carried := carried_newLine _ _
  packets := by simp [newLine]

theorem Clear.push {l : Line UInt8 Err} {sent : List Bytes} (h : Clear l sent) {ok : Bool}
    (hw : (l.writer.writeAll (wire outpack)).1.isNone = ok) :
    Clear (l.push (wire outpack) (l.writer.writeAll (wire outpack)).2)
      (if ok then sent ++ [wire outpack] else sent) where
  carried := by
    cases ok with
    | true => exact h.carried.push_ok (Option.isNone_iff_eq_none.mp hw)
    | false =>
      obtain ⟨e, he⟩ := Option.isSome_iff_exists.mp (Option.isNone_eq_false_iff.mp hw)
      exact h.carried.push_err he
  packets := by
    intro p hp
    rcases List.mem_append.mp hp with hp | hp
    · exact h.packets p hp
    · exact ⟨outpack, List.mem_singleton.mp hp⟩

theorem clear_update {lines : ℕ → Line UInt8 Err} {sent : ℕ → List Bytes} {l : Line UInt8 Err}
    {new : List Bytes} (h : ∀ c, Clear (lines c) (sent c)) (hnew : Clear l new) (d : ℕ) :
    Clear (Function.update lines c l d) (Function.update sent c new d) := by
  by_cases hd : d = c
  · subst hd
    rwa [Function.update_self, Function.update_self]
  · rw [Function.update_of_ne hd, Function.update_of_ne hd]
    exact h d

structure Consistent (x : St × Wires) : Prop where
  owners : Owners x.1
  lent : Lent x.1 x.2.bufs
  lines : ∀ c, Clear (x.2.lines c) (x.1.packets c)

theorem consistent_start : Consistent ({}, newWires fates) where
  owners := owners_start
  lent := ⟨sound_start _, Or.inr (fun _ => ⟨rfl, rfl⟩)⟩
  lines := fun _ => clear_newLine _

theorem Consistent.step {x y : St × Wires} {a : Act × ℕ} (hx : Consistent x)
    (hw : writesTrue x a = true)
    (h : traced (fun s a => step cfg s a.1) (Wires.note fates) x a = some y) : Consistent y := by
  obtain ⟨hstep, hnote⟩ := traced_eq_some.mp h
  refine ⟨hx.owners.move (step_move hstep), hnote ▸ hx.lent.step fates hx.owners hstep, ?_⟩
  rw [hnote]
  cases step_adds hstep with
  | sent hp ht =>
    have hshows := hx.lent.shows (calm_of_step hstep) (lease_of_send hp)
    simp only [writesTrue, hp, hshows, decide_eq_true_eq] at hw
    simp only [ht, Wires.note, hp, Wires.send, hshows]
    exact clear_update hx.lines ((hx.lines _).push hw)
  | dialled hp hn ht =>
    simp only [ht, Wires.note, hp, if_pos hn]
    exact clear_update hx.lines (clear_newLine _)
  | silent hp hn ht =>
    rw [ht, note_lines fates hp hn]
    exact hx.lines

theorem outpacks_on_the_wire (cfg : Cfg) (acts : List (Act × ℕ)) (s : St) (wires : Wires)
    (h : run (traced (fun s a => step cfg s a.1) (Wires.note fates)) writesTrue
      ({}, newWires fates) acts = some (s, wires)) :
    (∀ c, Bufio.Carried (wires.lines c) ((s.conns c).sent.map wire) ∧
      ∀ p ∈ (wires.lines c).offered, ∃ outpack, p = wire outpack) ∧
    (∀ p ∈ wires.bufs.free, wires.bufs.cap p ≤ encodeBufKeep) ∧
    Exclusive Header.addr wires.bufs.shown := by
  have hc : Consistent (s, wires) :=
    run_invariant (fun _ _ _ hx hw hy => hx.step fates hw hy) h (consistent_start fates)
  have hs := hc.lent.sound
  exact ⟨fun c => ⟨(hc.lines c).carried, (hc.lines c).packets⟩,
    fun p hp => hs.bounded p (hs.freed p hp), hs.own⟩

def twoAgents : Cfg := { nagents := 2 }

/-- `Ready` has announced the function to the first of two agents and put its buffer back. It takes
it again for the second one, and an `Echo` to the first takes a new one before it is written. -/
def sharedActs : List Act :=
  connectActs ++ [.task 1, .task 1, .dial 1 none, .task 1, .task 1, .task 1, .range 1 [[102]],
    .task 1, .task 1, .flush 1 true, .task 1, .task 1, .call (.echo [9]), .task 1, .task 4, .task 4,
    .flush 1 true, .flush 4 false]

def lastPut (acts : List Act) : List (Act × ℕ) := acts.map (fun act => (act, 0))

/-- The first connection breaks two bytes into its second packet. -/
def cutSecond : ℕ → List (Bufio.Outcome Err)
  | 0 => [.done, .failed 2 (.op false)]
  | _ => []

theorem outpacks_on_the_wire_shared :
    ∃ s wires, run (traced (fun s a => step twoAgents s a.1) (Wires.note cutSecond)) writesTrue
        ({}, newWires cutSecond) (lastPut sharedActs) = some (s, wires) ∧
      (wires.lines 0).writer.conn.out = [0, 82, 69, 81, 0, 0, 0, 1, 0, 0, 0, 1, 102, 0, 82] ∧
      (wires.lines 1).writer.conn.out = [0, 82, 69, 81, 0, 0, 0, 1, 0, 0, 0, 1, 102] ∧
      wires.bufs.shown 1 = some ⟨0, 13⟩ ∧ wires.bufs.shown 4 = some ⟨1, 13⟩ ∧
      Bufio.Carried (wires.lines 0) ((s.conns 0).sent.map wire) ∧
      Exclusive Header.addr wires.bufs.shown := by
  have hrun : (run (traced (fun s a => step twoAgents s a.1) (Wires.note cutSecond)) writesTrue
      ({}, newWires cutSecond) (lastPut sharedActs)).map (fun x => ((x.2.lines 0).writer.conn.out,
        (x.2.lines 1).writer.conn.out, x.2.bufs.shown 1, x.2.bufs.shown 4)) =
      some ([0, 82, 69, 81, 0, 0, 0, 1, 0, 0, 0, 1, 102, 0, 82],
        [0, 82, 69, 81, 0, 0, 0, 1, 0, 0, 0, 1, 102], some ⟨0, 13⟩, some ⟨1, 13⟩) := by
    decide +kernel
  obtain ⟨x, hx, hout⟩ := Option.map_eq_some_iff.mp hrun
  simp only [Prod.mk.injEq] at hout
  obtain ⟨hlines, -, hown⟩ := outpacks_on_the_wire cutSecond twoAgents _ x.1 x.2 hx
  exact ⟨x.1, x.2, hx, hout.1, hout.2.1, hout.2.2.1, hout.2.2.2, (hlines 0).1, hown⟩

end Gearman.Worker.Machine
