import Gearman.Mailbox
import Gearman.WorkerLimit

/-!
# What becomes of the packets in worker.in when the worker is closed

The loops send the packets they have read on `in`, and `Work` receives them and passes
them to `handleInPack`. `Close` closes `quit` and nothing else: `Work` then empties `in`
before it returns, and a loop whose packet finds no room gives it up.

The history of a run is the mailbox that `in` is, with the calls of `Work` as its
consumers, what was in `in` when `quit` was closed, and the channels that were closed.
-/

namespace Gearman.Worker.Machine
open Transition Custody Mailbox

inductive Chan
  | inChan
  | quit
  | limit
deriving DecidableEq, Repr

/-- What a step of task `i` does to `in`; `handle` is its call of `handleInPack`. -/
def Task.event (i : ℕ) : Task → Task → Option (Event ℕ InPack)
  | .loop _ _ _ (.forward inpack), .loop _ _ _ .read => some (.send inpack)
  | .call _ .select, .call _ (.handle _ _) => some (.take i)
  | .call _ .drain, .call _ (.handle _ _) => some (.take i)
  | .call _ (.handle inpack _), _ => some (.handle i inpack)
  | _, _ => none

def Task.closes : Task → Option Chan
  | .call _ .closeQuit => some .quit
  | _ => none

def Task.sends (cfg : Cfg) : Task → Task → Option Chan
  | .loop _ _ _ (.forward _), .loop _ _ _ .read => some .inChan
  | .call _ (.limit _ _), _ => if cfg.limit.isSome then some .limit else none
  | _, _ => none

def event (s : St) (act : Act) (t : St) : Option (Event ℕ InPack) := do
  let i ← act.runner
  let task ← s.tasks i
  let task' ← t.tasks i
  task.event i task'

def closes (s : St) (act : Act) : Option Chan := do
  let i ← act.runner
  let task ← s.tasks i
  task.closes

def sends (cfg : Cfg) (s : St) (act : Act) (t : St) : Option Chan := do
  let i ← act.runner
  let task ← s.tasks i
  let task' ← t.tasks i
  task.sends cfg task'

structure Passage where
  box : Box ℕ InPack := {}
  queued : Option (List (InPack × ℕ)) := none
  closed : List Chan := []

def Passage.note (x : Passage) (s : St) (act : Act) (t : St) : Passage where
  box := (event s act t).elim x.box x.box.apply
  queued := if closes s act = some .quit then some (s.inChan.zipIdx x.box.taken) else x.queued
  closed := x.closed ++ (closes s act).toList

/-- What a task has taken upon itself: a packet it has received, or to close `quit`. -/
inductive Charge
  | packet (inpack : InPack)
  | quit

def Task.charge : Task → Option Charge
  | .write _ _ next => next.charge
  | .call _ (.handle inpack _) => some (.packet inpack)
  | .call _ .closeQuit => some .quit
  | _ => none

def St.charges (s : St) : ℕ → Option Charge := held Task.charge s.tasks

variable {cfg : Cfg} {s t : St} {act : Act} {i k : ℕ} {task task' new : Task} {x : Passage}

theorem event_eq {e : Option (Event ℕ InPack)} (ha : act.runner = some i)
    (h : s.tasks i = some task) (h' : t.tasks i = some task') (he : task.event i task' = e) :
    event s act t = e := by
  simp [event, ha, h, h', he]

theorem closes_eq (ha : act.runner = some i) (h : s.tasks i = some task) :
    closes s act = task.closes := by
  simp [closes, ha, h]

theorem charge_writes (todo : List (ℕ × OutPack)) (next : Task) :
    (writes todo next).charge = next.charge := by
  cases todo <;> rfl

theorem charge_back (op : Op) (drains : Bool) : (back op drains).charge = none := by
  cases drains <;> rfl

theorem charge_afterLimit (op : Op) (inpack : InPack) (drains : Bool) :
    (afterLimit op inpack drains).charge = none := by
  rw [afterLimit, charge_writes, charge_back]

theorem charge_answer (s : St) (inpack : InPack) (r : Result) :
    (answer s inpack r).charge = none := by
  unfold answer
  split_ifs
  · exact charge_writes _ _
  · rfl

theorem charge_entry (cfg : Cfg) (op : Op) : (entry cfg op).charge = none := by
  cases op <;> first | rfl | exact charge_writes _ _

/-- A step of a task that has to do with neither channel. -/
structure Calm (task task' : Task) : Prop where
  event : ∀ i, task.event i task' = none
  closes : task.closes = none
  charge : task'.charge = task.charge

inductive Deals : Task → Task → Prop
  | calm {task task' : Task} (h : Calm task task') : Deals task task'
  | handles {op : Op} {inpack : InPack} {drains : Bool} {task' : Task} (h : task'.charge = none) :
      Deals (.call op (.handle inpack drains)) task'

theorem Local.deals (hl : Local cfg s task task') : Deals task task' := by
  cases hl with
  | ready => split_ifs <;> exact .calm ⟨fun _ => rfl, rfl, rfl⟩
  | snapshot hmu => split_ifs <;> exact .calm ⟨fun _ => rfl, rfl, rfl⟩
  | getConn => split_ifs <;> exact .calm ⟨fun _ => rfl, rfl, rfl⟩
  | isReady hmu => split_ifs <;> exact .calm ⟨fun _ => rfl, rfl, rfl⟩
  | announce hk ho => exact .calm ⟨fun _ => rfl, rfl, charge_writes _ _⟩
  | noJob ht => exact .handles ((charge_writes _ _).trans (charge_back _ _))
  | noop ht => exact .handles ((charge_writes _ _).trans (charge_back _ _))
  | unlimited hl => exact .calm ⟨fun _ => rfl, rfl, charge_afterLimit _ _ _⟩
  | reannounce hmu ho => exact .calm ⟨fun _ => rfl, rfl, charge_writes _ _⟩
  | answer hmu => exact .calm ⟨fun _ => rfl, rfl, charge_answer _ _ _⟩
  | _ => exact .calm ⟨fun _ => rfl, rfl, rfl⟩

theorem Locks.calm (hl : Locks cfg task k task') : Calm task task' := by
  cases hl <;> exact ⟨fun _ => rfl, rfl, rfl⟩

theorem Unlocks.calm (hl : Unlocks task k task') : Calm task task' := by
  cases hl with
  | written => exact ⟨fun _ => rfl, rfl, charge_writes _ _⟩
  | _ => exact ⟨fun _ => rfl, rfl, rfl⟩

theorem Dials.calm {c : ℕ} (hd : Dials c task k task') : Calm task task' := by
  cases hd <;> exact ⟨fun _ => rfl, rfl, rfl⟩

theorem Publishes.calm {e c : ℕ} (hp : Publishes e task k c task') : Calm task task' := by
  cases hp <;> exact ⟨fun _ => rfl, rfl, rfl⟩

theorem Shuts.calm {old : Option ℕ} (hs : Shuts task old task') : Calm task task' := by
  cases hs <;> exact ⟨fun _ => rfl, rfl, rfl⟩

theorem Spawns.deals (hs : Spawns task task' new) : Deals task task' ∧ new.charge = none := by
  cases hs with
  | job hj => exact ⟨.handles rfl, rfl⟩
  | _ => exact ⟨.calm ⟨fun _ => rfl, rfl, rfl⟩, rfl⟩

theorem Reports.deals {rs : List Report} (hr : Reports cfg s task rs task') :
    Deals task task' := by
  cases hr with
  | serverErr ht => exact .handles (charge_back _ _)
  | custome ht hj => exact .handles (charge_back _ _)
  | _ => exact .calm ⟨fun _ => rfl, rfl, rfl⟩

/-- `quit` and `closed` are as they were, but for a `Close` that begins. -/
structure Unsignalled (s t : St) : Prop where
  quit : t.quit = s.quit
  closed : s.closed = true → t.closed = true

/-- What a step does to `in` and `quit` and to the tasks that have to do with them. -/
inductive Flow (s : St) (act : Act) (t : St) : Prop
  | still (he : event s act t = none) (hc : closes s act = none) (hin : t.inChan = s.inChan)
      (hh : t.charges = s.charges) (hu : Unsignalled s t)
  | sent {inpack : InPack} (he : event s act t = some (.send inpack)) (hc : closes s act = none)
      (hin : t.inChan = s.inChan ++ [inpack]) (hh : t.charges = s.charges) (hu : Unsignalled s t)
  | took {i : ℕ} {inpack : InPack} (he : event s act t = some (.take i))
      (hc : closes s act = none) (hin : s.inChan = inpack :: t.inChan)
      (hfree : s.charges i = none)
      (hh : t.charges = Function.update s.charges i (some (.packet inpack)))
      (hu : Unsignalled s t)
  | handled {i : ℕ} {inpack : InPack} (he : event s act t = some (.handle i inpack))
      (hc : closes s act = none) (hin : t.inChan = s.inChan)
      (hi : s.charges i = some (.packet inpack))
      (hh : t.charges = Function.update s.charges i none) (hu : Unsignalled s t)
  | closing {i : ℕ} (he : event s act t = none) (hc : closes s act = none)
      (hin : t.inChan = s.inChan) (hopen : s.closed = false) (hfree : s.charges i = none)
      (hh : t.charges = Function.update s.charges i (some .quit)) (hq : t.quit = s.quit)
      (hcl : t.closed = true)
  | closed {i : ℕ} (he : event s act t = none) (hc : closes s act = some .quit)
      (hin : t.inChan = s.inChan) (hi : s.charges i = some .quit)
      (hh : t.charges = Function.update s.charges i none) (hq : t.quit = true)
      (hcl : t.closed = s.closed)

theorem charges_update (ht : t.tasks = Function.update s.tasks i (some task')) :
    t.charges = Function.update s.charges i task'.charge := by
  rw [St.charges, ht]
  exact held_update Task.charge s.tasks i task'

theorem flow_of (ha : act.runner = some i) (h : s.tasks i = some task)
    (h' : t.tasks i = some task') (hh : t.charges = Function.update s.charges i task'.charge)
    (hd : Deals task task') (hin : t.inChan = s.inChan) (hu : Unsignalled s t) :
    Flow s act t := by
  have hi : s.charges i = task.charge := held_of_eq h
  cases hd with
  | calm hcalm =>
    rw [hcalm.charge, ← hi, Function.update_eq_self] at hh
    exact .still (event_eq ha h h' (hcalm.event i))
      ((closes_eq ha h).trans hcalm.closes) hin hh hu
  | handles hnone =>
    rw [hnone] at hh
    exact .handled (event_eq ha h h' rfl) (closes_eq ha h) hin hi hh hu

theorem flow_one (ha : act.runner = some i) (h : s.tasks i = some task)
    (ht : t.tasks = Function.update s.tasks i (some task')) (hd : Deals task task')
    (hin : t.inChan = s.inChan) (hu : Unsignalled s t) : Flow s act t :=
  flow_of ha h (by rw [ht, Function.update_self]) (charges_update ht) hd hin hu

theorem flow_spawn (hn : Named s) (h : s.tasks i = some task) (hs : Spawns task task' new) :
    Flow s (.task i) ((s.setTask i task').spawn new) := by
  obtain ⟨hd, hnew⟩ := hs.deals
  have hne : s.ntask ≠ i := (Nat.ne_of_lt (hn _ _ h)).symm
  have hfree : (s.setTask i task').tasks s.ntask = none :=
    (Function.update_of_ne hne ..).trans hn.new_none
  have hat : ((s.setTask i task').spawn new).tasks i = some task' :=
    (Function.update_of_ne hne.symm ..).trans (Function.update_self ..)
  have hh : ((s.setTask i task').spawn new).charges = (s.setTask i task').charges :=
    held_update_new hfree hnew
  exact flow_of rfl h hat (hh.trans (charges_update rfl)) hd rfl ⟨rfl, id⟩

theorem flow_handoff {j : ℕ} {op : Op} {inpack job : InPack} {drains : Bool} {err : Option Err}
    {v : Option PanicValue} {pc : ExecPc} (h : s.tasks i = some (.call op (.limit inpack drains)))
    (h' : s.tasks j = some (.exec job (.deferred err v))) :
    Flow s (.handoff i j)
      ((s.setTask i (afterLimit op inpack drains)).setTask j (.exec job pc)) := by
  have hne : j ≠ i := by
    rintro rfl
    cases h.symm.trans h'
  have hjob : (s.setTask i (afterLimit op inpack drains)).tasks j =
      some (.exec job (.deferred err v)) := (Function.update_of_ne hne ..).trans h'
  have hat : ((s.setTask i (afterLimit op inpack drains)).setTask j (.exec job pc)).tasks i =
      some (afterLimit op inpack drains) :=
    (Function.update_of_ne hne.symm ..).trans (Function.update_self ..)
  have hh : ((s.setTask i (afterLimit op inpack drains)).setTask j (.exec job pc)).charges =
      (s.setTask i (afterLimit op inpack drains)).charges := held_update_same hjob rfl
  exact flow_of rfl h hat (hh.trans (charges_update rfl))
    (.calm ⟨fun _ => rfl, rfl, charge_afterLimit _ _ _⟩) rfl ⟨rfl, id⟩

theorem shut_signals (s : St) (old : Option ℕ) :
    (s.shut old).inChan = s.inChan ∧ (s.shut old).quit = s.quit ∧
      (s.shut old).closed = s.closed := by
  cases old <;> exact ⟨rfl, rfl, rfl⟩

theorem Move.flow (hn : Named s) (hm : Move cfg s act t) : Flow s act t := by
  cases hm with
  | call op hc =>
    exact .still rfl rfl rfl (held_update_new hn.new_none (charge_entry cfg op)) ⟨rfl, id⟩
  | pc h hl ha => exact flow_one ha h rfl hl.deals rfl ⟨rfl, id⟩
  | lock h hl hfree => exact flow_one rfl h rfl (.calm hl.calm) rfl ⟨rfl, id⟩
  | unlock h hl => exact flow_one rfl h rfl (.calm hl.calm) rfl ⟨rfl, id⟩
  | dial h hd => exact flow_one rfl h rfl (.calm hd.calm) rfl ⟨rfl, id⟩
  | publish h hp => exact flow_one rfl h rfl (.calm hp.calm) rfl ⟨rfl, id⟩
  | spawn h hs => exact flow_spawn hn h hs
  | @shut i old task task' h hs =>
    obtain ⟨hin, hq, hcl⟩ := shut_signals s old
    exact flow_one rfl h (shut_setTask s old i task') (.calm hs.calm) hin ⟨hq, hcl.trans⟩
  | report h hr ha => exact flow_one ha h rfl hr.deals rfl ⟨rfl, id⟩
  | @setReady i op h hmu =>
    exact flow_one rfl h rfl (.calm ⟨fun _ => rfl, rfl, by cases op <;> rfl⟩) rfl ⟨rfl, id⟩
  | setRunning h hmu =>
    exact flow_one rfl h rfl (.calm ⟨fun _ => rfl, rfl, charge_writes _ _⟩) rfl ⟨rfl, id⟩
  | close h hmu hc =>
    exact .closing (event_eq rfl h (Function.update_self ..) rfl) (closes_eq rfl h) rfl hc
      (held_of_eq h) (held_update Task.charge ..) rfl rfl
  | closeQuit h =>
    exact .closed (event_eq rfl h (Function.update_self ..) rfl) (closes_eq rfl h) rfl
      (held_of_eq h) (held_update Task.charge ..) rfl rfl
  | @closeAgent i k op h hk =>
    obtain ⟨hin, hq, hcl⟩ := shut_signals s (s.agents k).conn
    exact flow_one rfl h (closeAgent_setTask s k i _) (.calm ⟨fun _ => rfl, rfl, rfl⟩) hin
      ⟨hq, hcl.trans⟩
  | changeFuncs h hmu hr heq =>
    exact flow_one rfl h rfl (.calm ⟨fun _ => rfl, rfl, charge_writes _ _⟩) rfl ⟨rfl, id⟩
  | setFuncs h hpc hmu heq =>
    rcases hpc with rfl | rfl <;>
      exact flow_one rfl h rfl (.calm ⟨fun _ => rfl, rfl, rfl⟩) rfl ⟨rfl, id⟩
  | @send i a epoch c inpack h hfull =>
    have h' : Function.update s.tasks i (some (.loop a epoch c .read)) i =
        some (.loop a epoch c .read) := Function.update_self ..
    exact .sent (event_eq rfl h h' rfl) (closes_eq rfl h) rfl (held_update_same h rfl) ⟨rfl, id⟩
  | @recv act i op pc inpack rest drains h hpc hin ha =>
    have h' : Function.update s.tasks i (some (.call op (.handle inpack drains))) i =
        some (.call op (.handle inpack drains)) := Function.update_self ..
    have hh := held_update Task.charge s.tasks i (.call op (.handle inpack drains))
    subst hpc
    cases drains with
    | false => exact .took (event_eq ha h h' rfl) (closes_eq ha h) hin (held_of_eq h) hh ⟨rfl, id⟩
    | true => exact .took (event_eq ha h h' rfl) (closes_eq ha h) hin (held_of_eq h) hh ⟨rfl, id⟩
  | token h hl hcap =>
    exact flow_one rfl h rfl (.calm ⟨fun _ => rfl, rfl, charge_afterLimit _ _ _⟩) rfl ⟨rfl, id⟩
  | handoff h h' hl => exact flow_handoff h h'
  | serve hc => exact .still rfl rfl rfl rfl ⟨rfl, id⟩
  | panic h hrw =>
    exact .still (event_eq rfl h h rfl) (closes_eq rfl h) rfl rfl ⟨rfl, id⟩
  | closeAgain h hmu hc =>
    exact flow_one rfl h rfl (.calm ⟨fun _ => rfl, rfl, rfl⟩) rfl ⟨rfl, id⟩
  | unlockWorker h => exact flow_one rfl h rfl (.calm ⟨fun _ => rfl, rfl, rfl⟩) rfl ⟨rfl, id⟩
  | sent h hopen => exact flow_one rfl h rfl (.calm ⟨fun _ => rfl, rfl, rfl⟩) rfl ⟨rfl, id⟩
  | read h hw => exact flow_one rfl h rfl (.calm ⟨fun _ => rfl, rfl, rfl⟩) rfl ⟨rfl, id⟩
  | release h hl hpos =>
    exact flow_one rfl h rfl (.calm ⟨fun _ => rfl, rfl, rfl⟩) rfl ⟨rfl, id⟩

/-- The machine and its mailbox: the channel is what waits, and a call of `Work` that has
received a packet is the consumer that has it in hand. -/
structure Relayed (s : St) (box : Box ℕ InPack) : Prop where
  accounted : Accounted box
  waiting : s.inChan = box.waiting
  hands : ∀ i inpack, s.charges i = some (.packet inpack) ↔
    ∃ n, box.hand i = some n ∧ box.entered[n]? = some inpack

theorem Relayed.hand_none {box : Box ℕ InPack} (hr : Relayed s box)
    (h : ∀ inpack, s.charges i ≠ some (.packet inpack)) : box.hand i = none := by
  by_contra hsome
  obtain ⟨n, hn⟩ := Option.ne_none_iff_exists'.mp hsome
  have hlt : n < box.entered.length :=
    (hr.accounted.hand i n hn).trans_le hr.accounted.taken
  exact h _ ((hr.hands i _).mpr ⟨n, hn, List.getElem?_eq_getElem hlt⟩)

theorem Relayed.same {box : Box ℕ InPack} (hr : Relayed s box) (hin : t.inChan = s.inChan)
    (hp : ∀ j inpack, t.charges j = some (.packet inpack) ↔ s.charges j = some (.packet inpack)) :
    Relayed t box :=
  ⟨hr.accounted, hin.trans hr.waiting, fun j inpack => (hp j inpack).trans (hr.hands j inpack)⟩

theorem packet_update {c : Option Charge} (hs : ∀ inpack, s.charges i ≠ some (.packet inpack))
    (hc : ∀ inpack, c ≠ some (.packet inpack)) (hh : t.charges = Function.update s.charges i c)
    (j : ℕ) (inpack : InPack) :
    t.charges j = some (.packet inpack) ↔ s.charges j = some (.packet inpack) := by
  by_cases hj : j = i
  · subst hj
    rw [hh, Function.update_self]
    exact iff_of_false (hc inpack) (hs inpack)
  · rw [hh, Function.update_of_ne hj]

theorem Relayed.send {box : Box ℕ InPack} (hr : Relayed s box) {inpack : InPack}
    (hin : t.inChan = s.inChan ++ [inpack]) (hh : t.charges = s.charges) :
    Relayed t (box.apply (.send inpack)) where
  accounted := hr.accounted.send inpack
  waiting := by rw [hin, hr.waiting, waiting_send hr.accounted.taken]
  hands j p := by
    rw [hh, hr.hands j p]
    refine exists_congr fun n => and_congr_right fun hn => ?_
    have hlt : n < box.entered.length :=
      (hr.accounted.hand j n hn).trans_le hr.accounted.taken
    rw [Box.apply, List.getElem?_append_left hlt]

theorem Relayed.take {box : Box ℕ InPack} (hr : Relayed s box) {inpack : InPack}
    (hin : s.inChan = inpack :: t.inChan) (hfree : s.charges i = none)
    (hh : t.charges = Function.update s.charges i (some (.packet inpack))) :
    Relayed t (box.apply (.take i)) := by
  have hw : box.waiting = inpack :: t.inChan := hr.waiting.symm.trans hin
  have hhand : box.hand i = none := hr.hand_none (by simp [hfree])
  have hfirst : box.entered[box.taken]? = some inpack := by
    have hget : box.waiting[0]? = some inpack := by rw [hw, List.getElem?_cons_zero]
    rwa [Box.waiting, List.getElem?_drop, Nat.add_zero] at hget
  refine ⟨hr.accounted.take (by simp [hw]) hhand, by rw [waiting_take, hw, List.tail_cons], ?_⟩
  intro j p
  by_cases hj : j = i
  · subst hj
    simp only [hh, Box.apply, Function.update_self, Option.some.injEq, Charge.packet.injEq,
      exists_eq_left', hfirst]
  · simp only [hh, Box.apply, Function.update_of_ne hj, hr.hands j p]

theorem Relayed.handle {box : Box ℕ InPack} (hr : Relayed s box) {inpack : InPack}
    (hin : t.inChan = s.inChan) (hi : s.charges i = some (.packet inpack))
    (hh : t.charges = Function.update s.charges i none) :
    Relayed t (box.apply (.handle i inpack)) := by
  obtain ⟨n, hn, hget⟩ := (hr.hands i inpack).mp hi
  refine ⟨hr.accounted.handle hn hget, ?_, ?_⟩
  · rw [apply_handle hn]
    exact hin.trans hr.waiting
  · intro j p
    rw [apply_handle hn]
    by_cases hj : j = i
    · subst hj
      simp [hh]
    · simp only [hh, Function.update_of_ne hj, hr.hands j p]

theorem Relayed.flow (hr : Relayed s x.box) (hf : Flow s act t) :
    Relayed t (x.note s act t).box := by
  cases hf with
  | still he hc hin hh hu =>
    simp only [Passage.note, he, Option.elim_none]
    exact hr.same hin (by simp [hh])
  | sent he hc hin hh hu =>
    simp only [Passage.note, he, Option.elim_some]
    exact hr.send hin hh
  | took he hc hin hfree hh hu =>
    simp only [Passage.note, he, Option.elim_some]
    exact hr.take hin hfree hh
  | handled he hc hin hi hh hu =>
    simp only [Passage.note, he, Option.elim_some]
    exact hr.handle hin hi hh
  | closing he hc hin hopen hfree hh hq hcl =>
    simp only [Passage.note, he, Option.elim_none]
    exact hr.same hin (packet_update (by simp [hfree]) (by simp) hh)
  | closed he hc hin hi hh hq hcl =>
    simp only [Passage.note, he, Option.elim_none]
    exact hr.same hin (packet_update (by simp [hi]) (by simp) hh)

theorem Passage.entered_note (x : Passage) (s : St) (act : Act) (t : St) :
    x.box.entered <+: (x.note s act t).box.entered := by
  rw [Passage.note]
  cases event s act t with
  | none => exact List.prefix_rfl
  | some e => exact entered_apply e

theorem Passage.taken_note (x : Passage) (s : St) (act : Act) (t : St) :
    x.box.taken ≤ (x.note s act t).box.taken := by
  rw [Passage.note]
  cases event s act t with
  | none => exact le_rfl
  | some e => exact taken_apply e

/-- `quit` is closed once, and nothing else is ever closed. -/
structure Signalled (s : St) (x : Passage) : Prop where
  sole : ∀ i j, s.charges i = some .quit → s.charges j = some .quit → i = j
  pending : ∀ i, s.charges i = some .quit → s.closed = true ∧ s.quit = false
  begun : s.quit = true → s.closed = true
  log : x.closed = if s.quit then [.quit] else []
  unqueued : s.quit = false → x.queued = none
  queued : s.quit = true → ∃ queued, x.queued = some queued ∧
    ∀ q ∈ queued, x.box.entered[q.2]? = some q.1

theorem Signalled.same (hi : Signalled s x) (hc : closes s act = none) (hu : Unsignalled s t)
    (hh : ∀ j, t.charges j = some .quit → s.charges j = some .quit) :
    Signalled t (x.note s act t) where
  sole j j' hj hj' := hi.sole j j' (hh j hj) (hh j' hj')
  pending j hj := by
    obtain ⟨hcl, hq⟩ := hi.pending j (hh j hj)
    exact ⟨hu.closed hcl, hu.quit.trans hq⟩
  begun hq := hu.closed (hi.begun (hu.quit ▸ hq))
  log := by simp [Passage.note, hc, hi.log, hu.quit]
  unqueued hq := by simpa [Passage.note, hc] using hi.unqueued (hu.quit ▸ hq)
  queued hq := by
    obtain ⟨queued, hqueued, hmem⟩ := hi.queued (hu.quit ▸ hq)
    refine ⟨queued, by simpa [Passage.note, hc] using hqueued, ?_⟩
    intro q hmemq
    exact getElem?_of_prefix (x.entered_note s act t) (hmem q hmemq)

theorem quit_of_update {c : Option Charge} {j : ℕ} (hc : c ≠ some .quit)
    (hh : t.charges = Function.update s.charges i c) (hj : t.charges j = some .quit) :
    j ≠ i ∧ s.charges j = some .quit := by
  by_cases hji : j = i
  · subst hji
    rw [hh, Function.update_self] at hj
    exact absurd hj hc
  · exact ⟨hji, by rwa [hh, Function.update_of_ne hji] at hj⟩

theorem Signalled.close (hi : Signalled s x) (hc : closes s act = none) (hopen : s.closed = false)
    (hh : t.charges = Function.update s.charges i (some .quit)) (hq : t.quit = s.quit)
    (hcl : t.closed = true) : Signalled t (x.note s act t) := by
  -- `closed` is set before `quit` is closed, so no other `Close` has come this far.
  have hnew : s.quit = false := by
    by_contra hquit
    simp [hi.begun (by simpa using hquit)] at hopen
  have only : ∀ j, t.charges j = some .quit → j = i := by
    intro j hj
    by_contra hji
    rw [hh, Function.update_of_ne hji] at hj
    simp [(hi.pending j hj).1] at hopen
  constructor
  case sole => exact fun j j' hj hj' => (only j hj).trans (only j' hj').symm
  case pending => exact fun j hj => ⟨hcl, hq.trans hnew⟩
  case begun => exact fun _ => hcl
  case log => simp [Passage.note, hc, hi.log, hq]
  case unqueued =>
    intro _
    simpa [Passage.note, hc] using hi.unqueued hnew
  case queued =>
    intro hquit
    simp [hq, hnew] at hquit

theorem Signalled.quit (hi : Signalled s x) (hr : Relayed s x.box)
    (hc : closes s act = some .quit) (hch : s.charges i = some .quit)
    (hh : t.charges = Function.update s.charges i none) (hq : t.quit = true)
    (hcl : t.closed = s.closed) : Signalled t (x.note s act t) := by
  obtain ⟨hclosed, hnew⟩ := hi.pending i hch
  have none_left : ∀ j, t.charges j ≠ some .quit := by
    intro j hj
    obtain ⟨hji, hold⟩ := quit_of_update (by simp) hh hj
    exact hji (hi.sole j i hold hch)
  constructor
  case sole => exact fun j _ hj => absurd hj (none_left j)
  case pending => exact fun j hj => absurd hj (none_left j)
  case begun => exact fun _ => hcl.trans hclosed
  case log => simp [Passage.note, hc, hi.log, hnew, hq]
  case unqueued =>
    intro hquit
    simp [hq] at hquit
  case queued =>
    intro _
    refine ⟨x.box.numbered, by simp [Passage.note, hc, Box.numbered, hr.waiting], ?_⟩
    intro q hmem
    exact getElem?_of_prefix (x.entered_note s act t) (mem_numbered hmem)

theorem Signalled.flow (hi : Signalled s x) (hr : Relayed s x.box) (hf : Flow s act t) :
    Signalled t (x.note s act t) := by
  cases hf with
  | still he hc hin hh hu => exact hi.same hc hu (fun j => by rw [hh]; exact id)
  | sent he hc hin hh hu => exact hi.same hc hu (fun j => by rw [hh]; exact id)
  | took he hc hin hfree hh hu =>
    exact hi.same hc hu (fun j hj => (quit_of_update (by simp) hh hj).2)
  | handled he hc hin hch hh hu =>
    exact hi.same hc hu (fun j hj => (quit_of_update (by simp) hh hj).2)
  | closing he hc hin hopen hfree hh hq hcl => exact hi.close hc hopen hh hq hcl
  | closed he hc hin hch hh hq hcl => exact hi.quit hr hc hch hh hq hcl

/-- Everything that was queued when `quit` was closed has been received. -/
def Passage.Emptied (x : Passage) : Prop :=
  ∃ queued, x.queued = some queued ∧ ∀ q ∈ queued, q.2 < x.box.taken

theorem Signalled.emptied (hi : Signalled s x) (hr : Relayed s x.box) (hq : s.quit = true)
    (hin : s.inChan = []) : x.Emptied := by
  obtain ⟨queued, hqueued, hmem⟩ := hi.queued hq
  refine ⟨queued, hqueued, ?_⟩
  intro q hq
  exact taken_of_waiting (hr.waiting.symm.trans hin) (hmem q hq)

theorem Signalled.emptied_stays (hi : Signalled s x) (hf : Flow s act t) (he : x.Emptied) :
    (x.note s act t).Emptied := by
  obtain ⟨queued, hqueued, hmem⟩ := he
  have hopen : closes s act ≠ some .quit := by
    intro hc
    cases hf with
    | closed he' hc' hin hch hh hq hcl =>
      cases hqueued.symm.trans (hi.unqueued (hi.pending _ hch).2)
    | _ => simp_all
  refine ⟨queued, by simpa [Passage.note, hopen] using hqueued, ?_⟩
  intro q hq
  exact (hmem q hq).trans_le (x.taken_note s act t)

/-- Where `Work` can be: past its `select` only if `quit` is closed, back only if `in` has
been emptied, and never where another call is about to return. -/
def Pc.Placed (quit done : Prop) : Pc → Prop
  | .drain => quit
  | .handle _ drains => drains = true → quit
  | .limit _ drains => drains = true → quit
  | .returned none => done
  | .redial _ => False
  | .republish _ _ => False
  | .funcOutpacks _ _ _ => False
  | .resume _ _ _ => False
  | .lock => False
  | .unlockWorker => False
  | .clear => False
  | _ => True

def Task.Placed (quit done : Prop) : Task → Prop
  | .write _ _ next => next.Placed quit done
  | .call op pc => if op.isWork then pc.Placed quit done else pc.dispatches = false
  | _ => True

variable {quit done quit' done' : Prop}

theorem Pc.Placed.mono {pc : Pc} (h : pc.Placed quit done) (hq : quit → quit')
    (hd : done → done') : pc.Placed quit' done' := by
  cases pc with
  | drain => exact hq h
  | handle inpack drains => exact fun hdr => hq (h hdr)
  | limit inpack drains => exact fun hdr => hq (h hdr)
  | returned err => cases err <;> first | exact hd h | trivial
  | _ => exact h

theorem Task.Placed.mono (h : task.Placed quit done) (hq : quit → quit') (hd : done → done') :
    task.Placed quit' done' := by
  induction task with
  | write todo stage next ih => exact ih h
  | call op pc =>
    simp only [Task.Placed] at h ⊢
    split_ifs at h ⊢
    · exact h.mono hq hd
    · exact h
  | loop a epoch c pc => trivial
  | exec inpack pc => trivial

theorem placed_writes {todo : List (ℕ × OutPack)} {next : Task} :
    (writes todo next).Placed quit done ↔ next.Placed quit done := by
  cases todo <;> rfl

theorem placed_back {op : Op} {pc : Pc} {inpack : InPack} {drains : Bool}
    (hpc : pc = .handle inpack drains ∨ pc = .limit inpack drains)
    (h : (Task.call op pc).Placed quit done) : (back op drains).Placed quit done := by
  rcases hpc with rfl | rfl <;> cases drains <;>
    simp_all [Task.Placed, Pc.Placed, Pc.dispatches, back]

theorem placed_afterLimit {op : Op} {inpack : InPack} {drains : Bool}
    (h : (Task.call op (.limit inpack drains)).Placed quit done) :
    (afterLimit op inpack drains).Placed quit done :=
  placed_writes.mpr (placed_back (Or.inr rfl) h)

theorem placed_answer (s : St) (inpack : InPack) (r : Result) :
    (answer s inpack r).Placed quit done := by
  unfold answer
  split_ifs
  · exact placed_writes.mpr trivial
  · trivial

theorem placed_entry (cfg : Cfg) (op : Op) : (entry cfg op).Placed quit done := by
  cases op with
  | work => simp [entry, Task.Placed, Op.isWork, Pc.Placed]
  | reset => exact placed_writes.mpr (by simp [Task.Placed, Op.isWork, Pc.dispatches])
  | echo data => exact placed_writes.mpr (by simp [Task.Placed, Op.isWork, Pc.dispatches])
  | setId id => exact placed_writes.mpr (by simp [Task.Placed, Op.isWork, Pc.dispatches])
  | progress inpack updates =>
    exact placed_writes.mpr (by simp [Task.Placed, Op.isWork, Pc.dispatches])
  | _ => simp [entry, Task.Placed, Op.isWork, Pc.dispatches]

theorem Task.Placed.goes {op : Op} {pc pc' : Pc} (h : (Task.call op pc).Placed quit done)
    (hp : pc.Placed quit done → pc'.Placed quit done)
    (hd : pc.dispatches = false → pc'.dispatches = false) :
    (Task.call op pc').Placed quit done := by
  simp only [Task.Placed] at h ⊢
  split_ifs at h ⊢
  · exact hp h
  · exact hd h

theorem Local.placed (hl : Local cfg s task task') (h : task.Placed (s.quit = true) done)
    (hd : s.quit = true → s.inChan = [] → done) : task'.Placed (s.quit = true) done := by
  cases hl with
  | ready => split_ifs <;> exact h.goes (fun _ => trivial) id
  | snapshot hmu => split_ifs <;> exact h.goes (fun _ => trivial) id
  | getConn => split_ifs <;> exact h.goes (fun _ => trivial) id
  | connectFailed err => exact h.goes (fun _ => trivial) id
  | announce hk ho => exact placed_writes.mpr (h.goes (fun _ => trivial) id)
  | isReady hmu => split_ifs <;> exact h.goes (fun _ => trivial) (by simp [Pc.dispatches])
  | noJob ht => exact placed_writes.mpr (placed_back (Or.inl rfl) h)
  | noop ht => exact placed_writes.mpr (placed_back (Or.inl rfl) h)
  | unlimited hl => exact placed_afterLimit h
  | quit hq => exact h.goes (fun _ => hq) id
  | drained hin => exact h.goes (fun hq => hd hq hin) (fun _ => rfl)
  | closed hk => exact h.goes (fun _ => trivial) id
  | reconnectFailed err => exact h.goes (fun _ => trivial) id
  | reannounce hmu ho => exact placed_writes.mpr (h.goes id id)
  | funcExists hmu hf => exact h.goes (fun _ => trivial) id
  | funcMissing hmu hf => exact h.goes (fun _ => trivial) id
  | getRW hrw => exact h
  | flushFailed => exact h
  | answer hmu => exact placed_answer _ _ _
  | _ => trivial

theorem Locks.placed (hl : Locks cfg task k task') (h : task.Placed quit done) :
    task'.Placed quit done := by
  cases hl with
  | connect hk => exact h.goes (fun _ => trivial) id
  | write => exact h

theorem Unlocks.placed (hl : Unlocks task k task') (h : task.Placed quit done) :
    task'.Placed quit done := by
  cases hl with
  | connected => exact h.goes (fun _ => trivial) id
  | failed => exact h.goes (fun _ => trivial) id
  | written => exact placed_writes.mpr h

theorem Dials.placed {c : ℕ} (hd : Dials c task k task') (h : task.Placed quit done) :
    task'.Placed quit done := by
  cases hd with
  | connect => exact h.goes (fun _ => trivial) id
  | reconnect => exact h.goes id id
  | loop => trivial

theorem Publishes.placed {e c : ℕ} (hp : Publishes e task k c task')
    (h : task.Placed quit done) : task'.Placed quit done := by
  cases hp with
  | connect => exact h.goes (fun _ => trivial) id
  | reconnect => exact h.goes id id
  | loop => trivial

theorem Spawns.placed (hs : Spawns task task' new) (h : task.Placed quit done) :
    task'.Placed quit done ∧ new.Placed quit done := by
  cases hs with
  | connect => exact ⟨h.goes (fun _ => trivial) id, trivial⟩
  | reconnect => exact ⟨h.goes False.elim id, trivial⟩
  | job hj => exact ⟨h.goes id id, trivial⟩

theorem Reports.placed {rs : List Report} (hr : Reports cfg s task rs task')
    (h : task.Placed quit done) : task'.Placed quit done := by
  cases hr with
  | serverErr ht => exact placed_back (Or.inl rfl) h
  | custome ht hj => exact placed_back (Or.inl rfl) h
  | _ => trivial

theorem placed_afterReady {op : Op} (h : (Task.call op .setReady).Placed quit done) :
    (Task.call op op.afterReady).Placed quit done := by
  cases op with
  | work => trivial
  | _ => exact h

theorem placed_recv {op : Op} {pc : Pc} {inpack : InPack} {drains : Bool}
    (hpc : pc = if drains then .drain else .select) (h : (Task.call op pc).Placed quit done) :
    (Task.call op (.handle inpack drains)).Placed quit done := by
  subst hpc
  cases drains with
  | false => exact h.goes (fun _ hdrains => by cases hdrains) id
  | true => exact h.goes (fun hq _ => hq) id

theorem Move.placed (hm : Move cfg s act t) (hi : ∀ j task, s.tasks j = some task →
      task.Placed (s.quit = true) done) (hd : s.quit = true → s.inChan = [] → done) :
    ∀ j task, t.tasks j = some task → task.Placed (s.quit = true) done := by
  cases hm with
  | call op hc => exact forall_update (placed_entry cfg op) hi
  | pc h hl ha => exact forall_update (hl.placed (hi _ _ h) hd) hi
  | lock h hl hfree => exact forall_update (hl.placed (hi _ _ h)) hi
  | unlock h hl => exact forall_update (hl.placed (hi _ _ h)) hi
  | dial h hd => exact forall_update (hd.placed (hi _ _ h)) hi
  | publish h hp => exact forall_update (hp.placed (hi _ _ h)) hi
  | spawn h hs =>
    obtain ⟨htask, hnew⟩ := hs.placed (hi _ _ h)
    exact forall_update hnew (forall_update htask hi)
  | shut h hs =>
    rw [shut_setTask]
    exact forall_update (by cases hs <;> trivial) hi
  | report h hr ha => exact forall_update (hr.placed (hi _ _ h)) hi
  | setReady h hmu => exact forall_update (placed_afterReady (hi _ _ h)) hi
  | setRunning h hmu =>
    exact forall_update (placed_writes.mpr ((hi _ _ h).goes (fun _ => trivial) id)) hi
  | close h hmu hc => exact forall_update ((hi _ _ h).goes (fun _ => trivial) id) hi
  | closeAgain h hmu hc => exact forall_update ((hi _ _ h).goes (fun _ => trivial) id) hi
  | closeQuit h => exact forall_update ((hi _ _ h).goes (fun _ => trivial) id) hi
  | closeAgent h hk =>
    rw [closeAgent_setTask]
    exact forall_update ((hi _ _ h).goes (fun _ => trivial) id) hi
  | changeFuncs h hmu hr heq => exact forall_update (placed_writes.mpr ((hi _ _ h).goes id id)) hi
  | setFuncs h hpc hmu heq =>
    rcases hpc with rfl | rfl <;> exact forall_update ((hi _ _ h).goes False.elim id) hi
  | unlockWorker h => exact forall_update ((hi _ _ h).goes False.elim id) hi
  | sent h hopen =>
    have hp := hi _ _ h
    exact forall_update hp hi
  | read h hw => exact forall_update trivial hi
  | send h hfull => exact forall_update trivial hi
  | recv h hpc hin ha => exact forall_update (placed_recv hpc (hi _ _ h)) hi
  | token h hl hcap => exact forall_update (placed_afterLimit (hi _ _ h)) hi
  | release h hl hpos => exact forall_update trivial hi
  | handoff h h' hl =>
    exact forall_update trivial (forall_update (placed_afterLimit (hi _ _ h)) hi)
  | serve hc => exact hi
  | panic h hrw => exact hi

structure Conveyed (s : St) (x : Passage) : Prop where
  named : Named s
  relayed : Relayed s x.box
  signalled : Signalled s x
  placed : ∀ j task, s.tasks j = some task → task.Placed (s.quit = true) x.Emptied

theorem Flow.quit_stays (hf : Flow s act t) (hq : s.quit = true) : t.quit = true := by
  cases hf with
  | closing he hc hin hopen hfree hh hq' hcl => exact hq'.trans hq
  | closed he hc hin hi hh hq' hcl => exact hq'
  | _ => exact (by assumption : Unsignalled s t).quit.trans hq

theorem Conveyed.after (hi : Conveyed s x) (hs : step cfg s act = some t) :
    Conveyed t (x.note s act t) := by
  have hm := step_move hs
  have hf := hm.flow hi.named
  have hplaced := hm.placed hi.placed (hi.signalled.emptied hi.relayed)
  refine ⟨hi.named.move hm, hi.relayed.flow hf, hi.signalled.flow hi.relayed hf, ?_⟩
  intro j task hj
  exact (hplaced j task hj).mono hf.quit_stays (hi.signalled.emptied_stays hf)

theorem conveyed_start : Conveyed {} {} where
  named := named_start
  relayed := ⟨accounted_empty, rfl, fun i inpack => by simp [St.charges, held]⟩
  signalled :=
    { sole := fun i j h => by cases h
      pending := fun i h => by cases h
      begun := fun h => by cases h
      log := rfl
      unqueued := fun _ => rfl
      queued := fun h => by cases h }
  placed j task h := by cases h

theorem conveyed_reachable
    (h : Reachable (traced (step cfg) Passage.note) always ({}, {}) (s, x)) : Conveyed s x := by
  refine h.invariant (I := fun y => Conveyed y.1 y.2) conveyed_start ?_
  intro y act z hi _ hs
  obtain ⟨hstep, hz⟩ := traced_eq_some.mp hs
  exact hz ▸ hi.after hstep

def Task.isWork : Task → Bool
  | .write _ _ next => next.isWork
  | .call op _ => op.isWork
  | _ => false

/-- `Work` has been called once, as the call `i`. -/
def SoleWork (s : St) (i : ℕ) : Prop :=
  ∀ j task, s.tasks j = some task → task.isWork = true → j = i

/-- Among the calls of `handleInPack` there is one for the packet of this number. -/
def Passage.HandledOnce (x : Passage) (inpack : InPack) (n : ℕ) : Prop :=
  ∃ i, x.box.handled.filter (fun r => r.number = n) = [⟨i, n, inpack⟩]

theorem isWork_of_packet {inpack : InPack} (h : task.Placed quit done)
    (hc : task.charge = some (.packet inpack)) : task.isWork = true := by
  induction task with
  | write todo stage next ih => exact ih h hc
  | call op pc =>
    cases pc with
    | handle p drains =>
      by_contra hop
      simp only [Task.isWork, Bool.not_eq_true] at hop
      simp [Task.Placed, hop, Pc.dispatches] at h
    | _ => cases hc
  | loop a epoch c pc => cases hc
  | exec p pc => cases hc

theorem Conveyed.queued (hi : Conveyed s x)
    (hret : s.tasks i = some (.call .work (.returned none))) :
    ∃ queued, x.queued = some queued ∧ ∀ inpack n, (inpack, n) ∈ queued →
      x.HandledOnce inpack n ∨ ∃ j task, j ≠ i ∧ s.tasks j = some task ∧ task.isWork = true ∧
        task.charge = some (.packet inpack) := by
  obtain ⟨queued, hqueued, htaken⟩ : x.Emptied := hi.placed i _ hret
  have hquit : s.quit = true := by
    by_contra hopen
    cases hqueued.symm.trans (hi.signalled.unqueued (by simpa using hopen))
  refine ⟨queued, hqueued, ?_⟩
  intro inpack n hmem
  have hentered : x.box.entered[n]? = some inpack := by
    obtain ⟨queued', hqueued', hget⟩ := hi.signalled.queued hquit
    cases hqueued.symm.trans hqueued'
    exact hget _ hmem
  -- The packet has been received; it is handled, or in the hand of another call of `Work`.
  by_cases hfree : ∀ j, x.box.hand j ≠ some n
  · exact Or.inl (hi.relayed.accounted.handled_once (htaken _ hmem) hentered hfree)
  · obtain ⟨j, hj⟩ := not_forall_not.mp hfree
    obtain ⟨task, htask, hc⟩ :=
      held_eq_some ((hi.relayed.hands j inpack).mpr ⟨n, hj, hentered⟩)
    refine Or.inr ⟨j, task, ?_, htask, isWork_of_packet (hi.placed j task htask) hc, hc⟩
    rintro rfl
    cases hret.symm.trans htask
    cases hc

theorem sends_ne_quit {ch : Chan} (h : sends cfg s act t = some ch) : ch ≠ .quit := by
  obtain ⟨i, -, h⟩ := Option.bind_eq_some_iff.mp h
  obtain ⟨task, -, h⟩ := Option.bind_eq_some_iff.mp h
  obtain ⟨task', -, h⟩ := Option.bind_eq_some_iff.mp h
  unfold Task.sends at h
  split at h
  · cases h
    simp
  · split_ifs at h
    cases h
    simp
  · cases h

theorem Conveyed.channels (hi : Conveyed s x) (hs : step cfg s act = some t) {ch : Chan}
    (h : sends cfg s act t = some ch ∨ closes s act = some ch) : ch ∉ x.closed := by
  rw [hi.signalled.log]
  rcases h with hsend | hclose
  · split_ifs
    · simpa using sends_ne_quit hsend
    · simp
  · cases (step_move hs).flow hi.named with
    | closed he hc hin hch hh hq hcl => simp [(hi.signalled.pending _ hch).2]
    | _ => simp_all

/-- When `Work` returns, what was in `in` when `quit` was closed has been passed to
`handleInPack`, each packet once; every call of `Work` handles its packets in the order
in which they have entered `in`; and no channel that is closed is sent on or closed. -/
theorem close_drains_in (cfg : Cfg) (s : St) (x : Passage)
    (h : Reachable (traced (step cfg) Passage.note) always ({}, {}) (s, x)) :
    (∀ i, s.tasks i = some (.call .work (.returned none)) → ∃ queued, x.queued = some queued ∧
      (∀ inpack n, (inpack, n) ∈ queued → x.HandledOnce inpack n ∨
        ∃ j task, j ≠ i ∧ s.tasks j = some task ∧ task.isWork = true ∧
          task.charge = some (.packet inpack)) ∧
      (SoleWork s i → ∀ inpack n, (inpack, n) ∈ queued → x.HandledOnce inpack n)) ∧
    x.box.handled.Pairwise (fun r r' => r.consumer = r'.consumer → r.number < r'.number) ∧
    (∀ r ∈ x.box.handled, x.box.entered[r.number]? = some r.message) ∧
    ∀ act t ch, step cfg s act = some t →
      (sends cfg s act t = some ch ∨ closes s act = some ch) → ch ∉ x.closed := by
  have hi := conveyed_reachable h
  refine ⟨?_, hi.relayed.accounted.order, fun r hr => (hi.relayed.accounted.handled r hr).2,
    fun act t ch hs => hi.channels hs⟩
  intro i hret
  obtain ⟨queued, hqueued, hmem⟩ := hi.queued hret
  refine ⟨queued, hqueued, hmem, ?_⟩
  intro hsole inpack n hin
  rcases hmem inpack n hin with honce | ⟨j, task, hne, hj, hwork, -⟩
  · exact honce
  · exact absurd (hsole j task hj hwork) hne

/-- Two packets are in `in` when `Close` closes `quit`; `Work` then takes that case. -/
def drainActs : List Act :=
  dispatchActs.take 23 ++
    [.serve 0 (Wire.frame res dtEchoRes [1]), .serve 0 (Wire.frame res dtEchoRes [2]),
      .read 2 none, .task 2, .send 2, .read 2 none, .task 2, .send 2,
      .call .close, .task 3, .task 3, .quit 1, .task 1, .task 1, .task 1, .task 1, .task 1]

theorem close_drains_two :
    ∃ s x queued, Reachable (traced (step oneByOne) Passage.note) always ({}, {}) (s, x) ∧
      s.tasks 1 = some (.call .work (.returned none)) ∧ x.queued = some queued ∧
      queued.map (fun q => (q.1.data, q.2)) = [([1], 0), ([2], 1)] ∧
      ∀ inpack n, (inpack, n) ∈ queued → x.HandledOnce inpack n := by
  obtain ⟨s, x, hrun, hret, hothers, hq⟩ : ∃ s x,
      run (traced (step oneByOne) Passage.note) always ({}, {}) drainActs = some (s, x) ∧
      s.tasks 1 = some (.call .work (.returned none)) ∧
      (∀ j < s.ntask, j ≠ 1 → (s.tasks j).all (fun task => !task.isWork) = true) ∧
      x.queued.map (fun queued => queued.map (fun q => (q.1.data, q.2))) =
        some [([1], 0), ([2], 1)] :=
    ⟨_, _, rfl, rfl, by decide, rfl⟩
  have hr : Reachable (traced (step oneByOne) Passage.note) always ({}, {}) (s, x) :=
    ⟨drainActs, hrun⟩
  have hsole : SoleWork s 1 := by
    intro j task hj hwork
    by_contra hne
    have hother := hothers j ((conveyed_reachable hr).named j task hj) hne
    simp [hj, hwork] at hother
  obtain ⟨queued, hqueued, -, honce⟩ := (close_drains_in oneByOne s x hr).1 1 hret
  refine ⟨s, x, queued, hr, hret, hqueued, ?_, honce hsole⟩
  simpa [hqueued] using hq

end Gearman.Worker.Machine
