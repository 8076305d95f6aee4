import Gearman.WorkerAbilities
import Gearman.WorkerTasks

/-!
# The packets a task has yet to write

A packet that a task will write is first queued for an agent. It is bound to a connection
when `write` takes its snapshot of `rw`, and is on the wire after the flush.
-/

namespace Gearman.Worker.Machine
open Bytes Transition

/-- The part of `todo` that is not bound to a connection yet. -/
def Stage.waiting (todo : List (ℕ × OutPack)) : Stage → List (ℕ × OutPack)
  | .lock => todo
  | .getRW => todo
  | .flush _ => todo.tail
  | .unlock => todo.tail

def Task.queued : Task → List (ℕ × OutPack)
  | .write todo stage next => stage.waiting todo ++ next.queued
  | _ => []

/-- The packet that is being written to connection `c`, for agent `k`. -/
def Stage.flushing (todo : List (ℕ × OutPack)) : Stage → List (ℕ × ℕ × OutPack)
  | .flush c => (todo.take 1).map (fun w => (c, w))
  | _ => []

def Task.flushing : Task → List (ℕ × ℕ × OutPack)
  | .write todo stage next => stage.flushing todo ++ next.flushing
  | _ => []

variable {cfg : Cfg} {s : St} {i : ℕ} {todo rest : List (ℕ × OutPack)} {next : Task}

theorem queued_writes (todo : List (ℕ × OutPack)) (next : Task) :
    (writes todo next).queued = todo ++ next.queued := by
  cases todo <;> rfl

theorem flushing_writes (todo : List (ℕ × OutPack)) (next : Task) :
    (writes todo next).flushing = next.flushing := by
  cases todo <;> rfl

/-- The packet is yet to be written for agent `k`, if it is bound then to connection `c`. -/
def Task.OnWay (task : Task) (k c : ℕ) (p : OutPack) : Prop :=
  (k, p) ∈ task.queued ∨ (c, k, p) ∈ task.flushing

theorem onWay_writes {k c : ℕ} {p : OutPack} :
    (writes todo next).OnWay k c p ↔ (k, p) ∈ todo ∨ next.OnWay k c p := by
  simp only [Task.OnWay, queued_writes, flushing_writes, List.mem_append, or_assoc]

theorem onWay_lock {k c : ℕ} {p : OutPack} :
    (Task.write todo .getRW next).OnWay k c p ↔ (Task.write todo .lock next).OnWay k c p := Iff.rfl

theorem onWay_getRW {k k' c c' : ℕ} {p p' : OutPack} :
    (Task.write ((k', p') :: rest) (.flush c') next).OnWay k c p ↔
      (c, k, p) = (c', k', p') ∨ (Task.write ((k', p') :: rest) .unlock next).OnWay k c p := by
  simp only [Task.OnWay, Task.queued, Task.flushing, Stage.waiting, Stage.flushing, List.tail_cons,
    List.take_succ_cons, List.take_zero, List.map_cons, List.map_nil, List.mem_append,
    List.mem_singleton, List.not_mem_nil, false_or]
  tauto

theorem onWay_waiting {k k' c : ℕ} {p p' : OutPack} :
    (Task.write ((k', p') :: rest) .getRW next).OnWay k c p ↔
      (k, p) = (k', p') ∨ (Task.write ((k', p') :: rest) .unlock next).OnWay k c p := by
  simp only [Task.OnWay, Task.queued, Task.flushing, Stage.waiting, Stage.flushing, List.tail_cons,
    List.mem_append, List.mem_cons, List.not_mem_nil, false_or]
  tauto

theorem onWay_unlock {k k' c : ℕ} {p p' : OutPack} :
    (Task.write ((k', p') :: rest) .unlock next).OnWay k c p ↔ (writes rest next).OnWay k c p := by
  simp only [Task.OnWay, Task.queued, Task.flushing, Stage.waiting, Stage.flushing, List.tail_cons,
    queued_writes, flushing_writes, List.nil_append]

theorem mem_broadcast {outpack : OutPack} {k : ℕ} {p : OutPack} :
    (k, p) ∈ broadcast cfg outpack ↔ k < cfg.nagents ∧ p = outpack := by
  simp only [broadcast, List.mem_map, List.mem_range, Prod.mk.injEq]
  constructor
  · rintro ⟨k', hk, rfl, rfl⟩
    exact ⟨hk, rfl⟩
  · rintro ⟨hk, rfl⟩
    exact ⟨k, hk, rfl, rfl⟩

theorem funcPack_type (funcname : Bytes) (timeout : UInt32) :
    (Calls.funcPack funcname timeout).dataType = dtCanDo ∨
      (Calls.funcPack funcname timeout).dataType = dtCanDoTimeout := by
  unfold Calls.funcPack
  split_ifs
  · exact Or.inl rfl
  · exact Or.inr rfl

theorem resultPack_type (inpack : InPack) (r : Result) :
    (resultPack inpack r).dataType = dtWorkComplete ∨ (resultPack inpack r).dataType = dtWorkFail ∨
      (resultPack inpack r).dataType = dtWorkException := by
  unfold resultPack
  split_ifs
  · exact Or.inl rfl
  · exact Or.inr (Or.inl rfl)
  · exact Or.inr (Or.inr rfl)

theorem writes_inj {todo' : List (ℕ × OutPack)} {op : Op} {pc : Pc}
    (h : writes todo (.call op pc) = writes todo' (.call op pc)) : todo = todo' := by
  cases todo with
  | nil =>
    cases todo' with
    | nil => rfl
    | cons w rest => cases h
  | cons w rest =>
    cases todo' with
    | nil => cases h
    | cons w' rest' =>
      simp only [writes, List.isEmpty_cons, Bool.false_eq_true, if_false, Task.write.injEq] at h
      exact h.1

/-- `AddFunc` or `RemoveFunc` on a running worker: the map has changed and the packet for it
goes to every agent. -/
inductive Changes (cfg : Cfg) (s : St) : Op → JobFuncs → List (ℕ × OutPack) → Prop
  | add {funcname : Bytes} {f : JobFunc} (hf : s.funcs.lookup funcname = none) :
      Changes cfg s (.addFunc funcname f) (s.funcs.insert funcname f)
        (broadcast cfg (Calls.funcPack funcname f.timeout))
  | remove {funcname : Bytes} :
      Changes cfg s (.removeFunc funcname) (s.funcs.erase funcname)
        (broadcast cfg { dataType := dtCantDo, data := funcname })

theorem changeFuncs_running {t : St} {op : Op} (hr : s.running = true)
    (h : changeFuncs cfg s i op = some t) :
    (∃ err, t = s.setTask i (.call op (.returned (some err)))) ∨
      ∃ funcs todo, Changes cfg s op funcs todo ∧
        t = { s.setTask i (writes todo (.call op .unlockWorker)) with
          funcs := funcs, mutex := some i } := by
  cases op with
  | addFunc funcname f =>
    simp only [changeFuncs, addFunc, hr, if_true, Calls.prepFuncOutpack_eq] at h
    split_ifs at h with hf <;> cases h
    · exact Or.inl ⟨_, rfl⟩
    · exact Or.inr ⟨_, _, .add (by simpa using hf), rfl⟩
  | removeFunc funcname =>
    simp only [changeFuncs, removeFunc, hr, if_true] at h
    split_ifs at h with hf <;> cases h
    · exact Or.inl ⟨_, rfl⟩
    · exact Or.inr ⟨_, _, .remove, rfl⟩
  | _ => cases h

theorem changes_of_eq {op : Op} {funcs : JobFuncs} (hmu : s.mutex = none) (hr : s.running = true)
    (heq : changeFuncs cfg s i op = some { s.setTask i (writes todo (.call op .unlockWorker)) with
      funcs := funcs, mutex := some i }) : Changes cfg s op funcs todo := by
  rcases changeFuncs_running hr heq with ⟨err, ht⟩ | ⟨funcs', todo', hch, ht⟩
  · have hmutex := congrArg St.mutex ht
    simp [St.setTask, hmu] at hmutex
  · have htask := congrFun (congrArg St.tasks ht) i
    simp only [St.setTask, Function.update_self, Option.some.injEq] at htask
    have hfuncs : funcs = funcs' := congrArg St.funcs ht
    rw [hfuncs, writes_inj htask]
    exact hch

variable {t : St} {act : Act} {j k c : ℕ} {o : Option ℕ} {p : OutPack} {funcs : JobFuncs}
variable {task task' new : Task}

theorem mem_toAgent {inpack : InPack} {outpack : OutPack} (h : (k, p) ∈ toAgent inpack outpack) :
    p = outpack := by
  simp only [toAgent, List.mem_map, Prod.mk.injEq] at h
  obtain ⟨_, _, _, rfl⟩ := h
  rfl

theorem mem_mapM {α β : Type} {f : α → Option β} {xs : List α} {ys : List β}
    (h : xs.mapM f = some ys) :
    (∀ x ∈ xs, ∃ y ∈ ys, f x = some y) ∧ ∀ y ∈ ys, ∃ x ∈ xs, f x = some y := by
  induction xs generalizing ys with
  | nil =>
    cases h
    exact ⟨by simp, by simp⟩
  | cons x xs ih =>
    simp only [List.mapM_cons, Option.bind_eq_bind, Option.bind_eq_some_iff, Option.pure_def,
      Option.some.injEq] at h
    obtain ⟨y, hy, ys', hys', rfl⟩ := h
    obtain ⟨hto, hfrom⟩ := ih hys'
    constructor
    · intro x' hx'
      rcases List.mem_cons.mp hx' with rfl | hx'
      · exact ⟨y, List.mem_cons_self, hy⟩
      · obtain ⟨y', hy', heq⟩ := hto x' hx'
        exact ⟨y', List.mem_cons_of_mem y hy', heq⟩
    · intro y' hy'
      rcases List.mem_cons.mp hy' with rfl | hy'
      · exact ⟨x, List.mem_cons_self, hy⟩
      · obtain ⟨x', hx', heq⟩ := hfrom y' hy'
        exact ⟨x', List.mem_cons_of_mem x hx', heq⟩

theorem mem_funcOutpacks {order : List Bytes} {outpacks : List OutPack}
    (h : funcOutpacks funcs order = some outpacks) :
    p ∈ outpacks ↔ ∃ name f, funcs.lookup name = some f ∧ p = Calls.funcPack name f.timeout := by
  unfold funcOutpacks at h
  split_ifs at h with hperm
  have hkeys : ∀ {name f}, funcs.lookup name = some f → name ∈ order := by
    intro name f hf
    refine (List.isPerm_iff.mp hperm).mem_iff.mpr (AList.mem_keys.mp ?_)
    exact AList.lookup_isSome.mp (by simp [hf])
  obtain ⟨hto, hfrom⟩ := mem_mapM h
  simp only [Calls.prepFuncOutpack_eq, Option.bind_eq_bind, Option.bind_eq_some_iff,
    Option.some.injEq] at hto hfrom
  constructor
  · intro hp
    obtain ⟨name, -, f, hf, rfl⟩ := hfrom p hp
    exact ⟨name, f, hf, rfl⟩
  · rintro ⟨name, f, hf, rfl⟩
    obtain ⟨q, hq, g, hg, rfl⟩ := hto name (hkeys hf)
    cases Option.some.inj (hf.symm.trans hg)
    exact hq

structure Silent (task : Task) : Prop where
  queued : task.queued = []
  flushing : task.flushing = []

theorem silent_back (op : Op) (drains : Bool) : Silent (back op drains) := by
  cases drains <;> exact ⟨rfl, rfl⟩

theorem Dials.silent (hd : Dials c task k task') : Silent task ∧ Silent task' := by
  cases hd <;> exact ⟨⟨rfl, rfl⟩, ⟨rfl, rfl⟩⟩

theorem Publishes.silent {e : ℕ} (hp : Publishes e task k c task') :
    Silent task ∧ Silent task' := by
  cases hp <;> exact ⟨⟨rfl, rfl⟩, ⟨rfl, rfl⟩⟩

theorem Spawns.silent (hs : Spawns task task' new) :
    Silent task ∧ Silent task' ∧ Silent new := by
  cases hs <;> exact ⟨⟨rfl, rfl⟩, ⟨rfl, rfl⟩, ⟨rfl, rfl⟩⟩

theorem Shuts.silent {old : Option ℕ} (hs : Shuts task old task') : Silent task ∧ Silent task' := by
  cases hs <;> exact ⟨⟨rfl, rfl⟩, ⟨rfl, rfl⟩⟩

theorem Reports.silent {rs : List Report} (hr : Reports cfg s task rs task') :
    Silent task ∧ Silent task' := by
  cases hr with
  | serverErr ht => exact ⟨⟨rfl, rfl⟩, silent_back _ _⟩
  | custome ht hj => exact ⟨⟨rfl, rfl⟩, silent_back _ _⟩
  | _ => exact ⟨⟨rfl, rfl⟩, ⟨rfl, rfl⟩⟩

/-- The packet is queued for agent `k`, or is being written to a connection. -/
def Task.Pending (task : Task) (k : ℕ) : Option ℕ → OutPack → Prop
  | none, p => (k, p) ∈ task.queued
  | some c, p => (c, k, p) ∈ task.flushing

def Task.last : Task → Task
  | .write _ _ next => next.last
  | task => task

/-- The packet is not about what the worker can do. -/
def Neutral (p : OutPack) : Prop :=
  p.dataType ∉ [dtCanDo, dtCanDoTimeout, dtCantDo, dtResetAbilities]

/-- How a packet has come into the hands of task `j`, which is `x` after the step. -/
inductive Origin (cfg : Cfg) (s t : St) (j : ℕ) (x : Task) (k : ℕ) : Option ℕ → OutPack → Prop
  | kept {y : Task} {o : Option ℕ} {p : OutPack} (h : s.tasks j = some y) (hl : x.last = y.last)
      (hp : y.Pending k o p) : Origin cfg s t j x k o p
  | bound {y : Task} {c : ℕ} {p : OutPack} (h : s.tasks j = some y) (hl : x.last = y.last)
      (hp : y.Pending k none p) (hrw : (s.agents k).rw = some c) : Origin cfg s t j x k (some c) p
  | neutral {p : OutPack} (hp : Neutral p) : Origin cfg s t j x k none p
  | ready {op : Op} {name : Bytes} {timeout : UInt32} (hl : x.last = .call op .setReady) :
      Origin cfg s t j x k none (Calls.funcPack name timeout)
  | reconnect {op : Op} {epoch c : ℕ} {name : Bytes} {timeout : UInt32}
      (hl : x.last = .call op (.resume k epoch c)) :
      Origin cfg s t j x k none (Calls.funcPack name timeout)
  | reset (hl : x.last = .call .reset .clear) :
      Origin cfg s t j x k none { dataType := dtResetAbilities }
  | change {op : Op} {todo : List (ℕ × OutPack)} {p : OutPack}
      (hl : x.last = .call op .unlockWorker) (hch : Changes cfg s op t.funcs todo)
      (hp : (k, p) ∈ todo) : Origin cfg s t j x k none p

theorem pending_writes : (writes todo next).Pending k o p ↔
    (o = none ∧ (k, p) ∈ todo) ∨ next.Pending k o p := by
  cases o <;> simp [Task.Pending, queued_writes, flushing_writes]

theorem last_writes (todo : List (ℕ × OutPack)) (next : Task) :
    (writes todo next).last = next.last := by
  cases todo <;> rfl

theorem Silent.not_pending (h : Silent task) : ¬ task.Pending k o p := by
  cases o <;> simp [Task.Pending, h.queued, h.flushing]

theorem pending_new (hn : Silent next) (hp : (writes todo next).Pending k o p) :
    o = none ∧ (k, p) ∈ todo :=
  (pending_writes.mp hp).resolve_right hn.not_pending

theorem Task.Pending.onWay (h : task.Pending k o p) : ∃ c, task.OnWay k c p := by
  cases o with
  | none => exact ⟨0, Or.inl h⟩
  | some c => exact ⟨c, Or.inr h⟩

theorem Task.OnWay.pending (h : task.OnWay k c p) : ∃ o, task.Pending k o p := by
  rcases h with h | h
  · exact ⟨none, h⟩
  · exact ⟨some c, h⟩

theorem pending_unlock {w : ℕ × OutPack} : (Task.write (w :: rest) .unlock next).Pending k o p ↔
    (writes rest next).Pending k o p := by
  cases o <;>
    simp [Task.Pending, Task.queued, Task.flushing, Stage.waiting, Stage.flushing, queued_writes,
      flushing_writes]

theorem pending_flush {w : ℕ × OutPack} (hp : (Task.write (w :: rest) .unlock next).Pending k o p) :
    (Task.write (w :: rest) (.flush c) next).Pending k o p := by
  cases o with
  | none => exact hp
  | some c' => exact List.mem_append_right _ hp

theorem neutral_of_type (ty : UInt32) (h : p.dataType = ty)
    (hty : ty ∉ [dtCanDo, dtCanDoTimeout, dtCantDo, dtResetAbilities]) : Neutral p := by
  rw [Neutral, h]
  exact hty

theorem neutral_resultPack (inpack : InPack) (r : Result) : Neutral (resultPack inpack r) := by
  rcases resultPack_type inpack r with h | h | h <;> exact neutral_of_type _ h (by decide)

theorem neutral_update (inpack : InPack) (u : Update) : Neutral (u.pack inpack) := by
  cases u with
  | data b => exact neutral_of_type dtWorkData rfl (by decide)
  | warning b => exact neutral_of_type dtWorkWarning rfl (by decide)
  | status numerator denominator => exact neutral_of_type dtWorkStatus rfl (by decide)

theorem origin_toAgent {inpack : InPack} {outpack : OutPack} (ho : Neutral outpack)
    (hn : Silent next) (hp : (writes (toAgent inpack outpack) next).Pending k o p) :
    Origin cfg s t j (writes (toAgent inpack outpack) next) k o p := by
  obtain ⟨rfl, hmem⟩ := pending_new hn hp
  cases mem_toAgent hmem
  exact .neutral ho

theorem origin_broadcast {outpack : OutPack} (ho : Neutral outpack) (hn : Silent next)
    (hp : (writes (broadcast cfg outpack) next).Pending k o p) :
    Origin cfg s t j (writes (broadcast cfg outpack) next) k o p := by
  obtain ⟨rfl, hmem⟩ := pending_new hn hp
  cases (mem_broadcast.mp hmem).2
  exact .neutral ho

theorem origin_afterLimit {op : Op} {inpack : InPack} {drains : Bool}
    (hp : (afterLimit op inpack drains).Pending k o p) :
    Origin cfg s t j (afterLimit op inpack drains) k o p :=
  origin_toAgent (neutral_of_type dtGrabJobUniq rfl (by decide)) (silent_back op drains) hp

theorem origin_entry {op : Op} (hp : (entry cfg op).Pending k o p) :
    Origin cfg s t j (entry cfg op) k o p := by
  cases op with
  | reset =>
    obtain ⟨rfl, hmem⟩ := pending_new ⟨rfl, rfl⟩ hp
    cases (mem_broadcast.mp hmem).2
    exact .reset (last_writes _ _)
  | echo data => exact origin_broadcast (neutral_of_type dtEchoReq rfl (by decide)) ⟨rfl, rfl⟩ hp
  | setId id => exact origin_broadcast (neutral_of_type dtSetClientId rfl (by decide)) ⟨rfl, rfl⟩ hp
  | progress inpack updates =>
    obtain ⟨rfl, hmem⟩ := pending_new ⟨rfl, rfl⟩ hp
    obtain ⟨-, u, -, rfl⟩ := mem_tells hmem
    exact .neutral (neutral_update inpack u)
  | _ => exact absurd hp (Silent.not_pending ⟨rfl, rfl⟩)

theorem Local.origin (hl : Local cfg s task task') (h : s.tasks j = some task)
    (hp : task'.Pending k o p) : Origin cfg s t j task' k o p := by
  cases hl with
  | @announce op k' funcs order outpacks hk ho =>
    obtain ⟨rfl, hmem⟩ := pending_new ⟨rfl, rfl⟩ hp
    obtain ⟨outpack, hout, hmem⟩ := List.mem_flatMap.mp hmem
    cases (mem_broadcast.mp hmem).2
    obtain ⟨name, f, -, rfl⟩ := (mem_funcOutpacks ho).mp hout
    exact .ready (last_writes _ _)
  | noJob ht =>
    exact origin_toAgent (neutral_of_type dtPreSleep rfl (by decide)) (silent_back _ _) hp
  | noop ht =>
    exact origin_toAgent (neutral_of_type dtGrabJobUniq rfl (by decide)) (silent_back _ _) hp
  | unlimited hl => exact origin_afterLimit hp
  | reannounce hmu ho =>
    obtain ⟨rfl, hmem⟩ := pending_new ⟨rfl, rfl⟩ hp
    rcases List.mem_append.mp hmem with hmem | hmem
    · obtain ⟨outpack, hout, heq⟩ := List.mem_map.mp hmem
      cases heq
      obtain ⟨name, f, -, rfl⟩ := (mem_funcOutpacks ho).mp hout
      exact .reconnect (last_writes _ _)
    · cases List.mem_singleton.mp hmem
      exact .neutral (neutral_of_type dtGrabJobUniq rfl (by decide))
  | @getRW k' c' p' rest next hrw =>
    cases o with
    | none => exact .kept h rfl (List.mem_append.mpr ((List.mem_append.mp hp).imp_left (.tail _)))
    | some c =>
      rcases List.mem_append.mp hp with hmem | hmem
      · cases List.mem_singleton.mp hmem
        exact .bound h rfl (List.mem_append_left _ List.mem_cons_self) hrw
      · exact .kept h rfl hmem
  | flushFailed => exact .kept h rfl (pending_flush hp)
  | @answer inpack r hmu =>
    unfold Machine.answer at hp ⊢
    split_ifs at hp ⊢
    · exact origin_toAgent (neutral_resultPack inpack r) ⟨rfl, rfl⟩ hp
    · exact absurd hp (Silent.not_pending ⟨rfl, rfl⟩)
  | _ => exact absurd hp (Silent.not_pending ⟨rfl, rfl⟩)

theorem Locks.origin (hl : Locks cfg task k' task') (h : s.tasks j = some task)
    (hp : task'.Pending k o p) : Origin cfg s t j task' k o p := by
  cases hl with
  | connect hk => exact absurd hp (Silent.not_pending ⟨rfl, rfl⟩)
  | write => exact .kept h rfl hp

theorem Unlocks.origin (hl : Unlocks task k' task') (h : s.tasks j = some task)
    (hp : task'.Pending k o p) : Origin cfg s t j task' k o p := by
  cases hl with
  | written => exact .kept h (last_writes _ _) (pending_unlock.mpr hp)
  | _ => exact absurd hp (Silent.not_pending ⟨rfl, rfl⟩)

theorem Changes.origin {op : Op} (hch : Changes cfg s op t.funcs todo)
    (hp : (writes todo (.call op .unlockWorker)).Pending k o p) :
    Origin cfg s t j (writes todo (.call op .unlockWorker)) k o p := by
  obtain ⟨rfl, hmem⟩ := pending_new ⟨rfl, rfl⟩ hp
  exact .change (last_writes _ _) hch hmem

/-- Where a packet that is yet to be written comes from. -/
theorem Move.origin {x : Task} (hm : Move cfg s act t) (hj : t.tasks j = some x)
    (hp : x.Pending k o p) : Origin cfg s t j x k o p := by
  have moved : ∀ {i : ℕ} {task' : Task}, t.tasks = Function.update s.tasks i (some task') →
      (j = i → x = task' → Origin cfg s t j x k o p) → Origin cfg s t j x k o p := by
    intro i task' ht hnew
    rw [ht] at hj
    rcases update_eq_some hj with ⟨hji, hx⟩ | ⟨-, hj⟩
    · exact hnew hji hx
    · exact .kept hj rfl hp
  have silent : ∀ {i : ℕ} {task' : Task}, t.tasks = Function.update s.tasks i (some task') →
      Silent task' → Origin cfg s t j x k o p := by
    intro i task' ht hs
    refine moved ht ?_
    rintro rfl rfl
    exact absurd hp hs.not_pending
  cases hm with
  | call op hc =>
    refine moved rfl ?_
    rintro rfl rfl
    exact origin_entry hp
  | pc h hl =>
    refine moved rfl ?_
    rintro rfl rfl
    exact hl.origin h hp
  | lock h hl hfree =>
    refine moved rfl ?_
    rintro rfl rfl
    exact hl.origin h hp
  | unlock h hl =>
    refine moved rfl ?_
    rintro rfl rfl
    exact hl.origin h hp
  | dial h hd => exact silent rfl hd.silent.2
  | publish h hp => exact silent rfl hp.silent.2
  | @spawn i task task' new h hs =>
    rcases update_eq_some hj with ⟨-, rfl⟩ | ⟨-, hj⟩
    · exact absurd hp hs.silent.2.2.not_pending
    · rcases update_eq_some hj with ⟨-, rfl⟩ | ⟨-, hj⟩
      · exact absurd hp hs.silent.2.1.not_pending
      · exact .kept hj rfl hp
  | @shut i old task task' h hs => exact silent (shut_setTask s old i task') hs.silent.2
  | report h hr => exact silent rfl hr.silent.2
  | setRunning h hmu =>
    refine moved rfl ?_
    rintro rfl rfl
    exact origin_broadcast (neutral_of_type dtGrabJobUniq rfl (by decide)) ⟨rfl, rfl⟩ hp
  | @closeAgent i k op h hk => exact silent (closeAgent_setTask s k i _) ⟨rfl, rfl⟩
  | changeFuncs h hmu hr heq =>
    refine moved rfl ?_
    rintro rfl rfl
    exact (changes_of_eq hmu hr heq).origin hp
  | sent h hopen =>
    refine moved rfl ?_
    rintro rfl rfl
    exact .kept h rfl (pending_flush hp)
  | token h hl hcap =>
    refine moved rfl ?_
    rintro rfl rfl
    exact origin_afterLimit hp
  | @handoff i j' op inpack job drains err v h h' hl =>
    rcases update_eq_some hj with ⟨-, rfl⟩ | ⟨-, hj⟩
    · exact absurd hp (Silent.not_pending ⟨rfl, rfl⟩)
    · rcases update_eq_some hj with ⟨-, rfl⟩ | ⟨-, hj⟩
      · exact origin_afterLimit hp
      · exact .kept hj rfl hp
  | serve hc => exact .kept hj rfl hp
  | panic h hrw => exact .kept hj rfl hp
  | setReady h hmu => exact silent rfl ⟨rfl, rfl⟩
  | close h hmu hc => exact silent rfl ⟨rfl, rfl⟩
  | closeAgain h hmu hc => exact silent rfl ⟨rfl, rfl⟩
  | closeQuit h => exact silent rfl ⟨rfl, rfl⟩
  | setFuncs h hpc hmu heq => exact silent rfl ⟨rfl, rfl⟩
  | unlockWorker h => exact silent rfl ⟨rfl, rfl⟩
  | read h hw => exact silent rfl ⟨rfl, rfl⟩
  | send h hfull => exact silent rfl ⟨rfl, rfl⟩
  | recv h hpc hin ha => exact silent rfl ⟨rfl, rfl⟩
  | release h hl hpos => exact silent rfl ⟨rfl, rfl⟩

end Gearman.Worker.Machine
