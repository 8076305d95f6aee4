import Gearman.WorkerReaction
import Gearman.WorkerWrites

/-!
# The functions of a worker on the connection of a `Reconnect`

`reconnect` publishes the connection first and takes its snapshot of the functions
under `worker.Mutex` afterwards; `AddFunc` and `RemoveFunc` hold that lock until they
have written to every agent. From the snapshot on, each function is on the server's table
or its packet is on the way, in the hands of `reconnect` or of the holder of the lock; a
packet that takes a name off the table is only in the hands of the holder, and the name
is not among the functions then.
-/

namespace Gearman.Worker.Machine
open Bytes Transition

def Known (log : List OutPack) (name : Bytes) : Prop :=
  ((Calls.abilities log).lookup name).isSome = true

def Erases (p : OutPack) (name : Bytes) : Prop :=
  p.dataType = dtCantDo ∧ p.body = name ∨ p.dataType = dtResetAbilities

def Harmless (p : OutPack) : Prop := ∀ name, ¬ Erases p name

/-- The task holds `worker.Mutex` over its writes. -/
def Task.changes : Task → Bool
  | .write _ _ next => next.changes
  | .call _ .unlockWorker => true
  | _ => false

def Task.disturbs : Task → Bool
  | .write _ _ next => next.disturbs
  | .call .reset _ => true
  | .call _ .clear => true
  | .call _ .close => true
  | _ => false

/-- A name is taken off the table only in `Reset`, or while it is not a function. -/
def Safe (funcs : JobFuncs) (task : Task) : Prop :=
  ∀ k c p name, task.OnWay k c p → Erases p name →
    task.disturbs = true ∨ task.changes = true ∧ funcs.lookup name = none

structure Orderly (s : St) : Prop where
  holder : ∀ i task, s.tasks i = some task → task.changes = true → s.mutex = some i
  safe : ∀ i task, s.tasks i = some task → Safe s.funcs task

variable {cfg : Cfg} {s t : St} {act : Act} {i k c : ℕ} {task task' new next : Task}
variable {todo rest : List (ℕ × OutPack)} {funcs : JobFuncs} {name : Bytes} {p : OutPack}

theorem harmless_of_type (hc : p.dataType ≠ dtCantDo) (hr : p.dataType ≠ dtResetAbilities) :
    Harmless p := by
  rintro name (⟨h, -⟩ | h)
  · exact hc h
  · exact hr h

inductive Teaches (p : OutPack) : Prop
  | insert (body : Bytes) (n : ℕ) (hp : Harmless p)
      (h : ∀ table, Calls.learn table p = table.insert body n)
  | erase (hp : p.dataType = dtCantDo) (h : ∀ table, Calls.learn table p = table.erase p.body)
  | reset (hp : p.dataType = dtResetAbilities) (h : ∀ table, Calls.learn table p = ∅)
  | nothing (hp : Harmless p) (h : ∀ table, Calls.learn table p = table)

theorem teaches (p : OutPack) : Teaches p := by
  by_cases hcan : p.dataType = dtCanDo
  · have hp : Harmless p := harmless_of_type (by rw [hcan]; decide) (by rw [hcan]; decide)
    exact .insert p.body 0 hp (fun table => if_pos hcan)
  by_cases htimeout : p.dataType = dtCanDoTimeout
  · have hp : Harmless p :=
      harmless_of_type (by rw [htimeout]; decide) (by rw [htimeout]; decide)
    cases hi : indexByte 0 p.body with
    | none =>
      refine .nothing hp (fun table => ?_)
      simp only [Calls.learn, if_neg hcan, if_pos htimeout, hi]
    | some i =>
      cases hn : Decimal.parseUint (p.body.drop (i + 1)) with
      | none =>
        refine .nothing hp (fun table => ?_)
        simp only [Calls.learn, if_neg hcan, if_pos htimeout, hi, hn]
      | some n =>
        refine .insert (p.body.take i) n hp (fun table => ?_)
        simp only [Calls.learn, if_neg hcan, if_pos htimeout, hi, hn]
  by_cases hcant : p.dataType = dtCantDo
  · refine .erase hcant (fun table => ?_)
    simp only [Calls.learn, if_neg hcan, if_neg htimeout, if_pos hcant]
  by_cases hreset : p.dataType = dtResetAbilities
  · refine .reset hreset (fun table => ?_)
    simp only [Calls.learn, if_neg hcan, if_neg htimeout, if_neg hcant, if_pos hreset]
  · refine .nothing (harmless_of_type hcant hreset) (fun table => ?_)
    simp only [Calls.learn, if_neg hcan, if_neg htimeout, if_neg hcant, if_neg hreset]

theorem learn_keeps {table : Calls.Abilities} (hp : ¬ Erases p name)
    (h : (table.lookup name).isSome = true) :
    ((Calls.learn table p).lookup name).isSome = true := by
  cases teaches p with
  | insert body n _ hl =>
    rw [hl, Calls.lookup_insert_eq]
    split_ifs
    · rfl
    · exact h
  | erase hcant hl =>
    have hne : name ≠ p.body := fun heq => hp (Or.inl ⟨hcant, heq.symm⟩)
    rw [hl, AList.lookup_erase_ne hne]
    exact h
  | reset hreset hl => exact absurd (Or.inr hreset) hp
  | nothing _ hl =>
    rw [hl]
    exact h

theorem known_append {log : List OutPack} (hp : ¬ Erases p name) (h : Known log name) :
    Known (log ++ [p]) name := by
  unfold Known
  rw [Calls.abilities_append]
  exact learn_keeps hp h

theorem known_funcPack (log : List OutPack) {f : JobFunc} (hn : Calls.nameable name f = true) :
    Known (log ++ [Calls.funcPack name f.timeout]) name := by
  unfold Known
  rw [Calls.abilities_append, Calls.learn_funcPack _ hn, Calls.lookup_insert_eq, if_pos rfl]
  rfl

theorem Neutral.harmless (h : Neutral p) : Harmless p := by
  refine harmless_of_type ?_ ?_ <;> intro hty <;> exact h (by rw [hty]; decide)

theorem harmless_funcPack (funcname : Bytes) (timeout : UInt32) :
    Harmless (Calls.funcPack funcname timeout) := by
  rcases funcPack_type funcname timeout with h | h <;>
    exact harmless_of_type (by rw [h]; decide) (by rw [h]; decide)

theorem changes_writes (todo : List (ℕ × OutPack)) (next : Task) :
    (writes todo next).changes = next.changes := by
  cases todo <;> rfl

theorem changes_answer (s : St) (inpack : InPack) (r : Result) :
    (answer s inpack r).changes = false := by
  unfold answer
  split_ifs
  · exact changes_writes _ _
  · rfl

theorem changes_entry (cfg : Cfg) (op : Op) : (entry cfg op).changes = false := by
  cases op with
  | reset => exact changes_writes _ _
  | echo data => exact changes_writes _ _
  | setId id => exact changes_writes _ _
  | progress inpack updates => exact changes_writes _ _
  | _ => rfl

theorem changes_back (op : Op) (drains : Bool) : (back op drains).changes = false := by
  cases drains <;> rfl

theorem changes_afterLimit (op : Op) (inpack : InPack) (drains : Bool) :
    (afterLimit op inpack drains).changes = false :=
  (changes_writes _ _).trans (changes_back op drains)

theorem Local.changes (hl : Local cfg s task task') : task'.changes = task.changes := by
  cases hl with
  | ready => split_ifs <;> rfl
  | snapshot hmu => split_ifs <;> rfl
  | getConn => split_ifs <;> rfl
  | isReady hmu => split_ifs <;> rfl
  | announce hk ho => exact changes_writes _ _
  | noJob ht => exact (changes_writes _ _).trans (changes_back _ _)
  | noop ht => exact (changes_writes _ _).trans (changes_back _ _)
  | unlimited hl => exact changes_afterLimit _ _ _
  | reannounce hmu ho => exact changes_writes _ _
  | answer hmu => exact changes_answer _ _ _
  | _ => rfl

theorem Locks.changes (hl : Locks cfg task k task') : task'.changes = task.changes := by
  cases hl <;> rfl

theorem Unlocks.changes (hl : Unlocks task k task') : task'.changes = task.changes := by
  cases hl with
  | written => exact changes_writes _ _
  | _ => rfl

theorem Dials.changes (hd : Dials c task k task') : task'.changes = task.changes := by
  cases hd <;> rfl

theorem Publishes.changes {e : ℕ} (hp : Publishes e task k c task') :
    task'.changes = task.changes := by
  cases hp <;> rfl

theorem Spawns.changes (hs : Spawns task task' new) :
    task'.changes = task.changes ∧ new.changes = false := by
  cases hs <;> exact ⟨rfl, rfl⟩

theorem Shuts.changes {old : Option ℕ} (hs : Shuts task old task') :
    task'.changes = task.changes := by
  cases hs <;> rfl

theorem Reports.changes {rs : List Report} (hr : Reports cfg s task rs task') :
    task'.changes = task.changes := by
  cases hr with
  | serverErr ht => exact changes_back _ _
  | custome ht hj => exact changes_back _ _
  | _ => rfl

theorem changes_afterReady (op : Op) : (Task.call op op.afterReady).changes = false := by
  cases op <;> rfl

theorem changes_last (task : Task) : task.last.changes = task.changes := by
  induction task with
  | write todo stage next ih => exact ih
  | _ => rfl

theorem disturbs_last (task : Task) : task.last.disturbs = task.disturbs := by
  induction task with
  | write todo stage next ih => exact ih
  | _ => rfl

def Guarded (s : St) : Prop :=
  ∀ i task, s.tasks i = some task → task.changes = true → s.mutex = some i

theorem Guarded.update (hi : Guarded s) (h : s.tasks i = some task)
    (ht : t.tasks = Function.update s.tasks i (some task')) (hmu : t.mutex = s.mutex)
    (hc : task'.changes = task.changes) : Guarded t := by
  rw [Guarded, ht, hmu]
  exact forall_update (fun hx => hi i task h (hc ▸ hx)) hi

theorem Guarded.spawn (hi : Guarded s)
    (ht : t.tasks = Function.update s.tasks s.ntask (some new)) (hmu : t.mutex = s.mutex)
    (hc : new.changes = false) : Guarded t := by
  rw [Guarded, ht, hmu]
  exact forall_update (fun hx => by simp [hc] at hx) hi

theorem Guarded.move (hi : Guarded s) (hm : Move cfg s act t) : Guarded t := by
  cases hm with
  | call op hc => exact hi.spawn rfl rfl (changes_entry cfg op)
  | pc h hl => exact hi.update h rfl rfl hl.changes
  | lock h hl hfree => exact hi.update h rfl rfl hl.changes
  | unlock h hl => exact hi.update h rfl rfl hl.changes
  | dial h hd => exact hi.update h rfl rfl hd.changes
  | publish h hp => exact hi.update h rfl rfl hp.changes
  | @spawn i task task' new h hs =>
    have hmid : Guarded (s.setTask i task') := hi.update h rfl rfl hs.changes.1
    exact hmid.spawn rfl rfl hs.changes.2
  | @shut i old task task' h hs =>
    refine hi.update h (shut_setTask s old i task') ?_ hs.changes
    cases old <;> rfl
  | report h hr => exact hi.update h rfl rfl hr.changes
  | setReady h hmu => exact hi.update h rfl rfl (changes_afterReady _)
  | setRunning h hmu => exact hi.update h rfl rfl (changes_writes _ _)
  | @closeAgent i k op h hk =>
    refine hi.update h (closeAgent_setTask s k i _) ?_ rfl
    simp only [St.setTask, St.closeAgent, St.setAgent]
    cases (s.agents k).conn <;> rfl
  | changeFuncs h hmu hr heq =>
    exact forall_update (fun _ => rfl) (fun j x hj hx => by cases hmu.symm.trans (hi j x hj hx))
  | setFuncs h hpc hmu heq => exact forall_update (fun hx => by cases hx) hi
  | @unlockWorker i op h =>
    intro j x hj hx
    rcases update_eq_some hj with ⟨-, rfl⟩ | ⟨hne, hj⟩
    · cases hx
    · exact absurd (Option.some.inj ((hi j x hj hx).symm.trans (hi i _ h rfl))) hne
  | sent h hopen => exact hi.update h rfl rfl rfl
  | token h hl hcap => exact hi.update h rfl rfl (changes_afterLimit _ _ _)
  | @recv act i op pc inpack rest drains h hpc hin ha =>
    refine hi.update h rfl rfl ?_
    subst hpc
    exact (changes_back op drains).symm
  | @handoff i j op inpack job drains err v h h' hl =>
    have hne : j ≠ i := by
      rintro rfl
      simp [h] at h'
    have hmid : Guarded (s.setTask i (afterLimit op inpack drains)) :=
      hi.update h rfl rfl (changes_afterLimit _ _ _)
    exact hmid.update ((Function.update_of_ne hne ..).trans h') rfl rfl rfl
  | serve hc => exact hi
  | panic h hrw => exact hi
  | close h hmu hc => exact hi.update h rfl rfl rfl
  | closeAgain h hmu hc => exact hi.update h rfl rfl rfl
  | closeQuit h => exact hi.update h rfl rfl rfl
  | read h hw => exact hi.update h rfl rfl rfl
  | send h hfull => exact hi.update h rfl rfl rfl
  | release h hl hpos => exact hi.update h rfl rfl rfl

theorem Move.funcs_eq (hm : Move cfg s act t) (h : s.mutex ≠ none) : t.funcs = s.funcs := by
  cases hm with
  | @shut i old task task' hi hs => cases old <;> rfl
  | @closeAgent i k op hi hk =>
    simp only [St.setTask, St.closeAgent, St.setAgent]
    cases (s.agents k).conn <;> rfl
  | changeFuncs hi hmu hr heq => exact absurd hmu h
  | setFuncs hi hpc hmu heq => exact absurd hmu h
  | _ => rfl

theorem Changes.erases {op : Op} (hc : Changes cfg s op funcs todo) (hp : (k, p) ∈ todo)
    (he : Erases p name) : funcs.lookup name = none := by
  cases hc with
  | add hf =>
    cases (mem_broadcast.mp hp).2
    exact absurd he (harmless_funcPack _ _ name)
  | @remove funcname =>
    cases (mem_broadcast.mp hp).2
    have hname : funcname = name := by
      rcases he with ⟨-, he⟩ | he
      · simpa [OutPack.body, dtCantDo, dtWorkFail] using he
      · exact absurd (show dtCantDo = dtResetAbilities from he) (by decide)
    subst hname
    exact AList.lookup_erase _ _

theorem Orderly.move (hi : Orderly s) (hm : Move cfg s act t) : Orderly t := by
  refine ⟨Guarded.move hi.holder hm, ?_⟩
  intro j x hj k c p name hp he
  have held : ∀ {y : Task} {o : Option ℕ}, s.tasks j = some y → x.last = y.last →
      y.Pending k o p → x.disturbs = true ∨ x.changes = true ∧ t.funcs.lookup name = none := by
    intro y o hy hl hpend
    obtain ⟨c', hway⟩ := hpend.onWay
    rw [← disturbs_last x, ← changes_last x, hl, disturbs_last, changes_last]
    rcases hi.safe j y hy k c' p name hway he with hd | ⟨hch, hnone⟩
    · exact Or.inl hd
    · have hmu : s.mutex ≠ none := by simp [hi.holder j y hy hch]
      exact Or.inr ⟨hch, (hm.funcs_eq hmu).symm ▸ hnone⟩
  obtain ⟨o, hpend⟩ := hp.pending
  cases hm.origin hj hpend with
  | kept hy hl hpend => exact held hy hl hpend
  | bound hy hl hpend hrw => exact held hy hl hpend
  | neutral hp => exact absurd he (hp.harmless name)
  | ready hl => exact absurd he (harmless_funcPack _ _ name)
  | reconnect hl => exact absurd he (harmless_funcPack _ _ name)
  | reset hl =>
    rw [← disturbs_last x, hl]
    exact Or.inl rfl
  | change hl hch hmem =>
    rw [← changes_last x, hl]
    exact Or.inr ⟨rfl, hch.erases hmem he⟩

theorem orderly_start : Orderly {} where
  holder := by
    intro i task h
    cases h
  safe := by
    intro i task h
    cases h

theorem disturbs_of_close (op : Op) : (Task.call op .close).disturbs = true := by
  cases op <;> rfl

theorem disturbs_of_clear (op : Op) : (Task.call op .clear).disturbs = true := by
  cases op <;> rfl

def Act.succeeds : Act → Bool
  | .flush _ ok => ok
  | _ => true

/-- Only the reconnect `r` publishes for agent `a`, all writes succeed, and `Reset` and
`Close` take no part. -/
def undisturbed (a r : ℕ) (s : St) (act : Act) : Bool :=
  match act.runner.bind s.tasks with
  | none => true
  | some task => !task.disturbs && act.succeeds &&
      (act.runner = some r || task.dialled.map Prod.fst ≠ some a)

def Announcing (a c r : ℕ) (s : St) : Prop :=
  ∀ name f, s.funcs.lookup name = some f → Calls.nameable name f = true →
    Known (s.conns c).sent name ∨ ∃ i task, s.tasks i = some task ∧
      (i = r ∨ task.changes = true) ∧ task.OnWay a c (Calls.funcPack name f.timeout)

def Carried (a c : ℕ) (s t : St) : Prop :=
  ∀ j x, s.tasks j = some x → ∃ x', t.tasks j = some x' ∧
    ∀ p, x.OnWay a c p → x'.OnWay a c p ∧ (x.changes = true → x'.changes = true)

def Task.atFlush : Task → Bool
  | .write _ (.flush _) _ => true
  | _ => false

variable {a r : ℕ}

theorem undisturbed_runner (hg : undisturbed a r s act = true) (ha : act.runner = some i)
    (h : s.tasks i = some task) : task.disturbs = false ∧ act.succeeds = true ∧
      (i ≠ r → ∀ c, task.dialled ≠ some (a, c)) := by
  simp only [undisturbed, ha, Option.bind_some, h, Bool.and_eq_true, Bool.not_eq_true',
    Bool.or_eq_true, decide_eq_true_eq, Option.some.injEq] at hg
  obtain ⟨⟨hd, hs⟩, hp⟩ := hg
  refine ⟨hd, hs, ?_⟩
  intro hne c hc
  rcases hp with heq | hne'
  · exact hne heq
  · exact hne' (by rw [hc]; rfl)

theorem Announcing.carried (hi : Announcing a c r s) (hc : Carried a c s t)
    (hf : t.funcs = s.funcs) (hsent : (t.conns c).sent = (s.conns c).sent) :
    Announcing a c r t := by
  intro name f hname hn
  rw [hf] at hname
  rcases hi name f hname hn with hk | ⟨j, x, hj, hx, hp⟩
  · exact Or.inl (hsent ▸ hk)
  · obtain ⟨x', hj', hx'⟩ := hc j x hj
    obtain ⟨hp', hch⟩ := hx' _ hp
    exact Or.inr ⟨j, x', hj', hx.imp id hch, hp'⟩

theorem Carried.of_tasks (ht : t.tasks = s.tasks) : Carried a c s t := by
  intro j x hj
  exact ⟨x, ht ▸ hj, fun p hp => ⟨hp, id⟩⟩

theorem Carried.update (h : s.tasks i = some task)
    (ht : t.tasks = Function.update s.tasks i (some task'))
    (hk : ∀ p, task.OnWay a c p → task'.OnWay a c p) (hc : task'.changes = task.changes) :
    Carried a c s t := by
  intro j x hj
  rw [ht]
  by_cases hij : j = i
  · subst hij
    cases Option.some.inj (h.symm.trans hj)
    exact ⟨task', Function.update_self .., fun p hp => ⟨hk p hp, hc ▸ id⟩⟩
  · exact ⟨x, (Function.update_of_ne hij ..).trans hj, fun p hp => ⟨hp, id⟩⟩

theorem not_onWay (hq : task.queued = []) (hf : task.flushing = []) : ¬ task.OnWay a c p := by
  simp [Task.OnWay, hq, hf]

theorem Carried.of_silent (h : s.tasks i = some task)
    (ht : t.tasks = Function.update s.tasks i (some task')) (hq : task.queued = [])
    (hf : task.flushing = []) : Carried a c s t := by
  intro j x hj
  rw [ht]
  by_cases hij : j = i
  · subst hij
    cases Option.some.inj (h.symm.trans hj)
    exact ⟨task', Function.update_self .., fun p hp => absurd hp (not_onWay hq hf)⟩
  · exact ⟨x, (Function.update_of_ne hij ..).trans hj, fun p hp => ⟨hp, id⟩⟩

theorem Carried.spawn (hn : Named s) (ht : t.tasks = Function.update s.tasks s.ntask (some new)) :
    Carried a c s t := by
  intro j x hj
  have hne : j ≠ s.ntask := Nat.ne_of_lt (hn j x hj)
  exact ⟨x, by rw [ht, Function.update_of_ne hne, hj], fun p hp => ⟨hp, id⟩⟩

theorem Carried.trans {u : St} (h : Carried a c s t) (h' : Carried a c t u) : Carried a c s u := by
  intro j x hj
  obtain ⟨y, hy, hxy⟩ := h j x hj
  obtain ⟨z, hz, hyz⟩ := h' j y hy
  refine ⟨z, hz, ?_⟩
  intro p hp
  obtain ⟨hp', hch⟩ := hxy p hp
  obtain ⟨hp'', hch'⟩ := hyz p hp'
  exact ⟨hp'', fun hx => hch' (hch hx)⟩

theorem Local.keep (hl : Local cfg s task task') (hrw : (s.agents a).rw = some c)
    (hflush : task.atFlush = false) : task.OnWay a c p → task'.OnWay a c p := by
  intro hp
  cases hl with
  | getRW hrw' =>
    rcases onWay_waiting.mp hp with heq | hp
    · cases heq
      cases Option.some.inj (hrw.symm.trans hrw')
      exact onWay_getRW.mpr (Or.inl rfl)
    · exact onWay_getRW.mpr (Or.inr hp)
  | flushFailed => cases hflush
  | _ => exact absurd hp (not_onWay rfl rfl)

theorem Locks.keep (hl : Locks cfg task k task') : task.OnWay a c p → task'.OnWay a c p := by
  intro hp
  cases hl with
  | connect hk => exact absurd hp (not_onWay rfl rfl)
  | write => exact onWay_lock.mpr hp

theorem Unlocks.keep (hl : Unlocks task k task') : task.OnWay a c p → task'.OnWay a c p := by
  intro hp
  cases hl with
  | written => exact onWay_unlock.mp hp
  | _ => exact absurd hp (not_onWay rfl rfl)

theorem not_atFlush (hs : step cfg s act = some t) (h : s.tasks i = some task)
    (ha : act.runner = some i) (hf : ∀ j ok, act ≠ .flush j ok) : task.atFlush = false := by
  cases task with
  | write todo stage next =>
    cases stage with
    | flush c =>
      cases step_runs h ha hs with
      | task hrun => cases todo <;> cases hrun
      | flush hrun => exact absurd rfl (hf _ _)
      | _ => contradiction
    | _ => rfl
  | _ => rfl

theorem setConn_sent {c' : ℕ} {conn : Conn} (ht : t.conns = Function.update s.conns c' conn)
    (h : conn.sent = (s.conns c').sent) (c : ℕ) : (t.conns c).sent = (s.conns c).sent := by
  by_cases hc : c = c'
  · subst hc
    rw [ht, Function.update_self, h]
  · rw [ht, Function.update_of_ne hc]

theorem publish_sent (s : St) (k c c' : ℕ) :
    ((s.publish k c).conns c').sent = (s.conns c').sent := by
  refine setConn_sent rfl ?_ c'
  rfl

theorem shut_sent (s : St) (old : Option ℕ) (c : ℕ) :
    ((s.shut old).conns c).sent = (s.conns c).sent := by
  cases old with
  | none => rfl
  | some c' =>
    refine setConn_sent rfl ?_ c
    rfl

theorem running_of_setFuncs {op : Op} (hmu : s.mutex = none)
    (heq : callStep cfg s i op .lock = some { s.setTask i (.call op (.returned none)) with
      funcs := funcs }) : s.running = false := by
  by_contra hr
  have hr : s.running = true := by simpa using hr
  rcases changeFuncs_running hr (locked_eq_some.mp heq).2 with ⟨err, ht⟩ | ⟨funcs', todo, -, ht⟩
  · have htask := congrFun (congrArg St.tasks ht) i
    simp [St.setTask] at htask
  · have hmutex := congrArg St.mutex ht
    simp [St.setTask, hmu] at hmutex

theorem Announcing.change (hi : Announcing a c r s) (hagent : a < cfg.nagents) {op : Op}
    (h : s.tasks i = some (.call op .lock)) (hch : Changes cfg s op funcs todo)
    (ht : t.tasks = Function.update s.tasks i (some (writes todo (.call op .unlockWorker))))
    (hf : t.funcs = funcs) (hsent : (t.conns c).sent = (s.conns c).sent) :
    Announcing a c r t := by
  -- A new function is on its way to agent `a`; a name that is gone is asked of nobody.
  have hcarried : Carried a c s t := .of_silent h ht rfl rfl
  have hold : ∀ name f, s.funcs.lookup name = some f → Calls.nameable name f = true →
      Known (t.conns c).sent name ∨ ∃ i task, t.tasks i = some task ∧
        (i = r ∨ task.changes = true) ∧ task.OnWay a c (Calls.funcPack name f.timeout) := by
    intro name f hname hn
    have hmid : Announcing a c r { t with funcs := s.funcs } := hi.carried hcarried rfl hsent
    exact hmid name f hname hn
  intro name f hname hn
  rw [hf] at hname
  cases hch with
  | @add funcname g hnew =>
    by_cases hne : name = funcname
    · subst hne
      rw [AList.lookup_insert] at hname
      cases hname
      refine Or.inr ⟨i, _, by rw [ht, Function.update_self], Or.inr (changes_writes _ _), ?_⟩
      exact onWay_writes.mpr (Or.inl (mem_broadcast.mpr ⟨hagent, rfl⟩))
    · rw [AList.lookup_insert_ne hne] at hname
      exact hold name f hname hn
  | @remove funcname =>
    by_cases hne : name = funcname
    · subst hne
      simp at hname
    · rw [AList.lookup_erase_ne hne] at hname
      exact hold name f hname hn

theorem Announcing.sent (hi : Announcing a c r s) (ho : Orderly s) {k' c' : ℕ} {p : OutPack}
    (h : s.tasks i = some (.write ((k', p) :: rest) (.flush c') next))
    (hd : (Task.write ((k', p) :: rest) (.flush c') next).disturbs = false) :
    Announcing a c r ((s.setConnAt c' { s.conns c' with
      sent := (s.conns c').sent ++ [p] }).setTask i (.write ((k', p) :: rest) .unlock next)) := by
  -- What is written on the connection takes no function off the table, and puts the one it is
  -- about on it.
  have hsent : ∀ {name}, Known (s.conns c).sent name → (c = c' → ¬ Erases p name) →
      Known (((s.setConnAt c' { s.conns c' with
        sent := (s.conns c').sent ++ [p] }).conns c).sent) name := by
    intro name hk hp
    by_cases hc : c = c'
    · subst hc
      simp only [St.setConnAt, Function.update_self]
      exact known_append (hp rfl) hk
    · simp only [St.setConnAt, Function.update_of_ne hc]
      exact hk
  intro name f hname hn
  have hkeeps : ¬ Erases p name := by
    intro he
    rcases ho.safe i _ h k' c' p name (onWay_getRW.mpr (Or.inl rfl)) he with hdis | ⟨-, hnone⟩
    · simp [hd] at hdis
    · cases hnone.symm.trans hname
  rcases hi name f hname hn with hk | ⟨j, x, hj, hx, hp⟩
  · exact Or.inl (hsent hk (fun _ => hkeeps))
  · by_cases hij : j = i
    · subst hij
      cases Option.some.inj (h.symm.trans hj)
      rcases onWay_getRW.mp hp with heq | hp
      · -- the packet itself has been written
        simp only [Prod.mk.injEq] at heq
        obtain ⟨rfl, rfl, rfl⟩ := heq
        refine Or.inl ?_
        simp only [St.setTask, St.setConnAt, Function.update_self]
        exact known_funcPack _ hn
      · exact Or.inr ⟨j, _, Function.update_self .., hx, hp⟩
    · exact Or.inr ⟨j, x, (Function.update_of_ne hij ..).trans hj, hx, hp⟩

/-- What a step means for agent `a` and its connection `c` in an undisturbed run: nothing is
lost and nothing is written there, or the functions change, or a packet is written. -/
inductive Passes (cfg : Cfg) (a c : ℕ) (s t : St) : Act → Prop
  | carried {act : Act} (hc : Carried a c s t) (hf : t.funcs = s.funcs)
      (hsent : (t.conns c).sent = (s.conns c).sent) : Passes cfg a c s t act
  | change {i : ℕ} {op : Op} {funcs : JobFuncs} {todo : List (ℕ × OutPack)}
      (h : s.tasks i = some (.call op .lock)) (hmu : s.mutex = none)
      (hch : Changes cfg s op funcs todo)
      (ht : t.tasks = Function.update s.tasks i (some (writes todo (.call op .unlockWorker))))
      (hf : t.funcs = funcs) (hsent : (t.conns c).sent = (s.conns c).sent) :
      Passes cfg a c s t (.task i)
  | sent {i k c' : ℕ} {p : OutPack} {rest : List (ℕ × OutPack)} {next : Task}
      (h : s.tasks i = some (.write ((k, p) :: rest) (.flush c') next))
      (hd : (Task.write ((k, p) :: rest) (.flush c') next).disturbs = false)
      (ht : t = (s.setConnAt c' { s.conns c' with sent := (s.conns c').sent ++ [p] }).setTask i
        (.write ((k, p) :: rest) .unlock next)) : Passes cfg a c s t (.flush i true)

theorem flush_passes {ok : Bool} (hg : undisturbed a r s (.flush i ok) = true)
    (hs : step cfg s (.flush i ok) = some t) : Passes cfg a c s t (.flush i ok) := by
  unfold step at hs
  split_ifs at hs
  obtain ⟨task, h, hs⟩ := Option.bind_eq_some_iff.mp hs
  obtain ⟨hd, hok, -⟩ := undisturbed_runner hg rfl h
  obtain rfl : ok = true := hok
  unfold flushStep at hs
  split at hs
  · rw [if_pos rfl] at hs
    split_ifs at hs
    cases hs
    exact .sent h hd rfl
  · cases hs

theorem step_passes (hn : Named s) (hlt : c < s.nconn) (hrw : (s.agents a).rw = some c)
    (hrun : s.running = true) (hg : undisturbed a r s act = true)
    (hs : step cfg s act = some t) : Passes cfg a c s t act := by
  have silent : ∀ {i : ℕ} {task task' : Task}, s.tasks i = some task →
      t.tasks = Function.update s.tasks i (some task') → Silent task →
      t.funcs = s.funcs → (t.conns c).sent = (s.conns c).sent → Passes cfg a c s t act :=
    fun h ht hsil hf hsent => .carried (.of_silent h ht hsil.queued hsil.flushing) hf hsent
  by_cases hflush : ∃ j ok, act = .flush j ok
  · obtain ⟨j, ok, rfl⟩ := hflush
    exact flush_passes hg hs
  have hnot : ∀ j ok, act ≠ .flush j ok := fun j ok heq => hflush ⟨j, ok, heq⟩
  cases step_move hs with
  | call op hc => exact .carried (.spawn hn rfl) rfl rfl
  | @pc act i task task' h hl ha =>
    have hat : task.atFlush = false := not_atFlush hs h ha hnot
    exact .carried (.update h rfl (fun p => hl.keep hrw hat) hl.changes) rfl rfl
  | lock h hl hfree => exact .carried (.update h rfl (fun p => hl.keep) hl.changes) rfl rfl
  | unlock h hl => exact .carried (.update h rfl (fun p => hl.keep) hl.changes) rfl rfl
  | dial h hd =>
    refine silent h rfl hd.silent.1 rfl ?_
    exact congrArg Conn.sent (Function.update_of_ne (Nat.ne_of_lt hlt) ..)
  | @publish i k c' task task' h hp =>
    exact silent h rfl hp.silent.1 rfl (publish_sent s k c' c)
  | @spawn i task task' new h hs' =>
    have hmid : Carried a c s (s.setTask i task') :=
      .of_silent h rfl hs'.silent.1.queued hs'.silent.1.flushing
    have hnamed : Named (s.setTask i task') :=
      Change.named (t := s.setTask i task') (.one h rfl rfl) hn
    exact .carried (hmid.trans (.spawn hnamed rfl)) rfl rfl
  | @shut i old task task' h hs' =>
    refine silent h (shut_setTask s old i task') hs'.silent.1 ?_ (shut_sent s old c)
    cases old <;> rfl
  | report h hr => exact silent h rfl hr.silent.1 rfl rfl
  | @close i op h hmu hc =>
    have hd := (undisturbed_runner hg rfl h).1
    simp [disturbs_of_close op] at hd
  | @closeAgent i k op h hk =>
    refine silent h (closeAgent_setTask s k i _) ⟨rfl, rfl⟩ ?_ (shut_sent s _ c)
    simp only [St.setTask, St.closeAgent, St.setAgent]
    cases (s.agents k).conn <;> rfl
  | changeFuncs h hmu hr heq =>
    exact .change h hmu (changes_of_eq hmu hr heq) rfl rfl rfl
  | @setFuncs i op pc funcs h hpc hmu heq =>
    rcases hpc with rfl | rfl
    · simp [running_of_setFuncs hmu heq] at hrun
    · have hd := (undisturbed_runner hg rfl h).1
      simp [disturbs_of_clear op] at hd
  | sent h hopen => exact absurd rfl (hnot _ _)
  | read h hw =>
    refine silent h rfl ⟨rfl, rfl⟩ rfl (setConn_sent rfl ?_ c)
    rfl
  | @handoff i j op inpack job drains err v h h' hl =>
    have hne : j ≠ i := by
      rintro rfl
      simp [h] at h'
    have hmid : Carried a c s (s.setTask i (afterLimit op inpack drains)) :=
      .of_silent h rfl rfl rfl
    exact .carried (hmid.trans (.of_silent ((Function.update_of_ne hne ..).trans h') rfl rfl rfl))
      rfl rfl
  | serve hc =>
    refine .carried (.of_tasks rfl) rfl (setConn_sent rfl ?_ c)
    rfl
  | panic h hrw => exact .carried (.of_tasks rfl) rfl rfl
  | setReady h hmu => exact silent h rfl ⟨rfl, rfl⟩ rfl rfl
  | setRunning h hmu => exact silent h rfl ⟨rfl, rfl⟩ rfl rfl
  | closeAgain h hmu hc => exact silent h rfl ⟨rfl, rfl⟩ rfl rfl
  | closeQuit h => exact silent h rfl ⟨rfl, rfl⟩ rfl rfl
  | unlockWorker h => exact silent h rfl ⟨rfl, rfl⟩ rfl rfl
  | send h hfull => exact silent h rfl ⟨rfl, rfl⟩ rfl rfl
  | recv h hpc hin ha => exact silent h rfl ⟨rfl, rfl⟩ rfl rfl
  | token h hl hcap => exact silent h rfl ⟨rfl, rfl⟩ rfl rfl
  | release h hl hpos => exact silent h rfl ⟨rfl, rfl⟩ rfl rfl

theorem Announcing.step (hi : Announcing a c r s) (ho : Orderly s) (hn : Named s)
    (hagent : a < cfg.nagents) (hlt : c < s.nconn) (hrw : (s.agents a).rw = some c)
    (hrun : s.running = true) (hg : undisturbed a r s act = true)
    (hs : Machine.step cfg s act = some t) : Announcing a c r t := by
  cases step_passes hn hlt hrw hrun hg hs with
  | carried hc hf hsent => exact hi.carried hc hf hsent
  | change h hmu hch ht hf hsent => exact hi.change hagent h hch ht hf hsent
  | sent h hd ht =>
    subst ht
    exact hi.sent ho h hd

def Task.resumes : Task → Bool
  | .write _ _ next => next.resumes
  | .call _ (.resume _ _ _) => true
  | .call _ (.returned none) => true
  | _ => false

/-- Where the reconnect `r` of agent `a` is, begun when `n` connections had been dialled. -/
inductive Phase (a r n : ℕ) (s : St) : Task → Prop
  | dialing : Phase a r n s (.call (.reconnect a) (.redial a))
  | failed (err : Err) : Phase a r n s (.call (.reconnect a) (.returned (some err)))
  | dialled {c : ℕ} (hc : n ≤ c) : Phase a r n s (.call (.reconnect a) (.republish a c))
  | published {c epoch : ℕ} (hc : n ≤ c) (hrw : (s.agents a).rw = some c) :
      Phase a r n s (.call (.reconnect a) (.funcOutpacks a epoch c))
  | announcing {c : ℕ} {task : Task} (hc : n ≤ c) (hrw : (s.agents a).rw = some c)
      (ht : task.resumes = true) (hi : Announcing a c r s) : Phase a r n s task

structure Reconnecting (a r n : ℕ) (s : St) : Prop where
  named : Named s
  conns : Conns s
  orderly : Orderly s
  running : s.running = true
  count : n ≤ s.nconn
  phase : ∃ task, s.tasks r = some task ∧ Phase a r n s task

variable {n : ℕ}

theorem Move.nconn_le (hm : Move cfg s act t) : s.nconn ≤ t.nconn := by
  cases hm.effect with
  | steady hf hk => exact hk.nconn.ge
  | dial h hd ht =>
    subst ht
    exact Nat.le_succ _
  | publish h hp ht =>
    subst ht
    exact le_rfl

theorem Move.running (hm : Move cfg s act t) (hg : undisturbed a r s act = true)
    (hrun : s.running = true) : t.running = true := by
  cases hm with
  | @close i op h hmu hc =>
    have hd := (undisturbed_runner hg rfl h).1
    simp [disturbs_of_close op] at hd
  | setRunning h hmu => rfl
  | @shut i old task task' h hs => cases old <;> exact hrun
  | @closeAgent i k op h hk =>
    simp only [St.setTask, St.closeAgent, St.setAgent]
    cases (s.agents k).conn <;> exact hrun
  | _ => exact hrun

theorem Move.rw_eq (hm : Move cfg s act t) (hn : Named s)
    (hp : ∀ i task c, act.runner = some i → s.tasks i = some task → task.dialled ≠ some (a, c)) :
    (t.agents a).rw = (s.agents a).rw := by
  cases hm.effect with
  | steady hf hk => exact hk.rw a
  | dial h hd ht =>
    subst ht
    rfl
  | @publish i k c task task' h hpub ht =>
    obtain ⟨hdialled, hnone, -⟩ := hpub.dialled
    have hrunner : act.runner = some i := by
      by_contra hne
      have hx : ∀ job pc, task ≠ .exec job pc := by
        rintro job pc rfl
        cases hdialled
      have hsame := hm.frame hn h hx hne
      rw [ht] at hsame
      simp only [St.setTask, Function.update_self, Option.some.injEq] at hsame
      rw [hsame, hdialled] at hnone
      cases hnone
    have hk : a ≠ k := by
      rintro rfl
      exact hp i task c hrunner h hdialled
    subst ht
    exact congrArg Agent.rw (publish_of_ne s c hk)

theorem resumes_writes (todo : List (ℕ × OutPack)) (next : Task) :
    (writes todo next).resumes = next.resumes := by
  cases todo <;> rfl

theorem Local.resumes (hl : Local cfg s task task') (hr : task.resumes = true) :
    task'.resumes = true := by
  cases hl with
  | getRW hrw => exact hr
  | flushFailed => exact hr
  | _ => cases hr

theorem Locks.resumes (hl : Locks cfg task k task') (hr : task.resumes = true) :
    task'.resumes = true := by
  cases hl with
  | connect hk => cases hr
  | write => exact hr

theorem Unlocks.resumes (hl : Unlocks task k task') (hr : task.resumes = true) :
    task'.resumes = true := by
  cases hl with
  | written => exact (resumes_writes _ _).trans hr
  | _ => cases hr

theorem Move.resumes (hm : Move cfg s act t) (hn : Named s) (h : s.tasks i = some task)
    (hr : task.resumes = true) : ∃ task', t.tasks i = some task' ∧ task'.resumes = true := by
  have key : ∀ {f : ℕ → Option Task} {j : ℕ} {x x' : Task}, s.tasks j = some x →
      f = Function.update s.tasks j (some x') → (x.resumes = true → x'.resumes = true) →
      ∃ task', f i = some task' ∧ task'.resumes = true := by
    intro f j x x' hj hf hx
    subst hf
    by_cases hij : i = j
    · subst hij
      cases Option.some.inj (h.symm.trans hj)
      exact ⟨x', Function.update_self .., hx hr⟩
    · exact ⟨task, (Function.update_of_ne hij ..).trans h, hr⟩
  have hnew : i ≠ s.ntask := Nat.ne_of_lt (hn i task h)
  cases hm with
  | call op hc => exact ⟨task, (Function.update_of_ne hnew ..).trans h, hr⟩
  | pc hj hl => exact key hj rfl hl.resumes
  | lock hj hl hfree => exact key hj rfl hl.resumes
  | unlock hj hl => exact key hj rfl hl.resumes
  | dial hj hd => exact key hj rfl (fun hx => by cases hd <;> cases hx)
  | publish hj hp => exact key hj rfl (fun hx => by cases hp <;> cases hx)
  | @spawn j x x' new hj hs =>
    have hx' : x.resumes = true → x'.resumes = true := by
      intro hx
      cases hs with
      | reconnect => rfl
      | _ => cases hx
    obtain ⟨task', ht, hr'⟩ := key hj rfl hx'
    exact ⟨task', (Function.update_of_ne hnew ..).trans ht, hr'⟩
  | @shut j old x x' hj hs =>
    exact key hj (shut_setTask s old j x') (fun hx => by cases hs <;> cases hx)
  | report hj hr' => exact key hj rfl (fun hx => by cases hr' <;> cases hx)
  | @closeAgent j k op hj hk => exact key hj (closeAgent_setTask s k j _) (fun hx => by cases hx)
  | setFuncs hj hpc hmu heq => exact key hj rfl (fun _ => rfl)
  | unlockWorker hj => exact key hj rfl (fun _ => rfl)
  | sent hj hopen => exact key hj rfl id
  | @recv act j op pc inpack rest drains hj hpc hin ha =>
    refine key hj rfl (fun hx => ?_)
    subst hpc
    cases drains <;> cases hx
  | @handoff j j' op inpack job drains err v hj hj' hl =>
    have hne : i ≠ j' := by
      rintro rfl
      cases Option.some.inj (h.symm.trans hj')
      cases hr
    have hwrites : (Task.call op (.limit inpack drains)).resumes = true →
        (afterLimit op inpack drains).resumes = true := fun hx => by cases hx
    obtain ⟨task', ht, hr'⟩ := key hj rfl hwrites
    exact ⟨task', (Function.update_of_ne hne ..).trans ht, hr'⟩
  | serve hc => exact ⟨task, h, hr⟩
  | panic hj hrw => exact ⟨task, h, hr⟩
  | setReady hj hmu => exact key hj rfl (fun hx => by cases hx)
  | setRunning hj hmu => exact key hj rfl (fun hx => by cases hx)
  | close hj hmu hc => exact key hj rfl (fun hx => by cases hx)
  | closeAgain hj hmu hc => exact key hj rfl (fun hx => by cases hx)
  | closeQuit hj => exact key hj rfl (fun hx => by cases hx)
  | changeFuncs hj hmu hrun heq => exact key hj rfl (fun hx => by cases hx)
  | read hj hw => exact key hj rfl (fun hx => by cases hx)
  | send hj hfull => exact key hj rfl (fun hx => by cases hx)
  | token hj hl hcap => exact key hj rfl (fun hx => by cases hx)
  | release hj hl hpos => exact key hj rfl (fun hx => by cases hx)

theorem Reconnecting.other (hi : Reconnecting a r n s) (hagent : a < cfg.nagents)
    (hg : undisturbed a r s act = true) (ha : act.runner ≠ some r)
    (hs : step cfg s act = some t) : ∃ task, t.tasks r = some task ∧ Phase a r n t task := by
  have hm : Move cfg s act t := step_move hs
  have hrw : (t.agents a).rw = (s.agents a).rw := by
    refine hm.rw_eq hi.named ?_
    intro i task c hrun h
    have hne : i ≠ r := fun heq => ha (heq ▸ hrun)
    exact (undisturbed_runner hg hrun h).2.2 hne c
  obtain ⟨task, h, hphase⟩ := hi.phase
  have hx : ∀ job pc, task ≠ .exec job pc := by
    rintro job pc rfl
    cases hphase with
    | announcing hc hrw ht hi => cases ht
  refine ⟨task, hm.frame hi.named h hx ha, ?_⟩
  cases hphase with
  | dialing => exact .dialing
  | failed err => exact .failed err
  | dialled hc => exact .dialled hc
  | published hc hcur => exact .published hc (hrw.trans hcur)
  | announcing hc hcur ht han =>
    exact .announcing hc (hrw.trans hcur) ht (han.step hi.orderly hi.named hagent
      (hi.conns.rw a _ hcur).1 hcur hi.running hg hs)

theorem dialled_of_resumes (h : task.resumes = true) : task.dialled = none := by
  induction task with
  | write todo stage next ih => exact ih h
  | call op pc =>
    cases pc with
    | setConn k c funcs => cases h
    | republish a c => cases h
    | _ => rfl
  | loop a epoch c pc => cases h
  | exec inpack pc => cases h

theorem step_call {op : Op} {pc : Pc} (h : s.tasks i = some (.call op pc))
    (ha : act.runner = some i) (hs : step cfg s act = some t) (hsel : pc ≠ .select)
    (hlim : ∀ inpack drains, pc ≠ .limit inpack drains) :
    callStep cfg s i op pc = some t ∨ (∃ err, dialStep s i (.call op pc) err = some t) ∨
      ∃ order, rangeStep cfg s i order (.call op pc) = some t := by
  cases step_runs h ha hs with
  | task hrun => exact Or.inl hrun
  | dial hrun => exact Or.inr (Or.inl ⟨_, hrun⟩)
  | range hrun => exact Or.inr (Or.inr ⟨_, hrun⟩)
  | recv hrun => cases pc <;> first | exact absurd rfl hsel | cases hrun
  | quit hrun => cases pc <;> first | exact absurd rfl hsel | cases hrun
  | handoff hj hrun => cases pc <;> first | exact absurd rfl (hlim _ _) | cases hrun
  | _ => contradiction

theorem Reconnecting.own (hi : Reconnecting a r n s) (hagent : a < cfg.nagents)
    (hg : undisturbed a r s act = true) (ha : act.runner = some r)
    (hs : step cfg s act = some t) : ∃ task, t.tasks r = some task ∧ Phase a r n t task := by
  obtain ⟨task, h, hphase⟩ := hi.phase
  cases hphase with
  | dialing =>
    rcases step_call h ha hs (by simp) (by simp) with hc | ⟨err, hd⟩ | ⟨order, hr⟩
    · cases hc
    · cases err with
      | none =>
        cases hd
        exact ⟨_, Function.update_self .., .dialled hi.count⟩
      | some err =>
        cases hd
        exact ⟨_, Function.update_self .., .failed err⟩
    · cases hr
  | failed err =>
    rcases step_call h ha hs (by simp) (by simp) with hc | ⟨err, hd⟩ | ⟨order, hr⟩
    · cases hc
    · cases err <;> cases hd
    · cases hr
  | @dialled c hc =>
    rcases step_call h ha hs (by simp) (by simp) with hc' | ⟨err, hd⟩ | ⟨order, hr⟩
    · cases hc'
      refine ⟨_, Function.update_self .., .published hc ?_⟩
      simp only [St.setTask, publish_self]
    · cases err <;> cases hd
    · cases hr
  | @published c epoch hc hcur =>
    rcases step_call h ha hs (by simp) (by simp) with hc' | ⟨err, hd⟩ | ⟨order, hr⟩
    · cases hc'
    · cases err <;> cases hd
    · -- the snapshot: every function is queued for the agent
      obtain ⟨outpacks, ho, rfl⟩ := Option.map_eq_some_iff.mp (locked_eq_some.mp hr).2
      refine ⟨_, Function.update_self .., .announcing hc hcur (resumes_writes _ _) ?_⟩
      intro name f hname _
      refine Or.inr ⟨r, _, Function.update_self .., Or.inl rfl, onWay_writes.mpr (Or.inl ?_)⟩
      refine List.mem_append_left _ (List.mem_map.mpr ⟨_, ?_, rfl⟩)
      exact (mem_funcOutpacks ho).mpr ⟨name, f, hname, rfl⟩
  | announcing hc hcur ht han =>
    have hm : Move cfg s act t := step_move hs
    obtain ⟨task', h', ht'⟩ := hm.resumes hi.named h ht
    have hrw : (t.agents a).rw = (s.agents a).rw := by
      refine hm.rw_eq hi.named ?_
      intro i x c hrun hx hd
      cases Option.some.inj (ha.symm.trans hrun)
      cases Option.some.inj (h.symm.trans hx)
      simp [dialled_of_resumes ht] at hd
    exact ⟨task', h', .announcing hc (hrw.trans hcur) ht' (han.step hi.orderly hi.named hagent
      (hi.conns.rw a _ hcur).1 hcur hi.running hg hs)⟩

theorem Reconnecting.step (hi : Reconnecting a r n s) (hagent : a < cfg.nagents)
    (hg : undisturbed a r s act = true) (hs : Machine.step cfg s act = some t) :
    Reconnecting a r n t := by
  have hm : Move cfg s act t := step_move hs
  refine ⟨hi.named.move hm, hi.conns.move hm, hi.orderly.move hm, hm.running hg hi.running,
    hi.count.trans hm.nconn_le, ?_⟩
  by_cases ha : act.runner = some r
  · exact hi.own hagent hg ha hs
  · exact hi.other hagent hg ha hs

def Pc.isReturned : Pc → Bool
  | .returned _ => true
  | _ => false

def Task.changing : Task → Bool
  | .write _ _ next => next.changing
  | .call (.addFunc _ _) pc => !pc.isReturned
  | .call (.removeFunc _) pc => !pc.isReturned
  | .call _ .unlockWorker => true
  | _ => false

theorem changing_of_changes (h : task.changes = true) : task.changing = true := by
  induction task with
  | write todo stage next ih => exact ih h
  | call op pc =>
    cases pc with
    | unlockWorker => cases op <;> rfl
    | _ => cases h
  | loop a epoch c pc => cases h
  | exec inpack pc => cases h

/-- When a reconnect of a running worker has returned, and the calls to `AddFunc` and
`RemoveFunc` beside it have too, the server knows every function of the worker on the new
connection; a name that is announced with a timeout must not hold a NUL byte. -/
theorem reconnect_announces (cfg : Cfg) (a r : ℕ) (hagent : a < cfg.nagents) (s t : St)
    (hs : Reachable (step cfg) always {} s) (hrun : s.running = true)
    (hr : s.tasks r = some (.call (.reconnect a) (.redial a)))
    (ht : Reachable (step cfg) (undisturbed a r) s t)
    (hret : t.tasks r = some (.call (.reconnect a) (.returned none)))
    (hcalls : anyTask t Task.changing = false) :
    ∃ c, s.nconn ≤ c ∧ (t.agents a).rw = some c ∧
      ∀ name f, t.funcs.lookup name = some f → Calls.nameable name f = true →
        Known (t.conns c).sent name := by
  have hstart : Named s ∧ Conns s ∧ Orderly s :=
    hs.invariant (I := fun u => Named u ∧ Conns u ∧ Orderly u)
      ⟨named_start, conns_start, orderly_start⟩
      (fun _ _ _ hu _ h => ⟨hu.1.move (step_move h), hu.2.1.move (step_move h),
        hu.2.2.move (step_move h)⟩)
  have hi : Reconnecting a r s.nconn t := by
    refine ht.invariant (I := Reconnecting a r s.nconn) ?_
      (fun _ _ _ hu hg h => hu.step hagent hg h)
    exact ⟨hstart.1, hstart.2.1, hstart.2.2, hrun, le_rfl, _, hr, .dialing⟩
  obtain ⟨task, h, hphase⟩ := hi.phase
  cases Option.some.inj (hret.symm.trans h)
  cases hphase with
  | @announcing c _ hc hcur _ han =>
    refine ⟨c, hc, hcur, ?_⟩
    intro name f hname hn
    rcases han name f hname hn with hk | ⟨j, x, hj, hx, hp⟩
    · exact hk
    · rcases hx with rfl | hx
      · cases Option.some.inj (hret.symm.trans hj)
        exact absurd hp (not_onWay rfl rfl)
      · have hany : anyTask t Task.changing = true := by
          simp only [anyTask, List.any_eq_true, List.mem_range, Option.any_eq_true]
          exact ⟨j, hi.named j x hj, x, hj, changing_of_changes hx⟩
        simp [hcalls] at hany

def droppedActs : List Act :=
  brokenActs (.read .eof) ++ [.task 2, .task 2, .task 2, .call (.reconnect 0)]

def writeActs (i : ℕ) : List Act := [.task i, .task i, .flush i true, .task i]

/-- `AddFunc` comes between the publication and the snapshot. -/
def reconnectActs (funcname : Bytes) : List Act :=
  [.dial 3 none, .task 3, .call (.addFunc funcname ⟨fun _ => .returned [] none, 5⟩), .task 4] ++
    writeActs 4 ++ [.task 4, .range 3 [funcname, [102]]] ++
    writeActs 3 ++ writeActs 3 ++ writeActs 3 ++ [.task 3]

theorem reconnect_announces_both :
    ∃ s t, run (step oneAgent) always {} droppedActs = some s ∧
      run (step oneAgent) (undisturbed 0 3) s (reconnectActs [103]) = some t ∧
      t.funcs.keys = [[103], [102]] ∧ Known (t.conns 1).sent [103] ∧
      Known (t.conns 1).sent [102] := by
  obtain ⟨s, t, hs, hrun, hr, ht, hret, hcalls, hkeys, hrw, hg, hf⟩ :
      ∃ s t, run (step oneAgent) always {} droppedActs = some s ∧ s.running = true ∧
        s.tasks 3 = some (.call (.reconnect 0) (.redial 0)) ∧
        run (step oneAgent) (undisturbed 0 3) s (reconnectActs [103]) = some t ∧
        t.tasks 3 = some (.call (.reconnect 0) (.returned none)) ∧
        anyTask t Task.changing = false ∧ t.funcs.keys = [[103], [102]] ∧
        (t.agents 0).rw = some 1 ∧
        t.funcs.lookup [103] = some ⟨fun _ => .returned [] none, 5⟩ ∧
        t.funcs.lookup [102] = some ⟨fun _ => .returned [] none, 0⟩ :=
    ⟨_, _, rfl, rfl, rfl, rfl, rfl, rfl, rfl, rfl, rfl, rfl⟩
  obtain ⟨c, -, hc, hknown⟩ := reconnect_announces oneAgent 0 3 Nat.zero_lt_one s t
    ⟨droppedActs, hs⟩ hrun hr ⟨reconnectActs [103], ht⟩ hret hcalls
  cases Option.some.inj (hrw.symm.trans hc)
  exact ⟨s, t, hs, ht, hkeys, hknown [103] _ hg rfl, hknown [102] _ hf rfl⟩

/-- A NUL byte in the name ends it for the server when a timeout follows. -/
theorem unknown_after_reconnect :
    ∃ s t, run (step oneAgent) always {} droppedActs = some s ∧ s.running = true ∧
      s.tasks 3 = some (.call (.reconnect 0) (.redial 0)) ∧
      run (step oneAgent) (undisturbed 0 3) s (reconnectActs [97, 0, 98]) = some t ∧
      t.tasks 3 = some (.call (.reconnect 0) (.returned none)) ∧
      anyTask t Task.changing = false ∧ (t.agents 0).rw = some 1 ∧
      t.funcs.keys = [[97, 0, 98], [102]] ∧
      (t.conns 1).sent = [Calls.funcPack [97, 0, 98] 5, Calls.funcPack [97, 0, 98] 5,
        Calls.funcPack [102] 0, grabPack] ∧
      ¬ Known (t.conns 1).sent [97, 0, 98] := by
  obtain ⟨s, t, hs, hrun, hr, ht, hret, hcalls, hrw, hkeys, hsent⟩ :
      ∃ s t, run (step oneAgent) always {} droppedActs = some s ∧ s.running = true ∧
        s.tasks 3 = some (.call (.reconnect 0) (.redial 0)) ∧
        run (step oneAgent) (undisturbed 0 3) s (reconnectActs [97, 0, 98]) = some t ∧
        t.tasks 3 = some (.call (.reconnect 0) (.returned none)) ∧
        anyTask t Task.changing = false ∧ (t.agents 0).rw = some 1 ∧
        t.funcs.keys = [[97, 0, 98], [102]] ∧
        (t.conns 1).sent = [Calls.funcPack [97, 0, 98] 5, Calls.funcPack [97, 0, 98] 5,
          Calls.funcPack [102] 0, grabPack] :=
    ⟨_, _, rfl, rfl, rfl, rfl, rfl, rfl, rfl, rfl, rfl⟩
  refine ⟨s, t, hs, hrun, hr, ht, hret, hcalls, hrw, hkeys, hsent, ?_⟩
  rw [hsent]
  unfold Known
  decide

end Gearman.Worker.Machine
