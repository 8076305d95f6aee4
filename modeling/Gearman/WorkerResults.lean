import Gearman.WorkerGhosts
import Gearman.WorkerLimit

/-!
# The results of a worker and the jobs it was assigned

A JOB_ASSIGN that a loop has read goes through `in` to `handleInPack`, which starts one
`exec` for it, which writes one result at most, to the agent the job came from and
with the handle of the job. What is sent, what a task is about to send or to pass on and
what is queued add up to no more than the jobs that were read. The result may go out on a
later connection of the agent than the one the job came in on.
-/

namespace Gearman.Worker.Machine
open Bytes Transition Tally

def aimedAt (k : ℕ) (handle : Bytes) (inpack : InPack) : Bool :=
  inpack.a = some k && inpack.handle = handle

def jobFor (k : ℕ) (handle : Bytes) (inpack : InPack) : Bool :=
  Exec.isJob inpack && aimedAt k handle inpack

def assigns (k : ℕ) (handle : Bytes) (w : ℕ × Bytes) : Bool :=
  match decodeInPack w.2 with
  | some (.ok (inpack, _)) => jobFor k handle { inpack with a := some w.1 }
  | _ => false

def resultOf (handle : Bytes) (p : OutPack) : Bool := isTerminal p && p.handle = handle

def resultFor (k : ℕ) (handle : Bytes) (w : ℕ × OutPack) : Bool :=
  w.1 = k && resultOf handle w.2

def Stage.unsent (todo : List (ℕ × OutPack)) : Stage → List (ℕ × OutPack)
  | .unlock => todo.tail
  | _ => todo

/-- The results for agent `k` and the handle that may still come of the task. -/
def Task.owes (k : ℕ) (handle : Bytes) : Task → ℕ
  | .write todo stage next =>
    (stage.unsent todo).countP (resultFor k handle) + next.owes k handle
  | .call _ (.handle inpack _) => (jobFor k handle inpack).toNat
  | .loop a _ _ (.check (.ok data)) => (assigns k handle (a, data)).toNat
  | .loop _ _ _ (.forward inpack) => (jobFor k handle inpack).toNat
  | .exec inpack .lookup => (aimedAt k handle inpack).toNat
  | .exec inpack (.call _) => (aimedAt k handle inpack).toNat
  | .exec inpack (.running _) => (aimedAt k handle inpack).toNat
  | _ => 0

def Conn.results (k : ℕ) (handle : Bytes) (conn : Conn) : ℕ :=
  if conn.agent = k then conn.sent.countP (resultOf handle) else 0

def St.results (s : St) (k : ℕ) (handle : Bytes) : ℕ :=
  tally (Conn.results k handle) (fun c => some (s.conns c)) s.nconn

def St.due (s : St) (k : ℕ) (handle : Bytes) : ℕ :=
  s.results k handle + s.total (Task.owes k handle) + s.inChan.countP (jobFor k handle)

/-- The packets the loops have read, each with its agent. -/
def noteRead (log : List (ℕ × Bytes)) (s : St) (act : Act) (_ : St) : List (ℕ × Bytes) :=
  match act with
  | .read i none =>
    match s.tasks i with
    | some (.loop a _ c .read) => log ++ ((s.conns c).wire.take 1).map (fun data => (a, data))
    | _ => log
  | _ => log

variable {cfg : Cfg} {s t : St} {act : Act} {i k c : ℕ} {handle : Bytes}
variable {task task' new next : Task} {todo rest : List (ℕ × OutPack)} {inpack : InPack}

theorem owes_writes (k : ℕ) (handle : Bytes) (todo : List (ℕ × OutPack)) (next : Task) :
    (writes todo next).owes k handle =
      todo.countP (resultFor k handle) + next.owes k handle := by
  cases todo with
  | nil => exact (Nat.zero_add _).symm
  | cons w rest => rfl

theorem owes_back (k : ℕ) (handle : Bytes) (op : Op) (drains : Bool) :
    (back op drains).owes k handle = 0 := by
  cases drains <;> rfl

def Settles (task task' : Task) : Prop := ∀ k handle, task'.owes k handle ≤ task.owes k handle

theorem countP_resultFor_eq_zero (h : ∀ w ∈ todo, isTerminal w.2 = false) (k : ℕ)
    (handle : Bytes) : todo.countP (resultFor k handle) = 0 := by
  rw [List.countP_eq_zero]
  intro w hw
  simp [resultFor, resultOf, h w hw]

theorem owes_writes_silent (h : ∀ w ∈ todo, isTerminal w.2 = false) (k : ℕ) (handle : Bytes) :
    (writes todo next).owes k handle = next.owes k handle := by
  rw [owes_writes, countP_resultFor_eq_zero h, Nat.zero_add]

theorem terminal_broadcast {outpack : OutPack} (h : isTerminal outpack = false) :
    ∀ w ∈ broadcast cfg outpack, isTerminal w.2 = false := by
  rintro ⟨k, p⟩ hw
  cases (mem_broadcast.mp hw).2
  exact h

theorem terminal_tells (inpack : InPack) (updates : List Update) :
    ∀ w ∈ tells inpack updates, isTerminal w.2 = false := by
  rintro ⟨k, p⟩ hw
  obtain ⟨-, u, -, rfl⟩ := mem_tells hw
  exact u.isTerminal_pack inpack

theorem terminal_toAgent {outpack : OutPack} (h : isTerminal outpack = false) :
    ∀ w ∈ toAgent inpack outpack, isTerminal w.2 = false := by
  rintro ⟨k, p⟩ hw
  cases mem_toAgent hw
  exact h

theorem terminal_outpack {funcs : JobFuncs} {order : List Bytes} {outpacks : List OutPack}
    {outpack : OutPack} (ho : funcOutpacks funcs order = some outpacks) (h : outpack ∈ outpacks) :
    isTerminal outpack = false := by
  obtain ⟨name, f, -, rfl⟩ := (mem_funcOutpacks ho).mp h
  rcases funcPack_type name f.timeout with h | h <;> simp only [isTerminal, h] <;> decide

theorem Changes.silent {op : Op} {funcs : JobFuncs} (hc : Changes cfg s op funcs todo) :
    ∀ w ∈ todo, isTerminal w.2 = false := by
  cases hc with
  | @add funcname f hf =>
    refine terminal_broadcast ?_
    rcases funcPack_type funcname f.timeout with h | h <;> simp only [isTerminal, h] <;> decide
  | remove => exact terminal_broadcast rfl

theorem assigns_of_decode {a n : ℕ} {data : Bytes}
    (hd : decodeInPack data = some (.ok (inpack, n))) :
    assigns k handle (a, data) = jobFor k handle { inpack with a := some a } := by
  simp only [assigns, hd]

theorem Settles.of_zero (h : ∀ k handle, task'.owes k handle = 0) : Settles task task' :=
  fun k handle => (h k handle).trans_le (Nat.zero_le _)

theorem Settles.back (op : Op) (drains : Bool) : Settles task (back op drains) :=
  .of_zero (fun k handle => owes_back k handle op drains)

theorem Settles.writes (h : ∀ w ∈ todo, isTerminal w.2 = false) (hn : Settles task next) :
    Settles task (writes todo next) := by
  intro k handle
  rw [owes_writes_silent h]
  exact hn k handle

theorem Settles.answer (s : St) (inpack : InPack) (r : Result) :
    Settles (.exec inpack (.running r)) (answer s inpack r) := by
  intro k handle
  unfold Machine.answer
  split_ifs
  · rw [owes_writes]
    cases ha : inpack.a with
    | none => simp [toAgent, ha, Task.owes]
    | some a =>
      simp only [toAgent, ha, Option.toList_some, List.map_cons, List.map_nil,
        List.countP_singleton, Task.owes, Nat.add_zero]
      have hres : resultFor k handle (a, resultPack inpack r) = aimedAt k handle inpack := by
        simp [resultFor, resultOf, aimedAt, ha,
          show (resultPack inpack r).handle = inpack.handle from rfl]
      rw [hres]
      cases aimedAt k handle inpack <;> rfl
  · exact Nat.zero_le _

theorem Local.settles (hl : Local cfg s task task') : Settles task task' := by
  cases hl with
  | ready => split_ifs <;> exact .of_zero (fun _ _ => rfl)
  | snapshot hmu => split_ifs <;> exact .of_zero (fun _ _ => rfl)
  | getConn => split_ifs <;> exact .of_zero (fun _ _ => rfl)
  | isReady hmu => split_ifs <;> exact .of_zero (fun _ _ => rfl)
  | announce hk ho =>
    refine .writes ?_ (.of_zero (fun _ _ => rfl))
    intro w hw
    obtain ⟨outpack, hout, hw⟩ := List.mem_flatMap.mp hw
    exact terminal_broadcast (terminal_outpack ho hout) w hw
  | noJob ht => exact .writes (terminal_toAgent (by decide)) (.back _ _)
  | noop ht => exact .writes (terminal_toAgent (by decide)) (.back _ _)
  | unlimited hl => exact .writes (terminal_toAgent (by decide)) (.back _ _)
  | reannounce hmu ho =>
    refine .writes ?_ (.of_zero (fun _ _ => rfl))
    intro w hw
    rcases List.mem_append.mp hw with hw | hw
    · obtain ⟨outpack, hout, rfl⟩ := List.mem_map.mp hw
      exact terminal_outpack ho hout
    · cases List.mem_singleton.mp hw
      rfl
  | getRW hrw => exact fun _ _ => le_rfl
  | flushFailed =>
    intro k handle
    simp only [Task.owes, Stage.unsent]
    exact Nat.add_le_add_right (List.Sublist.countP_le (List.tail_sublist _)) _
  | react he =>
    unfold reaction
    split <;> exact .of_zero (fun _ _ => rfl)
  | decoded he hd =>
    intro k handle
    simp only [Task.owes, assigns_of_decode hd]
    exact le_rfl
  | disconnect => split_ifs <;> exact .of_zero (fun _ _ => rfl)
  | lookup hmu =>
    intro k handle
    unfold Machine.lookup
    split
    · exact Nat.zero_le _
    · exact le_rfl
  | timedOut ht => exact fun _ _ => le_rfl
  | finished hf => exact fun _ _ => le_rfl
  | answer hmu => exact .answer s _ _
  | _ => exact .of_zero (fun _ _ => rfl)

theorem Locks.settles (hl : Locks cfg task k task') : Settles task task' := by
  cases hl with
  | connect hk => exact .of_zero (fun _ _ => rfl)
  | write => exact fun _ _ => le_rfl

theorem Unlocks.settles (hl : Unlocks task k task') : Settles task task' := by
  cases hl with
  | written =>
    intro k handle
    rw [owes_writes]
    exact le_rfl
  | _ => exact .of_zero (fun _ _ => rfl)

theorem Dials.settles (hd : Dials c task k task') : Settles task task' := by
  cases hd <;> exact .of_zero (fun _ _ => rfl)

theorem Publishes.settles {e : ℕ} (hp : Publishes e task k c task') : Settles task task' := by
  cases hp <;> exact .of_zero (fun _ _ => rfl)

theorem Shuts.settles {old : Option ℕ} (hs : Shuts task old task') : Settles task task' := by
  cases hs <;> exact .of_zero (fun _ _ => rfl)

theorem Reports.settles {rs : List Report} (hr : Reports cfg s task rs task') :
    Settles task task' := by
  cases hr with
  | serverErr ht => exact .back _ _
  | custome ht hj => exact .back _ _
  | _ => exact .of_zero (fun _ _ => rfl)

theorem Spawns.settles (hs : Spawns task task' new) (k : ℕ) (handle : Bytes) :
    task'.owes k handle + new.owes k handle ≤ task.owes k handle := by
  cases hs with
  | job hj =>
    simp only [Task.owes, jobFor, hj, Bool.true_and, Nat.zero_add]
    exact le_rfl
  | _ => exact Nat.zero_le _

theorem owes_entry (k : ℕ) (handle : Bytes) (op : Op) : (entry cfg op).owes k handle = 0 := by
  cases op with
  | reset => exact owes_writes_silent (terminal_broadcast (by decide)) _ _
  | echo data => exact owes_writes_silent (terminal_broadcast rfl) _ _
  | setId id => exact owes_writes_silent (terminal_broadcast rfl) _ _
  | progress inpack updates => exact owes_writes_silent (terminal_tells inpack updates) _ _
  | _ => rfl

structure SameResults (s t : St) : Prop where
  nconn : t.nconn = s.nconn
  agent : ∀ c, (t.conns c).agent = (s.conns c).agent
  sent : ∀ c, (t.conns c).sent = (s.conns c).sent
  inChan : t.inChan = s.inChan

theorem SameResults.of_eq (hn : t.nconn = s.nconn) (hc : t.conns = s.conns)
    (hin : t.inChan = s.inChan) : SameResults s t :=
  ⟨hn, fun c => by rw [hc], fun c => by rw [hc], hin⟩

theorem SameResults.setConnAt {conn : Conn} (hn : t.nconn = s.nconn)
    (hc : t.conns = Function.update s.conns c conn) (hin : t.inChan = s.inChan)
    (hag : conn.agent = (s.conns c).agent) (hsent : conn.sent = (s.conns c).sent) :
    SameResults s t := by
  have key : ∀ c', (t.conns c').agent = (s.conns c').agent ∧
      (t.conns c').sent = (s.conns c').sent := by
    intro c'
    by_cases hcc : c' = c
    · subst hcc
      rw [hc, Function.update_self]
      exact ⟨hag, hsent⟩
    · rw [hc, Function.update_of_ne hcc]
      exact ⟨rfl, rfl⟩
  exact ⟨hn, fun c' => (key c').1, fun c' => (key c').2, hin⟩

theorem SameResults.results (h : SameResults s t) (k : ℕ) (handle : Bytes) :
    t.results k handle = s.results k handle := by
  rw [St.results, St.results, h.nconn]
  refine Finset.sum_congr rfl (fun c _ => ?_)
  simp only [Option.elim_some, Conn.results, h.agent c, h.sent c]

theorem SameResults.shut (s : St) (old : Option ℕ) : SameResults s (s.shut old) := by
  cases old with
  | none => exact .of_eq rfl rfl rfl
  | some c => exact .setConnAt rfl rfl rfl rfl rfl

theorem due_same (hr : SameResults s t) (ht : t.tasks = s.tasks) (hnt : t.ntask = s.ntask) :
    t.due k handle = s.due k handle := by
  rw [St.due, St.due, hr.results, hr.inChan, St.total, St.total, ht, hnt]

theorem due_one (hn : Named s) (hr : SameResults s t) (h : s.tasks i = some task)
    (ht : t.tasks = Function.update s.tasks i (some task')) (hnt : t.ntask = s.ntask)
    (hp : Settles task task') (k : ℕ) (handle : Bytes) : t.due k handle ≤ s.due k handle := by
  have htotal := total_update (w := Task.owes k handle) hn h ht hnt
  have hres := hr.results k handle
  have hle := hp k handle
  simp only [St.due, hr.inChan]
  omega

theorem due_new (hr : SameResults s t)
    (ht : t.tasks = Function.update s.tasks s.ntask (some new)) (hnt : t.ntask = s.ntask + 1)
    (hz : new.owes k handle = 0) : t.due k handle ≤ s.due k handle := by
  have htotal := total_new (w := Task.owes k handle) ht hnt
  have hres := hr.results k handle
  simp only [St.due, hr.inChan]
  omega

theorem due_spawn (hn : Named s) (h : s.tasks i = some task) (hs : Spawns task task' new)
    (k : ℕ) (handle : Bytes) :
    ((s.setTask i task').spawn new).due k handle ≤ s.due k handle := by
  have htotal := total_spawn (w := Task.owes k handle) (t := (s.setTask i task').spawn new) hn h
    rfl rfl
  have hres := (SameResults.of_eq (s := s) (t := (s.setTask i task').spawn new) rfl rfl rfl).results
    k handle
  have hle := hs.settles k handle
  have hin : ((s.setTask i task').spawn new).inChan = s.inChan := rfl
  simp only [St.due, hin]
  omega

theorem due_dial (hn : Named s) (h : s.tasks i = some task) (hd : Dials s.nconn task k task')
    (k' : ℕ) (handle : Bytes) :
    ((s.dialled k).setTask i task').due k' handle ≤ s.due k' handle := by
  have htotal := total_update (w := Task.owes k' handle) (t := (s.dialled k).setTask i task') hn h
    rfl rfl
  have hle := hd.settles k' handle
  have hconns : (fun c => some (((s.dialled k).setTask i task').conns c)) =
      Function.update (fun c => some (s.conns c)) s.nconn (some { agent := k }) :=
    Function.comp_update some s.conns s.nconn { agent := k }
  have hres : ((s.dialled k).setTask i task').results k' handle = s.results k' handle := by
    rw [St.results, hconns]
    refine (tally_spawn (w := Conn.results k' handle)).trans ?_
    simp [St.results, Conn.results]
  have hin : ((s.dialled k).setTask i task').inChan = s.inChan := rfl
  simp only [St.due, hin]
  omega

theorem due_sent (hn : Named s) (hc : Conns s) (hsp : Spoken s) {k' : ℕ} {p : OutPack}
    (h : s.tasks i = some (.write ((k', p) :: rest) (.flush c) next)) (k : ℕ) (handle : Bytes) :
    ((s.setConnAt c { s.conns c with sent := (s.conns c).sent ++ [p] }).setTask i
      (.write ((k', p) :: rest) .unlock next)).due k handle ≤ s.due k handle := by
  let t := (s.setConnAt c { s.conns c with sent := (s.conns c).sent ++ [p] }).setTask i
    (.write ((k', p) :: rest) .unlock next)
  obtain ⟨hpub, hag⟩ := hsp.bound i _ k' c p h (by simp [Task.Pending, Task.flushing,
    Stage.flushing])
  have hlt : c < s.nconn := by
    by_contra hge
    simp [hc.unused c (Nat.le_of_not_lt hge)] at hpub
  have htotal := total_update (w := Task.owes k handle) (t := t) hn h rfl rfl
  have hconns : (fun c => some (t.conns c)) = Function.update (fun c => some (s.conns c)) c
      (some { s.conns c with sent := (s.conns c).sent ++ [p] }) := Function.comp_update some ..
  have hres : t.results k handle + (s.conns c).results k handle = s.results k handle +
      Conn.results k handle { s.conns c with sent := (s.conns c).sent ++ [p] } := by
    rw [St.results, hconns]
    exact tally_update hlt rfl
  have hmore : Conn.results k handle { s.conns c with sent := (s.conns c).sent ++ [p] } =
      (s.conns c).results k handle + (resultFor k handle (k', p)).toNat := by
    simp only [Conn.results, hag, resultFor, List.countP_append, List.countP_singleton]
    by_cases hk : k' = k
    · cases resultOf handle p <;> simp [hk]
    · simp [hk]
  have howes : (Task.write ((k', p) :: rest) (.flush c) next).owes k handle =
      (Task.write ((k', p) :: rest) .unlock next).owes k handle +
        (resultFor k handle (k', p)).toNat := by
    simp only [Task.owes, Stage.unsent, List.tail_cons, List.countP_cons]
    cases resultFor k handle (k', p) with
    | false => simp
    | true =>
      simp only [if_true, Bool.toNat_true]
      omega
  have hin : t.inChan = s.inChan := rfl
  change t.due k handle ≤ s.due k handle
  simp only [St.due, hin]
  omega

theorem due_send (hn : Named s) {a epoch : ℕ}
    (h : s.tasks i = some (.loop a epoch c (.forward inpack))) (k : ℕ) (handle : Bytes) :
    St.due { s.setTask i (.loop a epoch c .read) with inChan := s.inChan ++ [inpack] } k handle ≤
      s.due k handle := by
  let t : St := { s.setTask i (.loop a epoch c .read) with inChan := s.inChan ++ [inpack] }
  have htotal := total_update (w := Task.owes k handle) (t := t) hn h rfl rfl
  have hres : t.results k handle = s.results k handle := rfl
  have hcount : t.inChan.countP (jobFor k handle) =
      s.inChan.countP (jobFor k handle) + (jobFor k handle inpack).toNat := by
    simp only [t, List.countP_append, List.countP_singleton]
    cases jobFor k handle inpack <;> rfl
  change t.due k handle ≤ s.due k handle
  simp only [St.due, Task.owes] at htotal ⊢
  omega

theorem due_recv (hn : Named s) {op : Op} {pc : Pc} {drains : Bool} {queue : List InPack}
    (h : s.tasks i = some (.call op pc)) (hin : s.inChan = inpack :: queue) (k : ℕ)
    (handle : Bytes) :
    St.due { s.setTask i (.call op (.handle inpack drains)) with inChan := queue } k handle ≤
      s.due k handle := by
  let t : St := { s.setTask i (.call op (.handle inpack drains)) with inChan := queue }
  have htotal := total_update (w := Task.owes k handle) (t := t) hn h rfl rfl
  have hres : t.results k handle = s.results k handle := rfl
  have hcount : s.inChan.countP (jobFor k handle) =
      t.inChan.countP (jobFor k handle) + (jobFor k handle inpack).toNat := by
    rw [hin, List.countP_cons]
    cases jobFor k handle inpack <;> rfl
  have howes : (Task.call op (.handle inpack drains)).owes k handle =
      (jobFor k handle inpack).toNat := rfl
  change t.due k handle ≤ s.due k handle
  simp only [St.due]
  omega

theorem due_read (hn : Named s) {a epoch : ℕ} {data : Bytes} {wire : List Bytes}
    (h : s.tasks i = some (.loop a epoch c .read)) (k : ℕ) (handle : Bytes) :
    ((s.setConnAt c { s.conns c with wire }).setTask i
      (.loop a epoch c (.check (.ok data)))).due k handle ≤
      s.due k handle + (assigns k handle (a, data)).toNat := by
  let t := (s.setConnAt c { s.conns c with wire }).setTask i (.loop a epoch c (.check (.ok data)))
  have htotal := total_update (w := Task.owes k handle) (t := t) hn h rfl rfl
  have hsame : SameResults s t := .setConnAt rfl rfl rfl rfl rfl
  have hres := hsame.results k handle
  have hin : t.inChan = s.inChan := rfl
  change t.due k handle ≤ _
  simp only [St.due, Task.owes, hin] at htotal ⊢
  omega

theorem due_handoff (hn : Named s) {j : ℕ} {op : Op} {job : InPack} {drains : Bool}
    {err : Option Err} {v : Option PanicValue}
    (h : s.tasks i = some (.call op (.limit inpack drains)))
    (h' : s.tasks j = some (.exec job (.deferred err v))) (k : ℕ) (handle : Bytes) :
    ((s.setTask i (afterLimit op inpack drains)).setTask j
      (.exec job (.report (Exec.recovered err v)))).due k handle ≤ s.due k handle := by
  have hne : j ≠ i := by
    rintro rfl
    simp [h] at h'
  let u := s.setTask i (afterLimit op inpack drains)
  have hu : u.due k handle ≤ s.due k handle :=
    due_one (t := u) hn (.of_eq rfl rfl rfl) h rfl rfl
      (.writes (terminal_toAgent (by decide)) (.back _ _)) k handle
  have hj : u.tasks j = some (.exec job (.deferred err v)) :=
    (Function.update_of_ne hne ..).trans h'
  let t := u.setTask j (.exec job (.report (Exec.recovered err v)))
  have hnu : Named u := (Change.one (t := u) h rfl rfl).named hn
  have hpays : Settles (.exec job (.deferred err v))
      (.exec job (.report (Exec.recovered err v))) := .of_zero (fun _ _ => rfl)
  have ht : t.due k handle ≤ u.due k handle :=
    due_one (t := t) hnu (.of_eq rfl rfl rfl) hj rfl rfl hpays k handle
  exact ht.trans hu

theorem noteRead_append (log : List (ℕ × Bytes)) (s : St) (act : Act) (t : St) :
    noteRead log s act t = log ++ noteRead [] s act t := by
  unfold noteRead
  split
  · split <;> simp
  · simp

theorem Move.due_le (hm : Move cfg s act t) (hn : Named s) (hc : Conns s) (hsp : Spoken s)
    (k : ℕ) (handle : Bytes) :
    t.due k handle ≤ s.due k handle + (noteRead [] s act t).countP (assigns k handle) := by
  have key : t.due k handle ≤ s.due k handle →
      t.due k handle ≤ s.due k handle + (noteRead [] s act t).countP (assigns k handle) :=
    fun h => h.trans (Nat.le_add_right _ _)
  have one : ∀ {i : ℕ} {task task' : Task}, s.tasks i = some task → SameResults s t →
      t.tasks = Function.update s.tasks i (some task') → t.ntask = s.ntask →
      Settles task task' →
      t.due k handle ≤ s.due k handle + (noteRead [] s act t).countP (assigns k handle) :=
    fun h hr ht hnt hp => key (due_one hn hr h ht hnt hp k handle)
  cases hm with
  | call op hop => exact key (due_new (.of_eq rfl rfl rfl) rfl rfl (owes_entry k handle op))
  | pc h hl => exact one h (.of_eq rfl rfl rfl) rfl rfl hl.settles
  | lock h hl hfree => exact one h (.of_eq rfl rfl rfl) rfl rfl hl.settles
  | unlock h hl => exact one h (.of_eq rfl rfl rfl) rfl rfl hl.settles
  | dial h hd => exact key (due_dial hn h hd k handle)
  | publish h hp => exact one h (.setConnAt rfl rfl rfl rfl rfl) rfl rfl hp.settles
  | spawn h hs => exact key (due_spawn hn h hs k handle)
  | shut h hs =>
    obtain ⟨hnc, hag, hsent, hin⟩ := SameResults.shut s ‹Option ℕ›
    exact one h ⟨hnc, hag, hsent, hin⟩ (shut_setTask s _ _ _) (shut_ntask s _) hs.settles
  | report h hr => exact one h (.of_eq rfl rfl rfl) rfl rfl hr.settles
  | @setReady i op h hmu =>
    refine one h (.of_eq rfl rfl rfl) rfl rfl (.of_zero ?_)
    cases op <;> exact fun _ _ => rfl
  | setRunning h hmu =>
    exact one h (.of_eq rfl rfl rfl) rfl rfl
      (.writes (terminal_broadcast (by decide)) (.of_zero (fun _ _ => rfl)))
  | @closeAgent i j op h hk =>
    obtain ⟨hnc, hag, hsent, hin⟩ := SameResults.shut s (s.agents j).conn
    exact one h ⟨hnc, hag, hsent, hin⟩ (closeAgent_setTask s _ _ _) (shut_ntask s _)
      (.of_zero (fun _ _ => rfl))
  | changeFuncs h hmu hr heq =>
    exact one h (.of_eq rfl rfl rfl) rfl rfl
      (.writes (changes_of_eq hmu hr heq).silent (.of_zero (fun _ _ => rfl)))
  | sent h hopen => exact key (due_sent hn hc hsp h k handle)
  | read h hw =>
    refine (due_read hn h k handle).trans (Nat.add_le_add_left ?_ _)
    simp only [noteRead, h, hw, List.take_succ_cons, List.take_zero, List.map_cons, List.map_nil,
      List.nil_append, List.countP_singleton]
    split_ifs with hassign
    · rw [hassign]
      exact le_rfl
    · simp [hassign]
  | send h hfull => exact key (due_send hn h k handle)
  | recv h hpc hin ha => exact key (due_recv hn h hin k handle)
  | token h hl hcap =>
    exact one h (.of_eq rfl rfl rfl) rfl rfl
      (.writes (terminal_toAgent (by decide)) (.back _ _))
  | handoff h h' hl => exact key (due_handoff hn h h' k handle)
  | @serve c data hlt =>
    have hsame : SameResults s
        (s.setConnAt c { s.conns c with wire := (s.conns c).wire ++ [data] }) :=
      .setConnAt rfl rfl rfl rfl rfl
    exact key (due_same hsame rfl rfl).le
  | panic h hrw => exact key le_rfl
  | _ => exact one (by assumption) (.of_eq rfl rfl rfl) rfl rfl (.of_zero (fun _ _ => rfl))

/-- What is sent, owed and queued for a handle has been read as a job with that handle. -/
structure Accountable (x : St × List (ℕ × Bytes)) : Prop where
  named : Named x.1
  conns : Conns x.1
  spoken : Spoken x.1
  due : ∀ k handle, x.1.due k handle ≤ x.2.countP (assigns k handle)

theorem Accountable.step {x y : St × List (ℕ × Bytes)} (hi : Accountable x)
    (h : traced (step cfg) noteRead x act = some y) : Accountable y := by
  obtain ⟨hstep, hlog⟩ := traced_eq_some.mp h
  have hm := step_move hstep
  refine ⟨hi.named.move hm, hi.conns.move hm, hi.spoken.move hi.conns hm, ?_⟩
  intro k handle
  rw [hlog, noteRead_append, List.countP_append]
  have hle := hm.due_le hi.named hi.conns hi.spoken k handle
  have hold := hi.due k handle
  omega

theorem accountable_start : Accountable ({}, []) where
  named := named_start
  conns := conns_start
  spoken := spoken_start
  due := by
    intro k handle
    simp [St.due, St.results, St.total, tally]

/-- In every run, for every server and every handle: the results that the worker has sent on
its connections to that server with that handle are no more than the jobs it has read from that
server with that handle. So a job is answered at most once, and only where it came from. -/
theorem results_le_jobs (cfg : Cfg) (s : St) (log : List (ℕ × Bytes))
    (hs : Reachable (traced (step cfg) noteRead) always ({}, []) (s, log)) (k : ℕ)
    (handle : Bytes) : s.results k handle ≤ log.countP (assigns k handle) := by
  have hi : Accountable (s, log) := hs.invariant accountable_start (fun _ _ _ hi _ h => hi.step h)
  have hdue := hi.due k handle
  simp only [St.due] at hdue
  omega

def answeredActs : List Act := dispatchActs ++ [.task 3, .job 3 false, .task 3] ++ writeActs 3

theorem results_le_jobs_answered :
    ∃ s log, Reachable (traced (step oneAgent) noteRead) always ({}, []) (s, log) ∧
      s.results 0 [72] = 1 ∧ s.results 0 [72] ≤ log.countP (assigns 0 [72]) :=
  ⟨_, _, ⟨answeredActs, rfl⟩, rfl, results_le_jobs oneAgent _ _ ⟨answeredActs, rfl⟩ 0 [72]⟩

end Gearman.Worker.Machine
