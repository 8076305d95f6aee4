import Gearman.Simulation
import Gearman.WorkerExec
import Gearman.WorkerMachine

/-!
# The goroutines of one job against the worker's machine

`Exec` follows one job down to the goroutine `execTimeout` starts, its unbuffered channel
and its timer. The machine of the worker has one task for the job and lets its function
end, or be given up on, in one step. Here every run of the former is a run of the latter:
the same packets are written, the same errors reported, and the goroutine that the timer
has left behind is invisible.

Other jobs and `Close` are seen through `tokens` and `running` only, at both levels.
-/

namespace Gearman.Worker.Machine
open Transition

/-- The worker with the rest of the program, as far as one job can see it. -/
def openStep (cfg : Cfg) (s : St) : Act ⊕ Exec.Act → Option St
  | .inl act => step cfg s act
  | .inr (.tokens n) => some { s with tokens := n }
  | .inr .close => some { s with running := false }
  | .inr _ => none

def solo (i : ℕ) (_ : St) : Act ⊕ Exec.Act → Bool
  | .inl act => match act with
    | .task j => j = i
    | .flush j _ => j = i
    | .job j _ => j = i
    | _ => false
  | .inr _ => true

def dispatched (_ : Exec.St) : Exec.Act → Bool
  | .dispatch => false
  | .rendezvous => false
  | _ => true

inductive Stands (c : Exec.Cfg) (k : ℕ) : Exec.Pc → Task → Prop
  | lookup : Stands c k .lookup (.exec c.inpack .lookup)
  | call {f : JobFunc} (ht : f.timeout = 0) : Stands c k (.call f) (.exec c.inpack (.call f))
  | select {f : JobFunc} (hf : c.funcs.lookup c.inpack.fn = some f) (ht : f.timeout ≠ 0) :
      Stands c k .select (.exec c.inpack (.call f))
  | closeRslt (r : Result) : Stands c k (.closeRslt r) (.exec c.inpack (.running r))
  | running (r : Result) : Stands c k (.running r) (.exec c.inpack (.running r))
  | write (r : Result) : Stands c k (.write r)
      (.write [(k, resultPack c.inpack r)] .lock (.exec c.inpack (.deferred r.err none)))
  | deferred (err : Option Err) (v : Option PanicValue) :
      Stands c k (.deferred err v) (.exec c.inpack (.deferred err v))
  | returned (err : Option Err) : Stands c k (.returned err) (.exec c.inpack .done)

def Inside (c : Exec.Cfg) : Exec.Inner → Prop
  | .calling f => c.funcs.lookup c.inpack.fn = some f
  | .sending r => ∃ f, c.funcs.lookup c.inpack.fn = some f ∧
      f.f c.inpack = .returned r.data r.err
  | _ => True

/-- The job of agent `k` with the connection `conn`, on which `base` was written before and
by a worker that had reported `told`. -/
structure Tracks (c : Exec.Cfg) (i k conn : ℕ) (base : List OutPack) (told : List Report)
    (x : Exec.St) (s : St) : Prop where
  task : ∃ pc task, x.exec = some pc ∧ s.tasks i = some task ∧ Stands c k pc task
  inner : Inside c x.inner
  funcs : s.funcs = c.funcs
  running : s.running = x.running
  tokens : s.tokens = x.tokens
  mutex : s.mutex = none
  lock : (s.agents k).mutex = none
  rw : (s.agents k).rw = some conn
  live : (s.conns conn).closed = false
  calm : s.panicked = false
  sent : (s.conns conn).sent = base ++ x.log.map Prod.snd
  reports : s.reports = told ++ x.reported.map .err

variable {cfg : Cfg} {c : Exec.Cfg} {i k conn : ℕ} {base : List OutPack} {told : List Report}
variable {x y : Exec.St} {s t : St} {task : Task}

theorem Tracks.moves (hi : Tracks c i k conn base told x s) {pc : Exec.Pc}
    (hs : Stands c k pc task) (he : y.exec = some pc) (hin : Inside c y.inner)
    (hr : y.running = x.running) (ht : y.tokens = x.tokens) (hl : y.log = x.log)
    (hp : y.reported = x.reported) : Tracks c i k conn base told y (s.setTask i task) where
  task := ⟨pc, task, he, Function.update_self .., hs⟩
  inner := hin
  funcs := hi.funcs
  running := hi.running.trans hr.symm
  tokens := hi.tokens.trans ht.symm
  mutex := hi.mutex
  lock := hi.lock
  rw := hi.rw
  live := hi.live
  calm := hi.calm
  sent := hl ▸ hi.sent
  reports := hp ▸ hi.reports

theorem answered {a : Act} (h : step cfg s a = some t) (ha : solo i s (.inl a) = true)
    (hy : Tracks c i k conn base told y t) :
    ∃ t, Reachable (openStep cfg) (solo i) s t ∧ Tracks c i k conn base told y t :=
  ⟨t, .single ha h, hy⟩

theorem Tracks.exec (hi : Tracks c i k conn base told x s) (ha : c.inpack.a = some k)
    (h : Exec.execStep c x = some y) :
    ∃ t, Reachable (openStep cfg) (solo i) s t ∧ Tracks c i k conn base told y t := by
  obtain ⟨pc, task, he, htask, hs⟩ := hi.task
  cases hs with
  | lookup =>
    simp only [Exec.execStep, he] at h
    have hstep : step cfg s (.task i) =
        some (s.setTask i (.exec c.inpack (lookup s c.inpack.fn))) := by
      simp [step, hi.calm, htask, taskStep, execStep, locked, hi.mutex]
    cases hf : c.funcs.lookup c.inpack.fn with
    | none =>
      simp only [hf, Option.some.injEq] at h
      subst h
      have hl : lookup s c.inpack.fn = .deferred (some (Exec.funcMissing c.inpack.fn)) none := by
        simp [lookup, hi.funcs, hf]
      rw [hl] at hstep
      exact answered hstep (by simp [solo]) (hi.moves (.deferred _ _) rfl hi.inner rfl rfl rfl rfl)
    | some f =>
      have hl : lookup s c.inpack.fn = .call f := by simp [lookup, hi.funcs, hf]
      rw [hl] at hstep
      simp only [hf] at h
      split_ifs at h with ht
      · cases h
        exact answered hstep (by simp [solo]) (hi.moves (.call ht) rfl hi.inner rfl rfl rfl rfl)
      · cases h
        exact answered hstep (by simp [solo]) (hi.moves (.select hf ht) rfl hf rfl rfl rfl rfl)
  | @call f ht =>
    simp only [Exec.execStep, he] at h
    cases hf : f.f c.inpack with
    | returned data err =>
      simp only [hf, Option.some.injEq] at h
      subst h
      refine answered (a := .job i false) ?_ (by simp [solo])
        (hi.moves (.running { data, err }) rfl hi.inner rfl rfl rfl rfl)
      simp [step, hi.calm, htask, jobStep, hf]
    | panicked v =>
      simp only [hf, Option.some.injEq] at h
      subst h
      refine answered (a := .job i false) ?_ (by simp [solo])
        (hi.moves (.deferred none (some v)) rfl hi.inner rfl rfl rfl rfl)
      simp [step, hi.calm, htask, jobStep, hf, ht]
  | closeRslt r =>
    simp only [Exec.execStep, he, Option.some.injEq] at h
    subst h
    exact ⟨s, .refl s, { hi with task := ⟨_, _, rfl, htask, .running r⟩ }⟩
  | running r =>
    simp only [Exec.execStep, he] at h
    have hstep : step cfg s (.task i) = some (s.setTask i (answer s c.inpack r)) := by
      simp [step, hi.calm, htask, taskStep, execStep, locked, hi.mutex]
    split_ifs at h with hr
    · cases h
      have hans : answer s c.inpack r = .write [(k, resultPack c.inpack r)] .lock
          (.exec c.inpack (.deferred r.err none)) := by
        simp [answer, hi.running, hr, writes, toAgent, ha]
      rw [hans] at hstep
      exact answered hstep (by simp [solo]) (hi.moves (.write r) rfl hi.inner rfl rfl rfl rfl)
    · cases h
      have hans : answer s c.inpack r = .exec c.inpack (.deferred none none) := by
        simp [answer, hi.running, hr]
      rw [hans] at hstep
      exact answered hstep (by simp [solo])
        (hi.moves (.deferred none none) rfl hi.inner rfl rfl rfl rfl)
  | _ => simp [Exec.execStep, he] at h

theorem Tracks.innerStep (hi : Tracks c i k conn base told x s)
    (h : Exec.innerStep c x = some y) : Tracks c i k conn base told y s := by
  have hin := hi.inner
  cases hx : x.inner with
  | idle => simp [Exec.innerStep, hx] at h
  | done => simp [Exec.innerStep, hx] at h
  | calling f =>
    rw [hx] at hin
    simp only [Exec.innerStep, hx] at h
    cases hf : f.f c.inpack with
    | returned data err =>
      simp only [hf, Option.some.injEq] at h
      subst h
      exact { hi with inner := ⟨f, hin, hf⟩ }
    | panicked v =>
      simp only [hf, Option.some.injEq] at h
      subst h
      exact { hi with inner := trivial }
  | sending r =>
    simp only [Exec.innerStep, hx] at h
    split_ifs at h
    cases h
    exact { hi with inner := trivial }

theorem Tracks.receive (hi : Tracks c i k conn base told x s)
    (h : Exec.step c x .receive = some y) :
    ∃ t, Reachable (openStep cfg) (solo i) s t ∧ Tracks c i k conn base told y t := by
  obtain ⟨pc, task, he, htask, hs⟩ := hi.task
  have hin := hi.inner
  cases hs with
  | @select f hf ht =>
    cases hx : x.inner with
    | sending r =>
      rw [hx] at hin
      obtain ⟨g, hg, hr⟩ := hin
      cases hf.symm.trans hg
      simp only [Exec.step, he, hx] at h
      split_ifs at h
      cases h
      refine answered (a := .job i false) ?_ (by simp [solo])
        (hi.moves (.closeRslt r) rfl trivial rfl rfl rfl rfl)
      simp [step, hi.calm, htask, jobStep, hr]
    | _ => simp [Exec.step, he, hx] at h
  | _ => simp [Exec.step, he] at h

/-- The timer has come first: whatever the function still does is dropped. -/
theorem Tracks.timeout (hi : Tracks c i k conn base told x s)
    (h : Exec.step c x .timeout = some y) :
    ∃ t, Reachable (openStep cfg) (solo i) s t ∧ Tracks c i k conn base told y t := by
  obtain ⟨pc, task, he, htask, hs⟩ := hi.task
  cases hs with
  | @select f hf ht =>
    simp only [Exec.step, he, Option.some.injEq] at h
    subst h
    refine answered (a := .job i true) ?_ (by simp [solo])
        (hi.moves (.closeRslt { err := some .timeOut }) rfl hi.inner rfl rfl rfl rfl)
    simp [step, hi.calm, htask, jobStep, ht]
  | _ => simp [Exec.step, he] at h

def writing (i : ℕ) (ok : Bool) : List (Act ⊕ Exec.Act) :=
  [.inl (.task i), .inl (.task i), .inl (.flush i ok), .inl (.task i)]

def St.wrote (s : St) (i conn : ℕ) (outpack : OutPack) (ok : Bool) (next : Task) : St :=
  (if ok then s.setConnAt conn { s.conns conn with sent := (s.conns conn).sent ++ [outpack] }
    else s).setTask i next

theorem run_writing {outpack : OutPack} {next : Task} (hcalm : s.panicked = false)
    (htask : s.tasks i = some (.write [(k, outpack)] .lock next))
    (hlock : (s.agents k).mutex = none) (hrw : (s.agents k).rw = some conn)
    (hlive : (s.conns conn).closed = false) (ok : Bool) :
    run (openStep cfg) (solo i) s (writing i ok) = some (s.wrote i conn outpack ok next) := by
  have hfree : (⟨none, (s.agents k).conn, some conn, (s.agents k).epoch⟩ : Agent) =
      s.agents k := by
    rw [← hrw, ← hlock]
  cases ok with
  | true =>
    simpa [writing, run, solo, openStep, step, hcalm, htask, taskStep, writeStep, flushStep,
      hlock, hrw, hlive, St.lockAgent, St.unlockAgent, St.setAgent, St.setTask, St.setConnAt,
      St.wrote, writes] using hfree
  | false =>
    simpa [writing, run, solo, openStep, step, hcalm, htask, taskStep, writeStep, flushStep,
      hlock, hrw, St.lockAgent, St.unlockAgent, St.setAgent, St.setTask, St.wrote,
      writes] using hfree

theorem Tracks.write (hi : Tracks c i k conn base told x s) {ok : Bool}
    (h : Exec.step c x (.write ok) = some y) :
    ∃ t, Reachable (openStep cfg) (solo i) s t ∧ Tracks c i k conn base told y t := by
  obtain ⟨pc, task, he, htask, hs⟩ := hi.task
  cases hs with
  | write r =>
    simp only [Exec.step, he, Option.some.injEq] at h
    subst h
    refine ⟨_, ⟨_, run_writing hi.calm htask hi.lock hi.rw hi.live ok⟩, ?_⟩
    cases ok with
    | true =>
      exact { hi with
        task := ⟨_, _, rfl, Function.update_self .., .deferred r.err none⟩
        live := by simpa [St.wrote, St.setTask, St.setConnAt] using hi.live
        sent := by simp [St.wrote, St.setTask, St.setConnAt, hi.sent] }
    | false =>
      exact { hi with task := ⟨_, _, rfl, Function.update_self .., .deferred r.err none⟩ }
  | _ => simp [Exec.step, he] at h

theorem run_finishing {err : Option Err} {v : Option PanicValue} {n : ℕ}
    (hcalm : s.panicked = false) (htask : s.tasks i = some (.exec c.inpack (.deferred err v)))
    (hstep : execStep cfg s i c.inpack (.deferred err v) =
      some { s.setTask i (.exec c.inpack (.report (Exec.recovered err v))) with tokens := n }) :
    run (openStep cfg) (solo i) s [.inl (.task i), .inl (.task i)] =
      some { s.setTask i (.exec c.inpack .done) with
        tokens := n
        reports := s.reports ++ (Exec.recovered err v).toList.map .err } := by
  have hfirst : openStep cfg s (.inl (.task i)) =
      some { s.setTask i (.exec c.inpack (.report (Exec.recovered err v))) with tokens := n } := by
    simpa [openStep, step, hcalm, htask, taskStep] using hstep
  refine run_cons_eq_some.mpr ⟨by simp [solo], _, hfirst, ?_⟩
  simp [run, solo, openStep, step, hcalm, taskStep, execStep, St.setTask]

theorem Tracks.finish (hi : Tracks c i k conn base told x s) {err : Option Err}
    {v : Option PanicValue} {n : ℕ}
    (htask : s.tasks i = some (.exec c.inpack (.deferred err v)))
    (hstep : execStep cfg s i c.inpack (.deferred err v) =
      some { s.setTask i (.exec c.inpack (.report (Exec.recovered err v))) with tokens := n }) :
    ∃ t, Reachable (openStep cfg) (solo i) s t ∧ Tracks c i k conn base told
      (Exec.finish { x with tokens := n } (Exec.recovered err v)) t := by
  refine ⟨_, ⟨_, run_finishing hi.calm htask hstep⟩, ?_⟩
  exact { hi with
    task := ⟨_, _, rfl, Function.update_self .., .returned _⟩
    tokens := rfl
    reports := by simp [Exec.finish, hi.reports] }

theorem Tracks.release (hi : Tracks c i k conn base told x s) (hlim : cfg.limit = c.limit)
    (h : Exec.step c x .release = some y) :
    ∃ t, Reachable (openStep cfg) (solo i) s t ∧ Tracks c i k conn base told y t := by
  obtain ⟨pc, task, he, htask, hs⟩ := hi.task
  cases hs with
  | deferred err v =>
    simp only [Exec.step, he] at h
    cases hl : c.limit with
    | none =>
      simp only [hl, Option.some.injEq] at h
      subst h
      refine hi.finish (n := x.tokens) htask ?_
      simp [execStep, hlim, hl, ← hi.tokens, St.setTask]
    | some cap =>
      simp only [hl] at h
      split_ifs at h with hpos
      cases h
      refine hi.finish (n := x.tokens - 1) htask ?_
      have hpos' : 0 < s.tokens := hi.tokens ▸ hpos
      simp [execStep, hlim, hl, ← hi.tokens, hpos']
  | _ => simp [Exec.step, he] at h

theorem Tracks.step (hi : Tracks c i k conn base told x s) (ha : c.inpack.a = some k)
    (hlim : cfg.limit = c.limit) {act : Exec.Act} (hd : dispatched x act = true)
    (h : Exec.step c x act = some y) :
    ∃ t, Reachable (openStep cfg) (solo i) s t ∧ Tracks c i k conn base told y t := by
  cases act with
  | dispatch => cases hd
  | rendezvous => cases hd
  | exec => exact hi.exec ha h
  | write ok => exact hi.write h
  | release => exact hi.release hlim h
  | inner => exact ⟨s, .refl s, hi.innerStep h⟩
  | receive => exact hi.receive h
  | timeout => exact hi.timeout h
  | tokens n =>
    cases h
    exact ⟨{ s with tokens := n }, .single (a := .inr (.tokens n)) rfl rfl,
      { hi with tokens := rfl }⟩
  | close =>
    cases h
    exact ⟨{ s with running := false }, .single (a := .inr .close) rfl rfl,
      { hi with running := rfl }⟩

theorem exec_refines_task (cfg : Cfg) (c : Exec.Cfg) (i k conn : ℕ) (base : List OutPack)
    (told : List Report) (x y : Exec.St) (s : St) (acts : List Exec.Act)
    (ha : c.inpack.a = some k) (hlim : cfg.limit = c.limit)
    (h : run (Exec.step c) dispatched x acts = some y) (hi : Tracks c i k conn base told x s) :
    ∃ t, Reachable (openStep cfg) (solo i) s t ∧ Tracks c i k conn base told y t := by
  have hsim : Simulates (Exec.step c) dispatched (openStep cfg) (solo i)
      (Tracks c i k conn base told) :=
    fun x act y s hx hd hy => hx.step ha hlim hd hy
  exact hsim.run h hi

def slowExec : Exec.Cfg where
  inpack := { dataType := dtJobAssign, handle := [72], fn := [102], a := some 0 }
  funcs := AList.insert [102] ⟨fun _ => .returned [1] none, 1⟩ ∅
  limit := none
  jobHandler := none

def slowWorker : St where
  agents := fun _ => { conn := some 0, rw := some 0 }
  funcs := slowExec.funcs
  running := true
  tasks := Function.update (fun _ => none) 0 (some (.exec slowExec.inpack .lookup))
  ntask := 1

def slowActs : List Exec.Act :=
  [.exec, .timeout, .inner, .exec, .inner, .exec, .write true, .release]

theorem exec_refines_task_timed_out :
    ∃ y t, run (Exec.step slowExec) dispatched { exec := some .lookup } slowActs = some y ∧
      Reachable (openStep { nagents := 1 }) (solo 0) slowWorker t ∧
      t.tasks 0 = some (.exec slowExec.inpack .done) ∧
      (t.conns 0).sent = [resultPack slowExec.inpack { err := some .timeOut }] := by
  have hi : Tracks slowExec 0 0 0 [] [] { exec := some .lookup } slowWorker :=
    ⟨⟨_, _, rfl, rfl, .lookup⟩, trivial, rfl, rfl, rfl, rfl, rfl, rfl, rfl, rfl, rfl, rfl⟩
  obtain ⟨y, hy⟩ : ∃ y, run (Exec.step slowExec) dispatched { exec := some .lookup } slowActs =
      some y := ⟨_, rfl⟩
  obtain ⟨t, ht, hti⟩ := exec_refines_task { nagents := 1 } slowExec 0 0 0 [] []
    { exec := some .lookup } y slowWorker slowActs rfl rfl hy hi
  cases hy
  obtain ⟨pc, task, he, htask, hs⟩ := hti.task
  cases he
  cases hs
  exact ⟨_, t, rfl, ht, htask, hti.sent⟩

end Gearman.Worker.Machine
