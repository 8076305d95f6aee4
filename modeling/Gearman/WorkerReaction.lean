import Gearman.WorkerAbilities
import Gearman.WorkerConns

/-!
# How the read loop of an agent ends its reaction to an error

`work` takes one of three exits on an error of `read`: it reads on, it reports a
`*WorkerDisconnectError` and ends, or it dials a connection of its own. Only the program
that gets the report can call `Reconnect`, and only `Reconnect` announces the functions
again and grabs. The loop's own dial does neither, and ends without a report when it
fails.
-/

namespace Gearman.Worker.Machine
open Transition

/-- An agent with a loop has a connection unless `Close` has taken it. -/
structure Tended (s : St) : Prop where
  closing : ∀ i task, s.tasks i = some task → task.closing = true → s.closed = true
  conn : ∀ i task k epoch c, s.tasks i = some task → task.attends = some (k, epoch, c) →
    (s.agents k).conn ≠ none ∨ s.closed = true

variable {cfg : Cfg} {s t : St} {act : Act} {i k : ℕ} {task task' : Task}

theorem Tended.steady (hi : Tended s) (hf : Follows s t) (hk : Keeps s t) : Tended t where
  closing := by
    intro j x hj hx
    rcases hf.closing j x hj hx with hc | ⟨y, hy, hyc⟩
    · exact hc
    · exact hk.closed (hi.closing j y hy hyc)
  conn := by
    intro j x k epoch c hj hx
    obtain ⟨j', y, hy, hya⟩ := hf.attends j x (k, epoch, c) hj hx
    rcases hk.conn k with heq | ⟨i, task, h, hc⟩
    · rw [heq]
      exact (hi.conn j' y k epoch c hy hya).imp id hk.closed
    · exact Or.inr (hk.closed (hi.closing i task h hc))

theorem Tended.dial (hi : Tended s) {c : ℕ} (h : s.tasks i = some task)
    (hd : Dials c task k task') : Tended ((s.dialled k).setTask i task') := by
  have hclosing : task'.closing = false := by cases hd <;> rfl
  refine ⟨?_, ?_⟩
  · exact forall_update (fun hx => by simp [hclosing] at hx) hi.closing
  · intro j x k' epoch c' hj hx
    rcases update_eq_some hj with ⟨-, rfl⟩ | ⟨-, hj⟩
    · rcases hd.attends with hn | heq
      · simp [hn] at hx
      · exact hi.conn i task k' epoch c' h (heq ▸ hx)
    · exact hi.conn j x k' epoch c' hj hx

theorem Tended.publish (hi : Tended s) {c e : ℕ} (hp : Publishes e task k c task') :
    Tended ((s.publish k c).setTask i task') := by
  have hclosing : task'.closing = false := by cases hp <;> rfl
  have hconn : ∀ k', (s.agents k').conn ≠ none → ((s.publish k c).agents k').conn ≠ none := by
    intro k' hne
    by_cases hk : k' = k
    · simp [hk, publish_self]
    · rwa [publish_of_ne s c hk]
  refine ⟨?_, ?_⟩
  · exact forall_update (fun hx => by simp [hclosing] at hx) hi.closing
  · intro j x k' epoch c' hj hx
    rcases update_eq_some hj with ⟨-, rfl⟩ | ⟨-, hj⟩
    · cases Option.some.inj (hp.dialled.2.2.symm.trans hx)
      exact Or.inl (by simp [St.setTask, publish_self])
    · exact (hi.conn j x k' epoch c' hj hx).imp (hconn k') id

theorem Tended.move (hi : Tended s) (hm : Move cfg s act t) : Tended t := by
  cases hm.effect with
  | steady hf hk => exact hi.steady hf hk
  | dial h hd ht =>
    subst ht
    exact hi.dial h hd
  | publish h hp ht =>
    subst ht
    exact hi.publish hp

theorem tended_start : Tended {} where
  closing := by
    intro i task h
    cases h
  conn := by
    intro i task k epoch c h
    cases h

def notReading (i : ℕ) (_ : St) : Act → Bool
  | .read j _ => j ≠ i
  | _ => true

def LoopPc.rests : LoopPc → Bool
  | .read => true
  | .done => true
  | _ => false

structure Serves (s : St) (c : ℕ) : Prop where
  announced : ∀ funcname ∈ s.funcs.keys,
    ((Calls.abilities (s.conns c).sent).lookup funcname).isSome = true
  grabbed : grabPack ∈ (s.conns c).sent

def ClosedBetween (cfg : Cfg) (a : ℕ) (s t : St) : Prop :=
  ∃ u, Reachable (step cfg) always s u ∧ Reachable (step cfg) always u t ∧
    u.closed = true ∧ (u.agents a).conn = none

inductive Reacted (cfg : Cfg) (e : Err) (a epoch c : ℕ) (s t : St) : Task → Prop
  | again (he : onReadError e = .again) : Reacted cfg e a epoch c s t (.loop a epoch c .read)
  | ended {epoch' c' : ℕ} (h : .disconnect a e ∈ t.reports.drop s.reports.length ∨
      ClosedBetween cfg a s t) : Reacted cfg e a epoch c s t (.loop a epoch' c' .done)
  | resumed {c' : ℕ} {task : Task} (hne : c' ≠ c) (hconn : (t.agents a).conn = some c')
      (hs : Serves t c') : Reacted cfg e a epoch c s t task

def Reacts (e : Err) : Prop :=
  ∀ (cfg : Cfg) (s s' t : St) (i a epoch c a' epoch' c' : ℕ) (pc : LoopPc),
    Reachable (step cfg) always {} s → s.running = true →
    s.tasks i = some (.loop a epoch c (.check (.error e))) → (s.agents a).epoch = epoch →
    step cfg s (.task i) = some s' → Reachable (step cfg) (notReading i) s' t →
    t.tasks i = some (.loop a' epoch' c' pc) → pc.rests = true →
    Reacted cfg e a epoch c s t (.loop a' epoch' c' pc)

inductive Reacting (cfg : Cfg) (e : Err) (a : ℕ) (s t : St) : LoopPc → Prop
  | again (he : onReadError e = .again) : Reacting cfg e a s t .read
  | disconnect : Reacting cfg e a s t (.disconnect e)
  | reportDisconnect : Reacting cfg e a s t (.reportDisconnect e)
  | done (h : .disconnect a e ∈ t.reports.drop s.reports.length ∨ ClosedBetween cfg a s t) :
      Reacting cfg e a s t .done

theorem Move.reports_grow (hm : Move cfg s act t) : s.reports <+: t.reports := by
  cases hm with
  | report h hr ha => exact List.prefix_append _ _
  | @shut i old task task' h hs => cases old <;> exact List.prefix_refl _
  | @closeAgent i k op h hk =>
    simp only [St.setTask, St.closeAgent, St.setAgent]
    cases (s.agents k).conn <;> exact List.prefix_refl _
  | _ => exact List.prefix_refl _

theorem mem_drop_of_extends {α : Type*} {x : α} {l l' : List α} {n : ℕ} (h : l <+: l')
    (hx : x ∈ l.drop n) : x ∈ l'.drop n := by
  obtain ⟨r, rfl⟩ := h
  rw [List.drop_append]
  exact List.mem_append_left _ hx

theorem ClosedBetween.step {u : St} {a : ℕ} (h : ClosedBetween cfg a s t)
    (hs : step cfg t act = some u) : ClosedBetween cfg a s u := by
  obtain ⟨v, hv, hvt, hclosed, hconn⟩ := h
  exact ⟨v, hv, hvt.trans (.single rfl hs), hclosed, hconn⟩

theorem loop_step {a epoch c : ℕ} {pc : LoopPc} (h : s.tasks i = some (.loop a epoch c pc))
    (ha : act.runner = some i) (hread : ∀ err, act ≠ .read i err) (hdial : ∀ old, pc ≠ .dial old)
    (hforward : ∀ inpack, pc ≠ .forward inpack) (hs : step cfg s act = some t) :
    loopStep s i a epoch c pc = some t := by
  cases step_runs h ha hs with
  | task hrun => exact hrun
  | @dial err hrun =>
    cases pc <;> cases err <;> first | exact absurd rfl (hdial _) | cases hrun
  | read hrun => exact absurd rfl (hread _)
  | send hrun => cases pc <;> first | exact absurd rfl (hforward _) | cases hrun
  | quit hrun => cases pc <;> first | exact absurd rfl (hforward _) | cases hrun
  | _ => contradiction

theorem Reacting.step {u : St} {e : Err} {a epoch c : ℕ} {pc : LoopPc}
    (hr : Reacting cfg e a s t pc) (h : t.tasks i = some (.loop a epoch c pc)) (hn : Named t)
    (hi : Tended t) (hst : Reachable (step cfg) always s t) (hp : s.reports <+: t.reports)
    (hg : notReading i t act = true) (hs : Machine.step cfg t act = some u) :
    ∃ pc', u.tasks i = some (.loop a epoch c pc') ∧ Reacting cfg e a s u pc' := by
  have hm : Move cfg t act u := step_move hs
  by_cases ha : act.runner = some i
  · have hread : ∀ err, act ≠ .read i err := by
      rintro err rfl
      simp [notReading] at hg
    cases hr with
    | again he => cases loop_step h ha hread (by simp) (by simp) hs
    | disconnect =>
      cases loop_step h ha hread (by simp) (by simp) hs
      refine ⟨_, Function.update_self .., ?_⟩
      by_cases hconn : (t.agents a).conn.isSome = true
      · rw [if_pos hconn]
        exact .reportDisconnect
      · simp only [if_neg hconn] at hs ⊢
        have hnone : (t.agents a).conn = none := by simpa using hconn
        have hclosed : t.closed = true :=
          (hi.conn i _ a epoch c h rfl).resolve_left (absurd hnone)
        exact .done (Or.inr ⟨t, hst, .single rfl hs, hclosed, hnone⟩)
    | reportDisconnect =>
      cases loop_step h ha hread (by simp) (by simp) hs
      refine ⟨_, Function.update_self .., .done (Or.inl ?_)⟩
      simp only [St.setTask, St.report]
      rw [List.drop_append_of_le_length hp.length_le]
      exact List.mem_append_right _ List.mem_cons_self
    | done hend => cases loop_step h ha hread (by simp) (by simp) hs
  · refine ⟨pc, hm.frame hn h (by simp) ha, ?_⟩
    cases hr with
    | again he => exact .again he
    | disconnect => exact .disconnect
    | reportDisconnect => exact .reportDisconnect
    | done hend =>
      refine .done (hend.imp (mem_drop_of_extends hm.reports_grow) ?_)
      exact fun hc => hc.step hs

theorem reacts_of_not_redial {e : Err} (he : onReadError e ≠ .redial) : Reacts e := by
  intro cfg s s' t i a epoch c a' epoch' c' pc hs _ htask hepoch hstep ht hpc hrest
  have hinv : Named s ∧ Tended s := hs.invariant (I := fun u => Named u ∧ Tended u)
    ⟨named_start, tended_start⟩
    (fun _ _ _ hu _ h => ⟨hu.1.move (step_move h), hu.2.move (step_move h)⟩)
  have hstart : ∃ pc, s'.tasks i = some (.loop a epoch c pc) ∧ Reacting cfg e a s s' pc := by
    have hloop : loopStep s i a epoch c (.check (.error e)) = some s' :=
      loop_step htask rfl (by simp) (by simp) (by simp) hstep
    simp only [loopStep, hepoch, ne_eq, not_true_eq_false, if_false, reactStep] at hloop
    cases hloop
    refine ⟨_, Function.update_self .., ?_⟩
    unfold reaction
    cases hre : onReadError e with
    | again => exact .again hre
    | disconnect => exact .disconnect
    | redial => exact absurd hre he
  have hend : Named t ∧ Tended t ∧ Reachable (step cfg) always s t ∧ s.reports <+: t.reports ∧
      ∃ pc, t.tasks i = some (.loop a epoch c pc) ∧ Reacting cfg e a s t pc := by
    refine ht.invariant
      (I := fun u => Named u ∧ Tended u ∧ Reachable (step cfg) always s u ∧
        s.reports <+: u.reports ∧
        ∃ pc, u.tasks i = some (.loop a epoch c pc) ∧ Reacting cfg e a s u pc)
      ⟨hinv.1.move (step_move hstep), hinv.2.move (step_move hstep), .single rfl hstep,
        (step_move hstep).reports_grow, hstart⟩ ?_
    rintro u act v ⟨hn, hi, hr, hp, pc, hu, hreact⟩ hg h
    exact ⟨hn.move (step_move h), hi.move (step_move h), hr.trans (.single rfl h),
      hp.trans (step_move h).reports_grow, hreact.step hu hn hi hr hp hg h⟩
  obtain ⟨-, -, -, -, pc', hpc', hreact⟩ := hend
  cases Option.some.inj (hpc.symm.trans hpc')
  cases hreact with
  | again he => exact .again he
  | done h => exact .ended h
  | _ => cases hrest

def brokenActs (e : Err) : List Act :=
  [.call (.addFunc [102] ⟨fun _ => .returned [] none, 0⟩), .task 0, .call .work,
    .task 1, .task 1, .task 1, .task 1, .task 1, .dial 1 none, .task 1, .task 1, .task 1,
    .range 1 [[102]], .task 1, .task 1, .flush 1 true, .task 1, .task 1, .task 1,
    .task 1, .task 1, .flush 1 true, .task 1, .read 2 (some e)]

def redialActs : List Act := [.task 2, .task 2, .dial 2 none, .task 2, .task 2]

theorem redialled (e : Err) (he : onReadError e = .redial) :
    ∃ s s' t, run (step oneAgent) always {} (brokenActs e) = some s ∧ s.running = true ∧
      s.tasks 2 = some (.loop 0 1 0 (.check (.error e))) ∧ (s.agents 0).epoch = 1 ∧
      step oneAgent s (.task 2) = some s' ∧
      run (step oneAgent) (notReading 2) s' redialActs = some t ∧
      t.tasks 2 = some (.loop 0 2 1 .read) ∧ (t.agents 0).conn = some 1 ∧
      (t.conns 1).sent = [] ∧ t.reports = [.err e] ∧ t.closed = false := by
  have hreact : reaction e = .report e := by simp only [reaction, he]
  exact ⟨_, _, _, rfl, rfl, rfl, rfl,
    congrArg (fun pc => some (St.setTask _ 2 (.loop 0 1 0 pc))) hreact,
    rfl, rfl, rfl, rfl, rfl, rfl⟩

theorem not_reacts_of_redial {e : Err} (he : onReadError e = .redial) : ¬ Reacts e := by
  intro hreacts
  obtain ⟨s, s', t, hs, hrun, htask, hepoch, hstep, ht, hpc, hconn, hsent, -, -⟩ := redialled e he
  have hend := hreacts oneAgent s s' t 2 0 1 0 0 2 1 .read ⟨_, hs⟩ hrun htask hepoch hstep ⟨_, ht⟩
    hpc rfl
  cases hend with
  | resumed hne hconn' hserves =>
    cases Option.some.inj (hconn.symm.trans hconn')
    have hgrab := hserves.grabbed
    simp [hsent] at hgrab

theorem reacts_iff (e : Err) : Reacts e ↔ onReadError e ≠ .redial := by
  constructor
  · intro hreacts he
    exact not_reacts_of_redial he hreacts
  · exact reacts_of_not_redial

theorem reacts_to_eof :
    ∃ s s' t, run (step oneAgent) always {} (brokenActs (.read .eof)) = some s ∧
      step oneAgent s (.task 2) = some s' ∧
      run (step oneAgent) (notReading 2) s' [.task 2, .task 2] = some t ∧
      t.reports = [.disconnect 0 (.read .eof)] ∧
      Reacted oneAgent (.read .eof) 0 1 0 s t (.loop 0 1 0 .done) := by
  refine ⟨_, _, _, rfl, rfl, rfl, rfl, ?_⟩
  exact (reacts_iff (.read .eof)).mpr (by simp [onReadError]) oneAgent _ _ _ 2 0 1 0 0 1 0 .done
    ⟨brokenActs (.read .eof), rfl⟩ rfl rfl rfl rfl ⟨[.task 2, .task 2], rfl⟩ rfl rfl

/-- "HTTP/1.1 400": what a peer that is no job server may answer. -/
def foreignBytes : Bytes := [72, 84, 84, 80, 47, 49, 46, 49, 32, 52, 48, 48]

/-- The new connection is healthy, and the server has been told nothing on it. -/
theorem silent_after_bad_magic :
    (Worker.read (Bufio.newReader Framing.defaultBufSize
        [⟨foreignBytes, by decide⟩])).map Prod.fst = some (.error (badMagic foreignBytes)) ∧
      ¬ Reacts (badMagic foreignBytes) ∧
      ∃ s s' t, run (step oneAgent) always {} (brokenActs (badMagic foreignBytes)) = some s ∧
        s.running = true ∧ step oneAgent s (.task 2) = some s' ∧
        run (step oneAgent) (notReading 2) s' redialActs = some t ∧
        t.tasks 2 = some (.loop 0 2 1 .read) ∧ (t.agents 0).conn = some 1 ∧
        (t.conns 1).sent = [] ∧ t.reports = [.err (badMagic foreignBytes)] ∧ t.closed = false := by
  obtain ⟨s, s', t, hs, hrun, -, -, hstep, ht⟩ := redialled (badMagic foreignBytes) rfl
  exact ⟨rfl, not_reacts_of_redial rfl, s, s', t, hs, hrun, hstep, ht⟩

end Gearman.Worker.Machine
