import Gearman.WorkerExec

/-!
# What a job function tells the client while it runs

`SendData`, `SendWarning` and `UpdateStatus` are called by the job function, and each of them
is one write of the agent whose error is dropped. `Exec` knows the function by its outcome;
here its calls are steps between its start and its end. A function that `execTimeout` has given
up on still runs, and calls.

The updates of a job precede its result on the wire, except those of a function that the timer
has overtaken: the client is told that the job has failed, and then more of its data.
-/

namespace Gearman.Worker

def isJobPack (outpack : OutPack) : Bool :=
  outpack.dataType = dtWorkData || outpack.dataType = dtWorkWarning ||
    outpack.dataType = dtWorkStatus || isTerminal outpack

theorem isJobPack_pack (inpack : InPack) (u : Update) : isJobPack (u.pack inpack) = true := by
  cases u <;> rfl

theorem isJobPack_resultPack (inpack : InPack) (r : Result) :
    isJobPack (resultPack inpack r) = true := by
  simp [isJobPack]

namespace Exec

inductive Goes (c : Cfg) (s : St) : Act → St → Prop
  | dispatch {d : Dispatch} {pc : Option Pc} {n : ℕ} {l : List (Option ℕ × OutPack)}
      {e : List Err} (hd : d ≠ .start)
      (hpc : pc = s.exec ∨ s.dispatch = .start ∧ pc = some .lookup)
      (hl : ∀ w ∈ l, isJobPack w.2 = false) :
      Goes c s .dispatch { s with
        dispatch := d, exec := pc, tokens := n, log := s.log ++ l, reported := e }
  | missing (he : s.exec = some .lookup) (err : Err) :
      Goes c s .exec { s with exec := some (.deferred (some err) none) }
  | call {f : JobFunc} (he : s.exec = some .lookup)
      (hf : c.funcs.lookup c.inpack.fn = some f) (ht : f.timeout = 0) :
      Goes c s .exec { s with exec := some (.call f) }
  | spawn {f : JobFunc} (he : s.exec = some .lookup)
      (hf : c.funcs.lookup c.inpack.fn = some f) (ht : f.timeout ≠ 0) :
      Goes c s .exec { s with exec := some .select, inner := .calling f }
  | returned {f : JobFunc} {r : Result} (he : s.exec = some (.call f))
      (ho : f.f c.inpack = .returned r.data r.err) :
      Goes c s .exec { s with exec := some (.running r) }
  | panicked {f : JobFunc} (he : s.exec = some (.call f)) (v : PanicValue) :
      Goes c s .exec { s with exec := some (.deferred none (some v)) }
  | closeRslt {r : Result} (he : s.exec = some (.closeRslt r)) :
      Goes c s .exec { s with exec := some (.running r), rsltClosed := true }
  | running {r : Result} (he : s.exec = some (.running r)) :
      Goes c s .exec { s with exec := some (.write r) }
  | stopped {r : Result} (he : s.exec = some (.running r)) :
      Goes c s .exec { s with exec := some (.deferred none none) }
  | written {r : Result} (he : s.exec = some (.write r)) :
      Goes c s (.write true) { s with
        exec := some (.deferred r.err none)
        log := s.log ++ [(c.inpack.a, resultPack c.inpack r)] }
  | unwritten {r : Result} (he : s.exec = some (.write r)) :
      Goes c s (.write false) { s with exec := some (.deferred r.err none) }
  | released {err : Option Err} {v : Option PanicValue} (he : s.exec = some (.deferred err v))
      (n : ℕ) (err' : Option Err) : Goes c s .release (finish { s with tokens := n } err')
  | rendezvous {err : Option Err} {v : Option PanicValue} (he : s.exec = some (.deferred err v))
      (err' : Option Err) : Goes c s .rendezvous (finish { s with dispatch := .grab } err')
  | innerReturned {f : JobFunc} {r : Result} (hn : s.inner = .calling f)
      (ho : f.f c.inpack = .returned r.data r.err) :
      Goes c s .inner { s with inner := .sending r }
  | innerDone (hn : s.inner ≠ .idle) : Goes c s .inner { s with inner := .done }
  | received {r : Result} (he : s.exec = some .select) (hn : s.inner = .sending r) :
      Goes c s .receive { s with exec := some (.closeRslt r), inner := .done }
  | timedOut (he : s.exec = some .select) :
      Goes c s .timeout { s with exec := some (.closeRslt { err := some .timeOut }) }
  | tokens (n : ℕ) : Goes c s (.tokens n) { s with tokens := n }
  | close : Goes c s .close { s with running := false }

variable {c : Cfg} {s t : St} {act : Act}

theorem dispatchStep_goes (h : dispatchStep c s = some t) : Goes c s .dispatch t := by
  have hkeep : ∀ {d : Dispatch} {n : ℕ} {l : List (Option ℕ × OutPack)} {e : List Err},
      d ≠ .start → (∀ w ∈ l, isJobPack w.2 = false) → Goes c s .dispatch
        { s with dispatch := d, tokens := n, log := s.log ++ l, reported := e } :=
    fun hd hl => .dispatch hd (Or.inl rfl) hl
  have hnone : ∀ {d : Dispatch} {n : ℕ} {e : List Err}, d ≠ .start →
      Goes c s .dispatch { s with dispatch := d, tokens := n, reported := e } := by
    intro d n e hd
    have h := hkeep (n := n) (e := e) hd (l := []) (by simp)
    rwa [List.append_nil] at h
  have hone : ∀ {outpack : OutPack}, isJobPack outpack = false →
      ∀ w ∈ [(c.inpack.a, outpack)], isJobPack w.2 = false := by
    intro outpack ho w hw
    rw [List.mem_singleton.mp hw]
    exact ho
  unfold dispatchStep at h
  cases hd : s.dispatch with
  | start =>
    simp only [hd] at h
    split_ifs at h
    · cases h
      exact hkeep (by simp) (hone rfl)
    · cases h
      exact hkeep (by simp) (hone rfl)
    · cases h
      have hstart := Goes.dispatch (c := c) (n := s.tokens) (e := s.reported) (l := [])
        (d := .limit) (by simp) (Or.inr ⟨hd, rfl⟩) (by simp)
      rwa [List.append_nil] at hstart
    · cases h
      exact hnone (by simp)
    · cases h
      exact hnone (by simp)
  | limit =>
    simp only [hd] at h
    split at h
    · cases h
      exact hnone (by simp)
    · split_ifs at h
      cases h
      exact hnone (by simp)
  | grab =>
    simp only [hd] at h
    cases h
    exact hkeep (by simp) (hone rfl)
  | done => simp [hd] at h

theorem execStep_goes (h : execStep c s = some t) : Goes c s .exec t := by
  unfold execStep at h
  split at h
  · next he =>
    split at h
    · cases h
      exact .missing he _
    · next f hf =>
      split_ifs at h with ht
      · cases h
        exact .call he hf ht
      · cases h
        exact .spawn he hf ht
  · next f he =>
    split at h
    · next ho =>
      cases h
      exact .returned he ho
    · cases h
      exact .panicked he _
  · next he =>
    cases h
    exact .closeRslt he
  · next he =>
    split_ifs at h
    · cases h
      exact .running he
    · cases h
      exact .stopped he
  · cases h

theorem innerStep_goes (h : innerStep c s = some t) : Goes c s .inner t := by
  unfold innerStep at h
  split at h
  · next f hn =>
    split at h
    · next ho =>
      cases h
      exact .innerReturned hn ho
    · cases h
      exact .innerDone (by simp [hn])
  · next r hn =>
    split_ifs at h
    cases h
    exact .innerDone (by simp [hn])
  · cases h

theorem step_goes (h : step c s act = some t) : Goes c s act t := by
  cases act with
  | dispatch => exact dispatchStep_goes h
  | exec => exact execStep_goes h
  | inner => exact innerStep_goes h
  | write ok =>
    simp only [step] at h
    split at h
    · next he =>
      cases ok with
      | true =>
        cases h
        exact .written he
      | false =>
        cases h
        exact .unwritten he
    · cases h
  | release =>
    simp only [step] at h
    split at h
    · next he =>
      split at h
      · cases h
        exact .released he s.tokens _
      · split_ifs at h
        cases h
        exact .released he _ _
    · cases h
  | rendezvous =>
    simp only [step] at h
    split at h
    · next he _ _ =>
      cases h
      exact .rendezvous he _
    · cases h
  | receive =>
    simp only [step] at h
    split at h
    · next he hn =>
      split_ifs at h
      cases h
      exact .received he hn
    · cases h
  | timeout =>
    simp only [step] at h
    split at h
    · next he =>
      cases h
      exact .timedOut he
    · cases h
  | tokens n =>
    cases h
    exact .tokens n
  | close =>
    cases h
    exact .close

end Exec

namespace Stream
open Transition

/-- `updates` are the calls the function of this job makes, in order, before its outcome. -/
structure Cfg extends Exec.Cfg where
  updates : List Update

structure St where
  job : Exec.St := {}
  todo : List Update

inductive Act
  | job (act : Exec.Act)
  | update (ok : Bool)
deriving DecidableEq, Repr

def calling (s : Exec.St) : Bool :=
  match s.exec, s.inner with
  | some (.call _), _ => true
  | _, .calling _ => true
  | _, _ => false

def ends (s : Exec.St) : Exec.Act → Bool
  | .exec => match s.exec with
    | some (.call _) => true
    | _ => false
  | .inner => match s.inner with
    | .calling _ => true
    | _ => false
  | _ => false

def step (c : Cfg) (s : St) : Act → Option St
  | .job act =>
    if ends s.job act && !s.todo.isEmpty then none
    else (Exec.step c.toCfg s.job act).map (fun job => { s with job })
  | .update ok =>
    match s.todo with
    | [] => none
    | u :: todo =>
      if calling s.job then do
        let outpack ← u.send c.inpack
        -- the error of `a.Write` is dropped
        some { job := if ok then { s.job with log := s.job.log ++ [(c.inpack.a, outpack)] }
                 else s.job
               todo }
      else none

def start (c : Cfg) : St := { todo := c.updates }

/-- What has gone wrong: the updates whose write failed, and whether the timer has fired. -/
structure Mishaps where
  lost : ℕ := 0
  late : Bool := false

def Mishaps.note (m : Mishaps) (_ : St) (a : Act) (_ : St) : Mishaps :=
  match a with
  | .update false => { m with lost := m.lost + 1 }
  | .job .timeout => { m with late := true }
  | _ => m

def timeOut : Result := { err := some .timeOut }

/-- Where a result comes from: the function has made all its calls and returned it, or the
timer has fired. -/
def Earned (c : Cfg) (todo : List Update) (late : Bool) (r : Result) : Prop :=
  ∃ f, c.funcs.lookup c.inpack.fn = some f ∧
    (todo = [] ∧ f.f c.inpack = .returned r.data r.err ∨
      late = true ∧ f.timeout ≠ 0 ∧ r = timeOut)

def St.packs (s : St) : List (Option ℕ × OutPack) := s.job.log.filter (fun w => isJobPack w.2)

def packs (c : Cfg) (before : List Update) (r : Option Result) (after : List Update) :
    List (Option ℕ × OutPack) :=
  (before.map (Update.pack c.inpack) ++ r.toList.map (resultPack c.inpack) ++
    after.map (Update.pack c.inpack)).map (fun outpack => (c.inpack.a, outpack))

/-- The client is told `before`, then the result `r` if there is one yet, then `after`. -/
structure Told (c : Cfg) (s : St) (m : Mishaps) (before : List Update) (r : Option Result)
    (after : List Update) : Prop where
  packs : s.packs = packs c before r after
  kept : (before ++ after ++ s.todo).Sublist c.updates
  lost : (before ++ after ++ s.todo).length + m.lost = c.updates.length
  earned : ∀ r' ∈ r, Earned c s.todo m.late r'
  overtaken : after ≠ [] → m.late = true ∧ r = some timeOut

variable {c : Cfg} {s t : St} {m : Mishaps} {todo : List Update} {u : Update} {r : Result}
variable {before after : List Update} {res : Option Result} {fired : Bool}

theorem Earned.late (h : Earned c todo fired r) : Earned c todo true r := by
  obtain ⟨f, hf, hr | ⟨-, ht, hr⟩⟩ := h
  · exact ⟨f, hf, Or.inl hr⟩
  · exact ⟨f, hf, Or.inr ⟨rfl, ht, hr⟩⟩

theorem Earned.overtaken (h : Earned c (u :: todo) fired r) : fired = true ∧ r = timeOut := by
  obtain ⟨f, -, ⟨h, -⟩ | ⟨hl, -, hr⟩⟩ := h
  · cases h
  · exact ⟨hl, hr⟩

theorem Earned.next (h : Earned c (u :: todo) fired r) : Earned c todo fired r := by
  obtain ⟨f, hf, ⟨h, -⟩ | hr⟩ := h
  · cases h
  · exact ⟨f, hf, Or.inr hr⟩

def PcGrounds (c : Cfg) (todo : List Update) (late : Bool) : Option Exec.Pc → Prop
  | some (.select) => ∃ f, c.funcs.lookup c.inpack.fn = some f ∧ f.timeout ≠ 0
  | some (.call f) => c.funcs.lookup c.inpack.fn = some f
  | some (.closeRslt r) => Earned c todo late r
  | some (.running r) => Earned c todo late r
  | some (.write r) => Earned c todo late r
  | _ => True

def InnerGrounds (c : Cfg) (todo : List Update) : Exec.Inner → Prop
  | .calling f => c.funcs.lookup c.inpack.fn = some f
  | .sending r => todo = [] ∧
      ∃ f, c.funcs.lookup c.inpack.fn = some f ∧ f.f c.inpack = .returned r.data r.err
  | _ => True

structure Inv (c : Cfg) (s : St) (m : Mishaps) : Prop where
  unstarted : s.job.dispatch = .start → s.job.exec = none
  pc : PcGrounds c s.todo m.late s.job.exec
  inner : InnerGrounds c s.todo s.job.inner
  told : ∃ before res after, Told c s m before res after ∧
    (Exec.finished s.job = false → res = none)

theorem inv_start (c : Cfg) : Inv c (start c) {} where
  unstarted := fun _ => rfl
  pc := trivial
  inner := trivial
  told := ⟨[], none, [], ⟨rfl, List.Sublist.refl _, rfl, by simp, by simp⟩, fun _ => rfl⟩

theorem Inv.started (hi : Inv c s m) {pc : Exec.Pc} (he : s.job.exec = some pc) :
    s.job.dispatch ≠ .start := by
  intro h
  cases (hi.unstarted h).symm.trans he

theorem Inv.late (hi : Inv c s m) : Inv c s { m with late := true } where
  unstarted := hi.unstarted
  pc := by
    have hpc := hi.pc
    unfold PcGrounds at hpc ⊢
    split at hpc
    · exact hpc
    · exact hpc
    · exact hpc.late
    · exact hpc.late
    · exact hpc.late
    · trivial
  inner := hi.inner
  told := by
    obtain ⟨before, res, after, h, hres⟩ := hi.told
    exact ⟨before, res, after, { h with
      earned := fun r hr => (h.earned r hr).late
      overtaken := fun ha => ⟨rfl, (h.overtaken ha).2⟩ }, hres⟩

theorem Inv.advance (hi : Inv c s m) {job : Exec.St}
    (hd : job.dispatch = .start → job.exec = none) (hpc : PcGrounds c s.todo m.late job.exec)
    (hin : InnerGrounds c s.todo job.inner)
    (hlog : job.log.filter (fun w => isJobPack w.2) = s.packs)
    (hf : Exec.finished job = false → Exec.finished s.job = false) : Inv c { s with job } m where
  unstarted := hd
  pc := hpc
  inner := hin
  told := by
    obtain ⟨before, res, after, h, hres⟩ := hi.told
    exact ⟨before, res, after, ⟨hlog.trans h.packs, h.kept, h.lost, h.earned, h.overtaken⟩,
      fun hfin => hres (hf hfin)⟩

theorem Inv.deferred (hi : Inv c s m) {pc : Exec.Pc} (he : s.job.exec = some pc)
    (err : Option Err) (v : Option PanicValue) :
    Inv c { s with job := { s.job with exec := some (.deferred err v) } } m :=
  hi.advance (fun h => absurd h (hi.started he)) trivial hi.inner rfl (by simp [Exec.finished])

theorem Inv.written (hi : Inv c s m) (he : s.job.exec = some (.write r)) :
    Inv c { s with job := { s.job with
      exec := some (.deferred r.err none)
      log := s.job.log ++ [(c.inpack.a, resultPack c.inpack r)] } } m where
  unstarted := fun h => absurd h (hi.started he)
  pc := trivial
  inner := hi.inner
  told := by
    obtain ⟨before, res, after, h, hres⟩ := hi.told
    have hnone : res = none := hres (by simp [Exec.finished, he])
    subst hnone
    have hafter : after = [] := by
      by_contra ha
      cases (h.overtaken ha).2
    subst hafter
    have hearned : Earned c s.todo m.late r := by
      have hpc := hi.pc
      rwa [he] at hpc
    refine ⟨before, some r, [], ⟨?_, h.kept, h.lost, ?_, by simp⟩, ?_⟩
    · have hpacks := h.packs
      simp only [St.packs, packs] at hpacks ⊢
      simp [List.filter_append, hpacks, isJobPack_resultPack]
    · intro r' hr'
      cases hr'
      exact hearned
    · intro h
      cases h

theorem Inv.goes (hi : Inv c s m) {act : Exec.Act} {job : Exec.St}
    (hg : Exec.Goes c.toCfg s.job act job) (hend : ends s.job act = true → s.todo = []) :
    Inv c { s with job } (m.note s (.job act) { s with job }) := by
  cases hg with
  | @dispatch d pc n l e hd hpc hl =>
    refine hi.advance (fun h => absurd h hd) ?_ hi.inner ?_ ?_
    · rcases hpc with rfl | ⟨-, rfl⟩
      · exact hi.pc
      · trivial
    · have hnil : l.filter (fun w => isJobPack w.2) = [] :=
        List.filter_eq_nil_iff.mpr (fun w hw => by simp [hl w hw])
      simp [List.filter_append, hnil, St.packs]
    · rcases hpc with rfl | ⟨hstart, rfl⟩
      · exact id
      · intro _
        simp [Exec.finished, hi.unstarted hstart]
  | missing he err => exact hi.deferred he (some err) none
  | call he hf ht =>
    exact hi.advance (fun h => absurd h (hi.started he)) hf hi.inner rfl
      (by simp [Exec.finished, he])
  | @spawn f he hf ht =>
    exact hi.advance (fun h => absurd h (hi.started he)) ⟨f, hf, ht⟩ hf rfl
      (by simp [Exec.finished, he])
  | @returned f r he ho =>
    have hpc := hi.pc
    rw [he] at hpc
    exact hi.advance (fun h => absurd h (hi.started he))
      ⟨f, hpc, Or.inl ⟨hend (by simp [ends, he]), ho⟩⟩ hi.inner rfl (by simp [Exec.finished, he])
  | panicked he v => exact hi.deferred he none (some v)
  | closeRslt he =>
    have hpc := hi.pc
    rw [he] at hpc
    exact hi.advance (fun h => absurd h (hi.started he)) hpc hi.inner rfl
      (by simp [Exec.finished, he])
  | running he =>
    have hpc := hi.pc
    rw [he] at hpc
    exact hi.advance (fun h => absurd h (hi.started he)) hpc hi.inner rfl
      (by simp [Exec.finished, he])
  | stopped he => exact hi.deferred he none none
  | written he => exact hi.written he
  | @unwritten r he => exact hi.deferred he r.err none
  | released he n err' =>
    exact hi.advance (fun h => absurd h (hi.started he)) trivial hi.inner rfl
      (by simp [Exec.finished, Exec.finish])
  | rendezvous he err' =>
    exact hi.advance (fun h => by cases h) trivial hi.inner rfl
      (by simp [Exec.finished, Exec.finish])
  | @innerReturned f r hn ho =>
    have hin := hi.inner
    rw [hn] at hin
    exact hi.advance hi.unstarted hi.pc ⟨hend (by simp [ends, hn]), f, hin, ho⟩ rfl id
  | innerDone hn => exact hi.advance hi.unstarted hi.pc trivial rfl id
  | @received r he hn =>
    have hin := hi.inner
    rw [hn] at hin
    obtain ⟨htodo, f, hf, ho⟩ := hin
    exact hi.advance (fun h => absurd h (hi.started he)) ⟨f, hf, Or.inl ⟨htodo, ho⟩⟩ trivial rfl
      (by simp [Exec.finished, he])
  | timedOut he =>
    have hpc := hi.pc
    rw [he] at hpc
    obtain ⟨f, hf, ht⟩ := hpc
    exact hi.late.advance (fun h => absurd h (hi.started he)) ⟨f, hf, Or.inr ⟨rfl, ht, rfl⟩⟩
      hi.inner rfl (by simp [Exec.finished, he])
  | tokens n => exact hi.advance hi.unstarted hi.pc hi.inner rfl id
  | close => exact hi.advance hi.unstarted hi.pc hi.inner rfl id

theorem PcGrounds.next {pc : Option Exec.Pc} (h : PcGrounds c (u :: todo) fired pc) :
    PcGrounds c todo fired pc := by
  unfold PcGrounds at h ⊢
  split at h
  · exact h
  · exact h
  · exact h.next
  · exact h.next
  · exact h.next
  · trivial

theorem InnerGrounds.next {inner : Exec.Inner} (h : InnerGrounds c (u :: todo) inner) :
    InnerGrounds c todo inner := by
  cases inner with
  | sending r => cases h.1
  | _ => exact h

theorem Told.lose (h : Told c s m before res after) (ht : s.todo = u :: todo) :
    Told c { s with todo } { m with lost := m.lost + 1 } before res after where
  packs := h.packs
  kept := by
    refine List.Sublist.trans ?_ h.kept
    rw [ht]
    exact List.Sublist.append_left (List.sublist_cons_self u todo) _
  lost := by
    have hlost := h.lost
    rw [ht] at hlost
    simp only [List.length_append, List.length_cons] at hlost ⊢
    omega
  earned := by
    intro r hr
    have hearned := h.earned r hr
    rw [ht] at hearned
    exact hearned.next
  overtaken := h.overtaken

theorem Told.update (h : Told c s m before res after) (ht : s.todo = u :: todo) :
    ∃ before after, Told c
      ⟨{ s.job with log := s.job.log ++ [(c.inpack.a, u.pack c.inpack)] }, todo⟩ m
      before res after := by
  have hkept := h.kept
  have hlost := h.lost
  have hpacks := h.packs
  rw [ht] at hkept hlost
  simp only [St.packs, Stream.packs] at hpacks
  cases res with
  | none =>
    have hafter : after = [] := by
      by_contra ha
      cases (h.overtaken ha).2
    subst hafter
    refine ⟨before ++ [u], [], ?_, ?_, ?_, by simp, by simp⟩
    · simp [St.packs, Stream.packs, List.filter_append, hpacks, isJobPack_pack]
    · simpa using hkept
    · simpa using hlost
  | some r =>
    have hearned := h.earned r rfl
    rw [ht] at hearned
    obtain ⟨hlate, rfl⟩ := hearned.overtaken
    refine ⟨before, after ++ [u], ?_, ?_, ?_, ?_, fun _ => ⟨hlate, rfl⟩⟩
    · simp [St.packs, Stream.packs, List.filter_append, hpacks, isJobPack_pack]
    · simpa using hkept
    · simpa using hlost
    · intro r' hr'
      cases hr'
      exact hearned.next

theorem step_update {ok : Bool} (h : step c s (.update ok) = some t) :
    ∃ u todo, s.todo = u :: todo ∧
      t = { job := if ok then { s.job with log := s.job.log ++ [(c.inpack.a, u.pack c.inpack)] }
              else s.job
            todo } := by
  simp only [step] at h
  split at h
  · cases h
  · next u todo ht =>
    split at h
    · simp only [Update.send_eq, Option.bind_eq_bind, Option.bind_some, Option.some.injEq] at h
      exact ⟨u, todo, ht, h.symm⟩
    · cases h

theorem Inv.update (hi : Inv c s m) {ok : Bool} (h : step c s (.update ok) = some t) :
    Inv c t (m.note s (.update ok) t) := by
  obtain ⟨u, todo, ht, rfl⟩ := step_update h
  obtain ⟨before, res, after, htold, hres⟩ := hi.told
  have hpc := hi.pc
  have hin := hi.inner
  rw [ht] at hpc hin
  cases ok with
  | true =>
    obtain ⟨before', after', htold'⟩ := htold.update ht
    exact ⟨hi.unstarted, hpc.next, hin.next, before', res, after', htold', hres⟩
  | false => exact ⟨hi.unstarted, hpc.next, hin.next, before, res, after, htold.lose ht, hres⟩

theorem Inv.step (hi : Inv c s m) {a : Act} (h : step c s a = some t) : Inv c t (m.note s a t) := by
  cases a with
  | update ok => exact hi.update h
  | job act =>
    simp only [Stream.step] at h
    split_ifs at h with hend
    obtain ⟨job, hjob, rfl⟩ := Option.map_eq_some_iff.mp h
    refine hi.goes (Exec.step_goes hjob) ?_
    intro he
    simpa [he] using hend

theorem Inv.run {allow : St × Mishaps → Act → Bool} {acts : List Act}
    (h : Transition.run (traced (Stream.step c) Mishaps.note) allow (start c, {}) acts =
      some (s, m)) : Inv c s m :=
  run_invariant (I := fun x => Inv c x.1 x.2)
    (fun x a y hx _ hy => by
      obtain ⟨hstep, hnote⟩ := traced_eq_some.mp hy
      exact hnote ▸ hx.step hstep) h (inv_start c)

/-- A function with a timeout that sends once before the timer and once after it. -/
def overtaken : Cfg where
  inpack := { dataType := dtJobAssign, handle := [72], fn := [102], a := some 0 }
  funcs := AList.insert [102] ⟨fun _ => .returned [] none, 1⟩ ∅
  limit := none
  jobHandler := none
  updates := [.data [1], .data [2]]

def overtakenActs : List Act :=
  [.job .dispatch, .job .exec, .update true, .job .timeout, .job .exec, .job .exec,
    .job (.write true), .update true]

end Stream
end Gearman.Worker
