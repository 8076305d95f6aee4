import Gearman.Transition
import Gearman.WorkerPacket
import Mathlib.Data.List.AList

/-!
# Execution of one dispatched job

The dispatcher runs `handleInPack` on one packet: a job starts the goroutine of
`exec`, then a token is sent on `limit` and the agent grabs again. `exec` looks the
function up and either calls it itself or hands it to the goroutine of
`execTimeout`, whose result races the timer over the unbuffered channel `rslt`.
Every lock-protected region and every channel operation is one step. The job
function is its outcome; the environment decides whether the timer fires before it,
closes the worker, fails a write or takes and adds tokens of other jobs.
-/

namespace Gearman.Worker

inductive PanicValue
  | error (e : Err)
  | other
deriving DecidableEq, Repr

inductive Outcome
  | returned (data : Bytes) (err : Option Err)
  | panicked (v : PanicValue)
deriving DecidableEq, Repr

structure JobFunc where
  f : InPack → Outcome
  timeout : UInt32

abbrev JobFuncs := AList (fun _ : Bytes => JobFunc)

structure Result where
  data : Bytes := []
  err : Option Err
deriving DecidableEq, Repr

def resultPack (inpack : InPack) (r : Result) : OutPack where
  dataType :=
    if r.err = none then dtWorkComplete
    else if r.data.length = 0 then dtWorkFail else dtWorkException
  handle := inpack.handle
  data := r.data

def isTerminal (outpack : OutPack) : Bool :=
  outpack.dataType = dtWorkComplete || outpack.dataType = dtWorkFail ||
    outpack.dataType = dtWorkException

@[simp] theorem resultPack_terminal (inpack : InPack) (r : Result) :
    isTerminal (resultPack inpack r) = true := by
  unfold resultPack isTerminal
  split_ifs <;> simp

theorem Update.isTerminal_pack (inpack : InPack) (u : Update) :
    isTerminal (u.pack inpack) = false := by
  cases u <;> rfl

namespace Exec
open Transition

inductive Dispatch
  | start
  | limit
  | grab
  | done
deriving DecidableEq, Repr

inductive Pc
  | lookup
  | call (f : JobFunc)
  | select
  | closeRslt (r : Result)
  | running (r : Result)
  | write (r : Result)
  | deferred (err : Option Err) (recovered : Option PanicValue)
  | returned (err : Option Err)

inductive Inner
  | idle
  | calling (f : JobFunc)
  | sending (r : Result)
  | done

structure Cfg where
  inpack : InPack
  funcs : JobFuncs
  limit : Option ℕ
  jobHandler : Option (InPack → Option Err)

structure St where
  dispatch : Dispatch := .start
  exec : Option Pc := none
  inner : Inner := .idle
  rsltClosed : Bool := false
  running : Bool := true
  tokens : ℕ := 0
  log : List (Option ℕ × OutPack) := []
  reported : List Err := []

inductive Act
  | dispatch
  | rendezvous
  | exec
  | write (ok : Bool)
  | release
  | inner
  | receive
  | timeout
  | tokens (n : ℕ)
  | close
deriving DecidableEq, Repr

def funcMissing (fn : Bytes) : Err := .errorf "The function does not exist: %s" [.bytes fn]

def isJob (inpack : InPack) : Bool :=
  inpack.dataType = dtJobAssign || inpack.dataType = dtJobAssignUniq

def customeHandler (c : Cfg) : List Err :=
  match c.jobHandler with
  | none => []
  | some h => (h c.inpack).toList

def dispatchStep (c : Cfg) (s : St) : Option St :=
  match s.dispatch with
  | .start =>
    if c.inpack.dataType = dtNoJob then
      some { s with dispatch := .done, log := s.log ++ [(c.inpack.a, { dataType := dtPreSleep })] }
    else if c.inpack.dataType = dtNoop then
      some { s with
        dispatch := .done
        log := s.log ++ [(c.inpack.a, { dataType := dtGrabJobUniq })] }
    else if isJob c.inpack then some { s with dispatch := .limit, exec := some .lookup }
    else if c.inpack.dataType = dtError then
      some { s with
        dispatch := .done
        reported := s.reported ++ getError c.inpack.data :: customeHandler c }
    else some { s with dispatch := .done, reported := s.reported ++ customeHandler c }
  | .limit =>
    match c.limit with
    | none => some { s with dispatch := .grab }
    | some cap =>
      if s.tokens < cap then some { s with dispatch := .grab, tokens := s.tokens + 1 } else none
  | .grab =>
    some { s with dispatch := .done, log := s.log ++ [(c.inpack.a, { dataType := dtGrabJobUniq })] }
  | .done => none

/-- The value the deferred function leaves in `err`. -/
def recovered : Option Err → Option PanicValue → Option Err
  | err, none => err
  | _, some (.error e) => some e
  | _, some .other => some .unknown

def execStep (c : Cfg) (s : St) : Option St :=
  match s.exec with
  | some .lookup =>
    match c.funcs.lookup c.inpack.fn with
    | none => some { s with exec := some (.deferred (some (funcMissing c.inpack.fn)) none) }
    | some f =>
      if f.timeout = 0 then some { s with exec := some (.call f) }
      else some { s with exec := some .select, inner := .calling f }
  | some (.call f) =>
    match f.f c.inpack with
    | .returned data err => some { s with exec := some (.running { data, err }) }
    | .panicked v => some { s with exec := some (.deferred none (some v)) }
  | some (.closeRslt r) => some { s with exec := some (.running r), rsltClosed := true }
  | some (.running r) =>
    if s.running then some { s with exec := some (.write r) }
    else some { s with exec := some (.deferred none none) }
  | _ => none

def innerStep (c : Cfg) (s : St) : Option St :=
  match s.inner with
  | .calling f =>
    match f.f c.inpack with
    | .returned data err => some { s with inner := .sending { data, err } }
    | .panicked _ => some { s with inner := .done }
  | .sending _ => if s.rsltClosed then some { s with inner := .done } else none
  | _ => none

def finish (s : St) (err : Option Err) : St :=
  { s with exec := some (.returned err), reported := s.reported ++ err.toList }

def step (c : Cfg) (s : St) : Act → Option St
  | .dispatch => dispatchStep c s
  | .exec => execStep c s
  | .inner => innerStep c s
  | .write ok =>
    match s.exec with
    | some (.write r) =>
      some { s with
        exec := some (.deferred r.err none)
        log := if ok then s.log ++ [(c.inpack.a, resultPack c.inpack r)] else s.log }
    | _ => none
  | .release =>
    match s.exec with
    | some (.deferred err v) =>
      match c.limit with
      | none => some (finish s (recovered err v))
      | some _ =>
        if 0 < s.tokens then some (finish { s with tokens := s.tokens - 1 } (recovered err v))
        else none
    | _ => none
  | .rendezvous =>
    match s.exec, s.dispatch, c.limit with
    | some (.deferred err v), .limit, some 0 =>
      some (finish { s with dispatch := .grab } (recovered err v))
    | _, _, _ => none
  | .receive =>
    match s.exec, s.inner with
    | some .select, .sending r =>
      if s.rsltClosed then none else some { s with exec := some (.closeRslt r), inner := .done }
    | _, _ => none
  | .timeout =>
    match s.exec with
    | some .select => some { s with exec := some (.closeRslt { err := some .timeOut }) }
    | _ => none
  | .tokens n => some { s with tokens := n }
  | .close => some { s with running := false }

/-- Neither the worker is closed nor a write fails. -/
def steady : St → Act → Bool
  | _, .close => false
  | _, .write false => false
  | _, _ => true

def terminals (s : St) : List (Option ℕ × OutPack) := s.log.filter (fun w => isTerminal w.2)

def finished (s : St) : Bool :=
  match s.exec with
  | some (.deferred _ _) => true
  | some (.returned _) => true
  | _ => false

def Answers (c : Cfg) : Prop :=
  ∃ f, c.funcs.lookup c.inpack.fn = some f ∧
    (f.timeout ≠ 0 ∨ ∃ data err, f.f c.inpack = .returned data err)

def AnsweredOnce (c : Cfg) : Prop :=
  ∀ s, Reachable (step c) steady {} s →
    (terminals s).length ≤ 1 ∧
    (∀ w ∈ terminals s, w.1 = c.inpack.a ∧ w.2.handle = c.inpack.handle) ∧
    (finished s = true → (terminals s).length = 1) ∧
    ∃ t, Reachable (step c) steady s t ∧ finished t = true

def PcFacts (c : Cfg) : Option Pc → Prop
  | some (.call f) => c.funcs.lookup c.inpack.fn = some f ∧ f.timeout = 0
  | some .select => Answers c
  | some (.closeRslt _) => Answers c
  | some (.running _) => Answers c
  | some (.write _) => Answers c
  | _ => True

structure Inv (c : Cfg) (s : St) : Prop where
  start : s.dispatch = .start ↔ s.exec = none
  running : s.running = true
  facts : PcFacts c s.exec
  pending : finished s = false → terminals s = []
  answered : finished s = true → Answers c →
    ∃ r, terminals s = [(c.inpack.a, resultPack c.inpack r)]
  silent : finished s = true → ¬ Answers c → terminals s = []

theorem inv_start (c : Cfg) : Inv c {} where
  start := by simp
  running := rfl
  facts := trivial
  pending := fun _ => rfl
  answered := fun h => absurd h (by decide)
  silent := fun h => absurd h (by decide)

theorem Inv.started {c : Cfg} {s : St} (hi : Inv c s) {pc : Pc} (he : s.exec = some pc) :
    s.dispatch ≠ .start := by
  intro h
  rw [hi.start.mp h] at he
  cases he

theorem Inv.frame {c : Cfg} {s t : St} (hi : Inv c s) (he : t.exec = s.exec)
    (hd : t.dispatch = .start ↔ s.dispatch = .start) (hr : t.running = s.running)
    (hl : terminals t = terminals s) : Inv c t := by
  have hf : finished t = finished s := by simp [finished, he]
  refine ⟨?_, hr.trans hi.running, he ▸ hi.facts, ?_, ?_, ?_⟩
  · rw [hd, he]
    exact hi.start
  · rw [hf, hl]
    exact hi.pending
  · rw [hf, hl]
    exact hi.answered
  · rw [hf, hl]
    exact hi.silent

theorem Inv.advance {c : Cfg} {s t : St} (hi : Inv c s) (hs : finished s = false) {pc : Pc}
    (he : t.exec = some pc) (ht : finished t = false) (hp : PcFacts c (some pc))
    (hd : t.dispatch ≠ .start) (hr : t.running = s.running)
    (hl : terminals t = terminals s) : Inv c t := by
  refine ⟨?_, hr.trans hi.running, he ▸ hp, ?_, ?_, ?_⟩
  · simp [hd, he]
  · intro _
    rw [hl, hi.pending hs]
  · intro h
    simp [ht] at h
  · intro h
    simp [ht] at h

theorem Inv.finish {c : Cfg} {s t : St} (hi : Inv c s) {err : Option Err} {v : Option PanicValue}
    (he : t.exec = some (.deferred err v)) (hd : t.dispatch ≠ .start)
    (hr : t.running = s.running)
    (ha : Answers c → ∃ r, terminals t = [(c.inpack.a, resultPack c.inpack r)])
    (hn : ¬ Answers c → terminals t = []) : Inv c t := by
  have hf : finished t = true := by simp [finished, he]
  refine ⟨by simp [hd, he], hr.trans hi.running, ?_, ?_, fun _ => ha, fun _ => hn⟩
  · rw [he]
    trivial
  · intro h
    simp [hf] at h

theorem Inv.retire {c : Cfg} {s t : St} (hi : Inv c s) (hs : finished s = true)
    {err : Option Err} (he : t.exec = some (.returned err)) (hd : t.dispatch ≠ .start)
    (hr : t.running = s.running) (hl : terminals t = terminals s) : Inv c t := by
  have hf : finished t = true := by simp [finished, he]
  refine ⟨by simp [hd, he], hr.trans hi.running, ?_, ?_, fun _ => ?_, fun _ => ?_⟩
  · rw [he]
    trivial
  · intro h
    simp [hf] at h
  · rw [hl]
    exact hi.answered hs
  · rw [hl]
    exact hi.silent hs

theorem job_types {c : Cfg} (hjob : isJob c.inpack = true) :
    c.inpack.dataType ≠ dtNoJob ∧ c.inpack.dataType ≠ dtNoop := by
  constructor
  · intro he
    rw [isJob, he] at hjob
    exact absurd hjob (by decide)
  · intro he
    rw [isJob, he] at hjob
    exact absurd hjob (by decide)

theorem terminals_append_grab (s : St) (a : Option ℕ) :
    (s.log ++ [(a, ({ dataType := dtGrabJobUniq } : OutPack))]).filter (fun w => isTerminal w.2) =
      terminals s := by
  rw [List.filter_append]
  exact List.append_nil _

theorem dispatchStep_inv {c : Cfg} (hjob : isJob c.inpack = true) {s t : St} (hi : Inv c s)
    (h : dispatchStep c s = some t) : Inv c t := by
  obtain ⟨hno, hnoop⟩ := job_types hjob
  unfold dispatchStep at h
  cases hd : s.dispatch with
  | start =>
    simp only [hd, hno, hnoop, hjob, if_false, if_true, Option.some.injEq] at h
    subst h
    have he := hi.start.mp hd
    exact hi.advance (by simp [finished, he]) rfl rfl trivial (by simp) rfl rfl
  | limit =>
    simp only [hd] at h
    split at h
    · cases h
      exact hi.frame rfl (by simp [hd]) rfl rfl
    · split_ifs at h
      cases h
      exact hi.frame rfl (by simp [hd]) rfl rfl
  | grab =>
    simp only [hd, Option.some.injEq] at h
    subst h
    exact hi.frame rfl (by simp [hd]) rfl (terminals_append_grab s _)
  | done => simp [hd] at h

theorem execStep_inv {c : Cfg} {s t : St} (hi : Inv c s) (h : execStep c s = some t) :
    Inv c t := by
  unfold execStep at h
  cases he : s.exec with
  | none => simp [he] at h
  | some pc =>
    have hd := hi.started he
    have hfacts := hi.facts
    rw [he] at hfacts
    cases pc with
    | lookup =>
      have hs : finished s = false := by simp [finished, he]
      simp only [he] at h
      cases hf : c.funcs.lookup c.inpack.fn with
      | none =>
        simp only [hf, Option.some.injEq] at h
        subst h
        refine hi.finish rfl hd rfl ?_ ?_
        · rintro ⟨f, hf', -⟩
          rw [hf] at hf'
          cases hf'
        · intro _
          exact hi.pending hs
      | some f =>
        simp only [hf] at h
        split_ifs at h with ht
        · cases h
          exact hi.advance hs rfl rfl ⟨hf, ht⟩ hd rfl rfl
        · cases h
          exact hi.advance hs rfl rfl ⟨f, hf, Or.inl ht⟩ hd rfl rfl
    | call f =>
      have hs : finished s = false := by simp [finished, he]
      obtain ⟨hf, ht⟩ := hfacts
      simp only [he] at h
      cases ho : f.f c.inpack with
      | returned data err =>
        simp only [ho, Option.some.injEq] at h
        subst h
        exact hi.advance hs rfl rfl ⟨f, hf, Or.inr ⟨data, err, ho⟩⟩ hd rfl rfl
      | panicked v =>
        simp only [ho, Option.some.injEq] at h
        subst h
        refine hi.finish rfl hd rfl ?_ ?_
        · rintro ⟨g, hg, hcond⟩
          rw [hf] at hg
          cases hg
          rcases hcond with hcond | ⟨data, err, hcond⟩
          · exact absurd ht hcond
          · rw [ho] at hcond
            cases hcond
        · intro _
          exact hi.pending hs
    | closeRslt r =>
      have hs : finished s = false := by simp [finished, he]
      simp only [he, Option.some.injEq] at h
      subst h
      exact hi.advance hs rfl rfl hfacts hd rfl rfl
    | running r =>
      have hs : finished s = false := by simp [finished, he]
      simp only [he, hi.running, if_true, Option.some.injEq] at h
      subst h
      exact hi.advance hs rfl rfl hfacts hd hi.running.symm rfl
    | select => simp [he] at h
    | write r => simp [he] at h
    | deferred err v => simp [he] at h
    | returned err => simp [he] at h

theorem innerStep_inv {c : Cfg} {s t : St} (hi : Inv c s) (h : innerStep c s = some t) :
    Inv c t := by
  unfold innerStep at h
  cases hn : s.inner with
  | idle => simp [hn] at h
  | calling f =>
    simp only [hn] at h
    split at h
    · cases h
      exact hi.frame rfl Iff.rfl rfl rfl
    · cases h
      exact hi.frame rfl Iff.rfl rfl rfl
  | sending r =>
    simp only [hn] at h
    split_ifs at h
    cases h
    exact hi.frame rfl Iff.rfl rfl rfl
  | done => simp [hn] at h

theorem write_inv {c : Cfg} {s t : St} (hi : Inv c s) (h : step c s (.write true) = some t) :
    Inv c t := by
  simp only [step, if_true] at h
  split at h
  · rename_i r he
    have hs : finished s = false := by simp [finished, he]
    have hfacts := hi.facts
    rw [he] at hfacts
    cases h
    refine hi.finish rfl (hi.started he) rfl ?_ ?_
    · intro _
      refine ⟨r, ?_⟩
      have hnil : s.log.filter (fun w => isTerminal w.2) = [] := hi.pending hs
      simp [terminals, List.filter_append, hnil]
    · intro hna
      exact absurd hfacts hna
  · cases h

theorem release_inv {c : Cfg} {s t : St} (hi : Inv c s) (h : step c s .release = some t) :
    Inv c t := by
  simp only [step] at h
  split at h
  · rename_i err v he
    have hs : finished s = true := by simp [finished, he]
    split at h
    · cases h
      exact hi.retire hs rfl (hi.started he) rfl rfl
    · split_ifs at h
      cases h
      exact hi.retire hs rfl (hi.started he) rfl rfl
  · cases h

theorem rendezvous_inv {c : Cfg} {s t : St} (hi : Inv c s)
    (h : step c s .rendezvous = some t) : Inv c t := by
  simp only [step] at h
  split at h
  · rename_i err v he hd hc
    have hs : finished s = true := by simp [finished, he]
    cases h
    exact hi.retire hs rfl (by simp [finish]) rfl rfl
  · cases h

theorem receive_inv {c : Cfg} {s t : St} (hi : Inv c s) (h : step c s .receive = some t) :
    Inv c t := by
  simp only [step] at h
  split at h
  · rename_i r he hn
    have hs : finished s = false := by simp [finished, he]
    have hfacts := hi.facts
    rw [he] at hfacts
    split_ifs at h
    cases h
    exact hi.advance hs rfl rfl hfacts (hi.started he) rfl rfl
  · cases h

theorem timeout_inv {c : Cfg} {s t : St} (hi : Inv c s) (h : step c s .timeout = some t) :
    Inv c t := by
  simp only [step] at h
  split at h
  · rename_i he
    have hs : finished s = false := by simp [finished, he]
    have hfacts := hi.facts
    rw [he] at hfacts
    cases h
    exact hi.advance hs rfl rfl hfacts (hi.started he) rfl rfl
  · cases h

theorem step_inv {c : Cfg} (hjob : isJob c.inpack = true) {s t : St} {a : Act} (hi : Inv c s)
    (ha : steady s a = true) (h : step c s a = some t) : Inv c t := by
  cases a with
  | dispatch => exact dispatchStep_inv hjob hi h
  | rendezvous => exact rendezvous_inv hi h
  | exec => exact execStep_inv hi h
  | write ok =>
    cases ok with
    | false => cases ha
    | true => exact write_inv hi h
  | release => exact release_inv hi h
  | inner => exact innerStep_inv hi h
  | receive => exact receive_inv hi h
  | timeout => exact timeout_inv hi h
  | tokens n =>
    cases h
    exact hi.frame rfl Iff.rfl rfl rfl
  | close => cases ha

theorem run_inv {c : Cfg} (hjob : isJob c.inpack = true) {s : St}
    (h : Reachable (step c) steady {} s) : Inv c s :=
  h.invariant (inv_start c) (fun _ _ _ hi ha hs => step_inv hjob hi ha hs)

theorem finishes_write {c : Cfg} {s : St} {r : Result} (he : s.exec = some (.write r)) :
    ∃ t, Reachable (step c) steady s t ∧ finished t = true := by
  have h : step c s (.write true) = some { s with
      exec := some (.deferred r.err none)
      log := s.log ++ [(c.inpack.a, resultPack c.inpack r)] } := by
    simp [step, he]
  exact ⟨_, .single rfl h, rfl⟩

theorem finishes_running {c : Cfg} {s : St} {r : Result} (hr : s.running = true)
    (he : s.exec = some (.running r)) :
    ∃ t, Reachable (step c) steady s t ∧ finished t = true := by
  have h : step c s .exec = some { s with exec := some (.write r) } := by
    simp [step, execStep, he, hr]
  obtain ⟨t, ht, hf⟩ := finishes_write (c := c) (s := { s with exec := some (.write r) }) rfl
  exact ⟨t, .head rfl h ht, hf⟩

theorem finishes_closeRslt {c : Cfg} {s : St} {r : Result} (hr : s.running = true)
    (he : s.exec = some (.closeRslt r)) :
    ∃ t, Reachable (step c) steady s t ∧ finished t = true := by
  have h : step c s .exec = some { s with exec := some (.running r), rsltClosed := true } := by
    simp [step, execStep, he]
  obtain ⟨t, ht, hf⟩ := finishes_running (c := c)
    (s := { s with exec := some (.running r), rsltClosed := true }) hr rfl
  exact ⟨t, .head rfl h ht, hf⟩

theorem finishes_select {c : Cfg} {s : St} (hr : s.running = true)
    (he : s.exec = some .select) :
    ∃ t, Reachable (step c) steady s t ∧ finished t = true := by
  have h : step c s .timeout =
      some { s with exec := some (.closeRslt { err := some .timeOut }) } := by
    simp [step, he]
  obtain ⟨t, ht, hf⟩ := finishes_closeRslt (c := c)
    (s := { s with exec := some (.closeRslt { err := some .timeOut }) }) hr rfl
  exact ⟨t, .head rfl h ht, hf⟩

theorem finishes_call {c : Cfg} {s : St} {f : JobFunc} (hr : s.running = true)
    (he : s.exec = some (.call f)) :
    ∃ t, Reachable (step c) steady s t ∧ finished t = true := by
  cases ho : f.f c.inpack with
  | returned data err =>
    have h : step c s .exec = some { s with exec := some (.running { data, err }) } := by
      simp [step, execStep, he, ho]
    obtain ⟨t, ht, hf⟩ := finishes_running (c := c)
      (s := { s with exec := some (.running { data, err }) }) hr rfl
    exact ⟨t, .head rfl h ht, hf⟩
  | panicked v =>
    have h : step c s .exec = some { s with exec := some (.deferred none (some v)) } := by
      simp [step, execStep, he, ho]
    exact ⟨_, .single rfl h, rfl⟩

theorem finishes_lookup {c : Cfg} {s : St} (hr : s.running = true)
    (he : s.exec = some .lookup) :
    ∃ t, Reachable (step c) steady s t ∧ finished t = true := by
  cases hf : c.funcs.lookup c.inpack.fn with
  | none =>
    have h : step c s .exec =
        some { s with exec := some (.deferred (some (funcMissing c.inpack.fn)) none) } := by
      simp [step, execStep, he, hf]
    exact ⟨_, .single rfl h, rfl⟩
  | some f =>
    by_cases ht : f.timeout = 0
    · have h : step c s .exec = some { s with exec := some (.call f) } := by
        simp [step, execStep, he, hf, ht]
      obtain ⟨t, hrun, hfin⟩ := finishes_call (c := c) (s := { s with exec := some (.call f) })
        hr rfl
      exact ⟨t, .head rfl h hrun, hfin⟩
    · have h : step c s .exec = some { s with exec := some .select, inner := .calling f } := by
        simp [step, execStep, he, hf, ht]
      obtain ⟨t, hrun, hfin⟩ := finishes_select (c := c)
        (s := { s with exec := some .select, inner := .calling f }) hr rfl
      exact ⟨t, .head rfl h hrun, hfin⟩

/-- No reachable state keeps `exec` from ending its body. -/
theorem finishes {c : Cfg} (hjob : isJob c.inpack = true) {s : St} (hi : Inv c s) :
    ∃ t, Reachable (step c) steady s t ∧ finished t = true := by
  cases he : s.exec with
  | none =>
    obtain ⟨hno, hnoop⟩ := job_types hjob
    have h : step c s .dispatch = some { s with dispatch := .limit, exec := some .lookup } := by
      simp [step, dispatchStep, hi.start.mpr he, hno, hnoop, hjob]
    obtain ⟨t, ht, hf⟩ := finishes_lookup (c := c)
      (s := { s with dispatch := .limit, exec := some .lookup }) hi.running rfl
    exact ⟨t, .head rfl h ht, hf⟩
  | some pc =>
    cases pc with
    | lookup => exact finishes_lookup hi.running he
    | call f => exact finishes_call hi.running he
    | select => exact finishes_select hi.running he
    | closeRslt r => exact finishes_closeRslt hi.running he
    | running r => exact finishes_running hi.running he
    | write r => exact finishes_write he
    | deferred err v => exact ⟨s, .refl s, by simp [finished, he]⟩
    | returned err => exact ⟨s, .refl s, by simp [finished, he]⟩

/-- A job is answered exactly once if and only if its function is registered and a
panic of it is not taken by `exec` itself. -/
theorem answeredOnce_iff (c : Cfg) (hjob : isJob c.inpack = true) :
    AnsweredOnce c ↔ Answers c := by
  constructor
  · intro h
    obtain ⟨t, ht, hf⟩ := finishes hjob (inv_start c)
    by_contra hna
    have hone := (h t ht).2.2.1 hf
    rw [(run_inv hjob ht).silent hf hna] at hone
    cases hone
  · intro ha s hs
    have hi := run_inv hjob hs
    have hfin := finishes hjob hi
    cases hf : finished s with
    | false => simp [hi.pending hf, hfin]
    | true =>
      obtain ⟨r, hr⟩ := hi.answered hf ha
      simp [hr, hfin, resultPack]

def demoPack (fn : Bytes) : InPack :=
  { dataType := dtJobAssign, handle := [72], fn, a := some 0 }

def demoFuncs : JobFuncs :=
  (∅ : JobFuncs).insert [102] { f := fun _ => .returned [1] none, timeout := 0 }

theorem answeredOnce_registered :
    AnsweredOnce ⟨demoPack [102], demoFuncs, some 0, none⟩ := by
  rw [answeredOnce_iff _ (by decide)]
  exact ⟨_, AList.lookup_insert _, Or.inr ⟨[1], none, rfl⟩⟩

theorem not_answeredOnce_unregistered :
    ¬ AnsweredOnce ⟨demoPack [103], demoFuncs, some 0, none⟩ := by
  intro h
  have hrun := h _ ⟨[.dispatch, .exec], rfl⟩
  exact absurd (hrun.2.2.1 rfl) (by decide)

end Exec
end Gearman.Worker
