import Gearman.ClientCorrelation

/-!
# Which connection a timed-out call closes

`do` and `Echo` answer a timeout with `closeConn`, which closes whatever is published at
that moment. The connection that the request was written on is published or closed by then.
As long as it is open it is the one that is published; once it is closed, the published one
is another.
-/

namespace Gearman.Client
open Transition

def Conn.callers (conn : Conn) : List (Option ℕ) := conn.reqs.map Request.call

def Wrote (s : St) (i c : ℕ) : Prop := some i ∈ (s.conns c).callers

def Closes (s t : St) (c : ℕ) : Prop := (s.conns c).closed = false ∧ (t.conns c).closed = true

/-- Requests of calls are on published connections, each call has written at most one, and
one that waits for its reply has. -/
structure Sent (s : St) : Prop where
  retired : ∀ i c, Wrote s i c → c < s.nconn ∧ (s.conn = some c ∨ (s.conns c).closed = true)
  unsent : ∀ i c, (∀ call, s.calls i = some call → call.pc.unsent = true) → ¬ Wrote s i c
  unique : ∀ i c c', Wrote s i c → Wrote s i c' → c = c'
  awaiting : ∀ i call, s.calls i = some call → call.op ≠ .close → call.pc.awaiting = true →
    ∃ c, Wrote s i c

variable {cfg : Cfg} {s t : St} {a : Act} {i c : ℕ} {call : Call}

theorem request_call (op : Op) (i : ℕ) : (op.request i).call = some i := by
  cases op <;> rfl

theorem setConnAt_callers {d : ℕ} {conn : Conn} (h : conn.callers = (s.conns d).callers) (c : ℕ) :
    ((s.setConnAt d conn).conns c).callers = (s.conns c).callers := by
  by_cases hd : c = d
  · subst hd
    rw [setConnAt_self, h]
  · rw [setConnAt_ne hd]

theorem callers_answered {reqs : List Request} {k : ℕ} {r : Request} (hr : reqs[k]? = some r) :
    (reqs.set k { r with answered := true }).map Request.call = reqs.map Request.call := by
  refine List.ext_getElem? ?_
  intro n
  rw [List.getElem?_map, List.getElem?_map, List.getElem?_set]
  split_ifs with hn hlt
  · subst hn
    rw [hr]
    rfl
  · subst hn
    rw [List.getElem?_eq_none (Nat.not_lt.mp hlt)]
  · rfl

inductive Posts (s t : St) (c : ℕ) : Prop
  | same (h : (t.conns c).callers = (s.conns c).callers)
  | fresh (hc : s.nconn ≤ c) (h : (t.conns c).callers = [])
  | option (h : (t.conns c).callers = (s.conns c).callers ++ [none])
  | written {i : ℕ} {call : Call} {token : UInt64} {deadline : ℕ} (hcall : s.calls i = some call)
      (hpc : call.pc = .write token c) (hopen : (s.conns c).closed = false)
      (ht : t.calls i = some { call with pc := .wait token deadline })
      (h : (t.conns c).callers = (s.conns c).callers ++ [some i])

theorem write_callers (s : St) (d : ℕ) (r : Request) (c : ℕ) :
    ((s.write d r).conns c).callers =
      if c = d then (s.conns c).callers ++ [r.call] else (s.conns c).callers := by
  by_cases hd : c = d
  · subst hd
    simp [St.write, Conn.callers, setConnAt_self]
  · simp [St.write, setConnAt_ne hd, hd]

theorem Move.posts (hm : Move cfg s a t) (c : ℕ) : Posts s t c := by
  have same : ∀ {d : ℕ} {conn : Conn}, t.conns = (s.setConnAt d conn).conns →
      conn.callers = (s.conns d).callers → Posts s t c :=
    fun ht h => .same (by rw [ht]; exact setConnAt_callers h c)
  cases hm with
  | @written j call token d hcall hpc hopen =>
    have heq := write_callers s d (call.op.request j) c
    by_cases hd : c = d
    · subst hd
      rw [if_pos rfl, request_call] at heq
      exact .written hcall hpc hopen (Function.update_self ..) heq
    · rw [if_neg hd] at heq
      exact .same heq
  | @optionSent d hpc =>
    have heq := write_callers s d optionRequest c
    by_cases hd : c = d
    · rw [if_pos hd] at heq
      exact .option heq
    · rw [if_neg hd] at heq
      exact .same heq
  | answer hk hc hlen =>
    refine same rfl ?_
    exact callers_answered hk
  | dialled hpc =>
    by_cases hd : c = s.nconn
    · subst hd
      refine .fresh le_rfl ?_
      exact congrArg Conn.callers setConnAt_self
    · refine .same ?_
      exact congrArg Conn.callers (setConnAt_ne hd)
  | _ => first
    | exact .same rfl
    | (refine same rfl ?_
       rfl)

theorem Posts.wrote (hp : Posts s t c) (h : Wrote t i c) :
    Wrote s i c ∨ ∃ call token deadline, s.calls i = some call ∧ call.pc = .write token c ∧
      (s.conns c).closed = false ∧ t.calls i = some { call with pc := .wait token deadline } := by
  unfold Wrote at h ⊢
  cases hp with
  | same heq => exact Or.inl (heq ▸ h)
  | fresh hc heq => simp [heq] at h
  | option heq =>
    rw [heq] at h
    exact Or.inl (by simpa using h)
  | written hcall hpc hopen ht heq =>
    rw [heq, List.mem_append, List.mem_singleton] at h
    rcases h with h | h
    · exact Or.inl h
    · cases h
      exact Or.inr ⟨_, _, _, hcall, hpc, hopen, ht⟩

theorem Posts.stays (hp : Posts s t c) (hc : c < s.nconn) (h : Wrote s i c) : Wrote t i c := by
  unfold Wrote at h ⊢
  cases hp with
  | same heq => exact heq.symm ▸ h
  | fresh hle heq => exact absurd hc (Nat.not_lt.mpr hle)
  | option heq => exact heq ▸ List.mem_append_left _ h
  | written hcall hpc hopen ht heq => exact heq ▸ List.mem_append_left _ h

theorem Local.awaiting {pc : Pc} (hl : Local s call pc) (h : pc.awaiting = true) :
    call.pc.awaiting = true := by
  cases hl with
  | timedOut hpc hd =>
    rw [hpc]
    rfl
  | noConn hpc hmu hc =>
    rw [hpc]
    rfl
  | _ => cases h

theorem Shared.awaiting {pc : Pc} (hs : Shared t call pc) (h : pc.awaiting = true) :
    call.pc.awaiting = true ∨ call.pc = .setClosed ∨
      ∃ token c deadline, call.pc = .write token c ∧ pc = .wait token deadline := by
  cases hs with
  | written hpc => exact Or.inr (Or.inr ⟨_, _, _, hpc, rfl⟩)
  | abandon hpc =>
    rw [hpc]
    exact Or.inl rfl
  | setClosed hpc => exact Or.inr (Or.inl hpc)
  | resetEcho hpc => cases hop : call.op <;> simp [hop, Op.afterClose, Pc.awaiting] at h
  | _ => cases h

theorem Move.waits (hm : Move cfg s a t) {call' : Call} {token token' : UInt64} {deadline : ℕ}
    (hcall : s.calls i = some call) (hpc : call.pc = .write token c)
    (hcall' : t.calls i = some call') (hpc' : call'.pc = .wait token' deadline) :
    Wrote t i c := by
  obtain ⟨new, hnew, hturn⟩ := hm.turn hcall
  cases Option.some.inj (hnew.symm.trans hcall')
  cases hturn with
  | other => cases hpc.symm.trans hpc'
  | served hd hint => cases hpc.symm.trans hpc'
  | own hs hw ha => exact absurd hpc (hw _ _)
  | pc hl => cases hl <;> simp_all
  | written hw hconn =>
    cases hpc.symm.trans hw
    rw [Wrote, hconn]
    simp [Conn.callers, request_call]

theorem Move.awaiting (hm : Move cfg s a t) (hsh : Shaped s) {call' : Call}
    (hcall' : t.calls i = some call') (hop : call'.op ≠ .close)
    (hpc : call'.pc.awaiting = true) :
    (∃ call, s.calls i = some call ∧ call.op ≠ .close ∧ call.pc.awaiting = true) ∨
      ∃ c, Wrote t i c := by
  rcases hm.call_origin hcall' with ⟨call, hcall, hadv⟩ | ⟨-, -, hentry, -⟩
  · have hop' : call.op ≠ .close := hadv.op ▸ hop
    rcases hadv.pc with heq | hl | hs
    · exact Or.inl ⟨call, hcall, hop', heq ▸ hpc⟩
    · exact Or.inl ⟨call, hcall, hop', hl.awaiting hpc⟩
    · rcases hs.awaiting hpc with h | h | ⟨token, c, deadline, hw, hw'⟩
      · exact Or.inl ⟨call, hcall, hop', h⟩
      · exact absurd (hsh i call hcall h) hop'
      · exact Or.inr ⟨c, hm.waits hcall hw hcall' hw'⟩
  · rw [hentry] at hpc
    cases ho : call'.op with
    | submit bg funcname data flag cb uid => cases bg <;> simp [ho, Op.entry, Pc.awaiting] at hpc
    | _ => simp [ho, Op.entry, Pc.awaiting] at hpc

theorem Sent.move (hi : Sent s) (hr : Rounds s) (hp : Ports s) (hm : Move cfg s a t) : Sent t where
  retired := by
    intro i c h
    rcases (hm.posts c).wrote h with hold | ⟨call, token, -, hcall, hpc, hopen, -⟩
    · obtain ⟨hlt, hc⟩ := hi.retired i c hold
      exact hm.retired hr.wired hlt hc
    · obtain ⟨hlt, hc⟩ := hp i call token c hcall hpc
      exact hm.retired hr.wired hlt hc
  unsent := by
    intro i c hun h
    rcases (hm.posts c).wrote h with hold | ⟨call, token, deadline, hcall, hpc, -, ht⟩
    · refine hi.unsent i c ?_ hold
      intro call hcall
      obtain ⟨call', hcall', hadv⟩ := hm.call hcall
      exact hadv.forward.unsent (hun call' hcall')
    · cases hun _ ht
  unique := by
    intro i c c' h h'
    have fresh : ∀ {d d' : ℕ} {call : Call} {token : UInt64}, s.calls i = some call →
        call.pc = .write token d → ¬ Wrote s i d' := by
      intro d d' call token hcall hpc
      refine hi.unsent i d' ?_
      intro call' hcall'
      cases Option.some.inj (hcall.symm.trans hcall')
      rw [hpc]
      rfl
    rcases (hm.posts c).wrote h with hold | ⟨call, token, -, hcall, hpc, -⟩
    · rcases (hm.posts c').wrote h' with hold' | ⟨call, token, -, hcall, hpc, -⟩
      · exact hi.unique i c c' hold hold'
      · exact absurd hold (fresh hcall hpc)
    · rcases (hm.posts c').wrote h' with hold' | ⟨call', token', -, hcall', hpc', -⟩
      · exact absurd hold' (fresh hcall hpc)
      · cases Option.some.inj (hcall.symm.trans hcall')
        cases hpc.symm.trans hpc'
        rfl
  awaiting := by
    intro i call' hcall' hop hpc
    rcases hm.awaiting hr.shaped hcall' hop hpc with ⟨call, hcall, hop', hpc'⟩ | h
    · obtain ⟨c, hc⟩ := hi.awaiting i call hcall hop' hpc'
      exact ⟨c, (hm.posts c).stays (hi.retired i c hc).1 hc⟩
    · exact h

theorem not_wrote_new (cfg : Cfg) (i c : ℕ) : ¬ Wrote (new cfg) i c := by
  unfold Wrote Conn.callers
  by_cases hc : c = 0
  · subst hc
    cases cfg.wantExceptions <;> simp [new, optionRequest]
  · simp [new, hc]

theorem sent_new (cfg : Cfg) : Sent (new cfg) where
  retired := fun i c h => absurd h (not_wrote_new cfg i c)
  unsent := fun i c _ => not_wrote_new cfg i c
  unique := fun i c c' h => absurd h (not_wrote_new cfg i c)
  awaiting := by
    intro i call h
    cases h

theorem sent_reachable (h : Reachable (step cfg) always (new cfg) s) :
    Rounds s ∧ Ports s ∧ Sent s := by
  refine h.invariant (I := fun u => Rounds u ∧ Ports u ∧ Sent u) ?_ ?_
  · refine ⟨rounds_new cfg, ?_, sent_new cfg⟩
    intro i call token c hcall
    cases hcall
  · intro u act v hu _ hstep
    obtain ⟨hr, hp, hi⟩ := hu
    have hm : Move cfg u act v := step_move hstep
    exact ⟨hr.move hm, hp.move hr.wired hm, hi.move hr hp hm⟩

/-- When a call gives up after its timeout, `closeConn` closes nothing but the connection that
the call has written on, and leaves another one published, if and only if that connection is
still open or none is published. -/
theorem timeout_drops_own_iff (cfg : Cfg) (s t : St) (i : ℕ) (call : Call)
    (hs : Reachable (step cfg) always (new cfg) s) (hcall : s.calls i = some call)
    (hop : call.op ≠ .close) (hpc : call.pc = .closeConn)
    (ht : step cfg s (.caller i) = some t) :
    ∃ c, (∀ c', Wrote s i c' ↔ c' = c) ∧
      (((∀ c', Closes s t c' → c' = c) ∧ ∀ c', s.conn = some c' → c' ≠ c → t.conn = some c') ↔
        (s.conns c).closed = false ∨ s.conn = none) := by
  obtain ⟨hr, -, hsent⟩ := sent_reachable hs
  obtain ⟨c, hc⟩ := hsent.awaiting i call hcall hop (by rw [hpc]; rfl)
  have hown : ∀ c', Wrote s i c' ↔ c' = c := by
    intro c'
    exact ⟨fun h => hsent.unique i c' c h hc, fun h => h ▸ hc⟩
  refine ⟨c, hown, ?_⟩
  simp only [step, hcall, Option.bind_some, callerStep, hpc] at ht
  split_ifs at ht
  cases hconn : s.conn with
  | none =>
    simp only [hconn] at ht
    cases ht
    simp [Closes, St.setPc]
  | some d =>
    simp only [hconn] at ht
    cases ht
    have hopen : (s.conns d).closed = false := (hr.wired.conn_open d hconn).2
    have hshut : ∀ c', Closes s ((s.dropConn (.caller i) d).setPc i call .resetCreated) c' ↔
        c' = d := by
      intro c'
      simp only [Closes, St.dropConn, St.setPc, shut_closed]
      constructor
      · rintro ⟨hwas, hnow⟩
        simpa [hwas] using hnow
      · rintro rfl
        simp [hopen]
    simp only [hshut, reduceCtorEq, or_false, Option.some.injEq]
    constructor
    · rintro ⟨honly, -⟩
      rw [← honly d rfl]
      exact hopen
    · intro hopen'
      have hcd : d = c := by
        have := (hsent.retired i c hc).2.resolve_right (by simp [hopen'])
        exact Option.some.inj (hconn.symm.trans this)
      subst hcd
      exact ⟨fun c' h => h, fun c' h hne => absurd h.symm hne⟩

def unansweredActs : List Act :=
  [.call 0 submitA, .caller 0, .caller 0, .caller 0, .caller 0, .write 0 none, .tick 5, .timeout 0,
    .caller 0]

theorem timeout_drops_own :
    ∃ s t, run (step demoCfg) always (new demoCfg) unansweredActs = some s ∧
      step demoCfg s (.caller 0) = some t ∧ Closes s t 0 ∧ ∀ c, Closes s t c → c = 0 := by
  obtain ⟨s, t, call, hs, hcall, hop, hpc, ht, hcallers, hopen, hclosed⟩ :
      ∃ s t call, run (step demoCfg) always (new demoCfg) unansweredActs = some s ∧
        s.calls 0 = some call ∧ call.op = submitA ∧ call.pc = .closeConn ∧
        step demoCfg s (.caller 0) = some t ∧ (s.conns 0).callers = [some 0] ∧
        (s.conns 0).closed = false ∧ (t.conns 0).closed = true :=
    ⟨_, _, _, rfl, rfl, rfl, rfl, rfl, rfl, rfl, rfl⟩
  obtain ⟨c, hown, hiff⟩ := timeout_drops_own_iff demoCfg s t 0 call ⟨_, hs⟩ hcall
    (by rw [hop]; exact nofun) hpc ht
  have hc : 0 = c := by
    refine (hown 0).mp ?_
    rw [Wrote, hcallers]
    exact List.mem_cons_self
  subst hc
  exact ⟨s, t, hs, ht, ⟨hopen, hclosed⟩, (hiff.mpr (Or.inl hopen)).1⟩

/-- The connection of the `Do` is lost and replaced before the call gives up. -/
def replacedActs : List Act :=
  [.call 0 submitA, .caller 0, .caller 0, .caller 0, .caller 0, .write 0 none] ++ redialActs ++
    [.reader, .tick 5, .timeout 0, .caller 0]

theorem timeout_drops_fresh_connection :
    ∃ s t, run (step demoCfg) always (new demoCfg) replacedActs = some s ∧
      step demoCfg s (.caller 0) = some t ∧ Wrote s 0 0 ∧ (s.conns 0).closed = true ∧
      s.conn = some 1 ∧ Closes s t 1 ∧ t.conn = none := by
  refine ⟨_, _, rfl, rfl, ?_, rfl, rfl, ⟨rfl, rfl⟩, rfl⟩
  exact List.mem_cons_self

end Gearman.Client
