import Gearman.ClientQueues
import Gearman.Ranking

/-!
# No call hangs

A call waits for `client.Mutex`, for `connMu`, for its reply or for the timer. Whoever
holds a lock can take its next step: the holder of `connMu` is emptying the two queues,
and the holder of `client.Mutex` waits for nothing but `connMu` and the timer. So a rank
that counts the steps left to the call, to the holder of the mutex and to the holder of
`connMu` goes down, whatever the server does.
-/

namespace Gearman.Client
open Transition

variable {cfg : Cfg} {s t : St} {a : Act} {k : Which} {i j : ℕ}

structure Held (s : St) : Prop where
  mutex : ∀ j, s.mutex = some j → ∃ call, s.calls j = some call ∧ call.holds = true
  caller : ∀ j, s.connMu = some (.caller j) →
    ∃ call, s.calls j = some call ∧ call.pc.resets .echo = true
  reader : s.connMu = some .reader → s.reader.resets .echo = true

theorem held_new (cfg : Cfg) : Held (new cfg) where
  mutex := fun j h => by cases h
  caller := fun j h => by cases h
  reader := fun h => by cases h

theorem Held.keep (hi : Held s) (hcalls : t.calls = s.calls) (hmx : t.mutex = s.mutex)
    (hmu : ∀ j, t.connMu = some (.caller j) → s.connMu = some (.caller j))
    (hr : t.connMu = some .reader → t.reader.resets .echo = true) : Held t where
  mutex := by
    rw [hcalls, hmx]
    exact hi.mutex
  caller := by
    intro j hj
    rw [hcalls]
    exact hi.caller j (hmu j hj)
  reader := hr

theorem Held.update (hi : Held s) {new : Call}
    (hcalls : t.calls = Function.update s.calls i (some new)) (hr : t.reader = s.reader)
    (hmx : ∀ j, j ≠ i → t.mutex = some j → s.mutex = some j)
    (hmu : ∀ who, who ≠ .caller i → t.connMu = some who → s.connMu = some who)
    (hh : t.mutex = some i → new.holds = true)
    (hc : t.connMu = some (.caller i) → new.pc.resets .echo = true) : Held t where
  mutex := by
    intro j hj
    rw [hcalls]
    by_cases hji : j = i
    · subst hji
      exact ⟨new, Function.update_self .., hh hj⟩
    · obtain ⟨call, hcall, hold⟩ := hi.mutex j (hmx j hji hj)
      exact ⟨call, by rw [Function.update_of_ne hji, hcall], hold⟩
  caller := by
    intro j hj
    rw [hcalls]
    by_cases hji : j = i
    · subst hji
      exact ⟨new, Function.update_self .., hc hj⟩
    · obtain ⟨call, hcall, hpc⟩ := hi.caller j (hmu _ (by simpa using hji) hj)
      exact ⟨call, by rw [Function.update_of_ne hji, hcall], hpc⟩
  reader := by
    intro h
    rw [hr]
    exact hi.reader (hmu _ (by simp) h)

theorem Held.holds (hi : Held s) {call : Call} (h : s.calls i = some call)
    (hm : s.mutex = some i) : call.holds = true := by
  obtain ⟨call', hcall', hold⟩ := hi.mutex i hm
  cases Option.some.inj (h.symm.trans hcall')
  exact hold

theorem Held.resets (hi : Held s) {call : Call} (h : s.calls i = some call)
    (hm : s.connMu = some (.caller i)) : call.pc.resets .echo = true := by
  obtain ⟨call', hcall', hpc⟩ := hi.caller i hm
  cases Option.some.inj (h.symm.trans hcall')
  exact hpc

theorem Held.stay (hi : Held s) {call new : Call} (h : s.calls i = some call)
    (hcalls : t.calls = Function.update s.calls i (some new)) (hr : t.reader = s.reader)
    (hmx : t.mutex = s.mutex) (hmu : t.connMu = s.connMu)
    (hh : call.holds = true → new.holds = true)
    (hc : call.pc.resets .echo = true → new.pc.resets .echo = true) : Held t := by
  refine hi.update hcalls hr (fun _ _ hj => hmx.symm.trans hj) (fun _ _ hw => hmu.symm.trans hw)
    ?_ ?_
  · intro hm
    exact hh (hi.holds h (hmx.symm.trans hm))
  · intro hm
    exact hc (hi.resets h (hmu.symm.trans hm))

theorem Local.holds_on {call : Call} {pc : Pc} (hl : Local s call pc)
    (h : call.holds = true) : Call.holds { call with pc } = true := by
  cases hl with
  | noConn hpc hmu hc => cases hop : call.op <;> simp_all [Call.holds, Op.afterClose]
  | _ => simp_all [Call.holds]

theorem Local.not_resets {call : Call} {pc : Pc} (hl : Local s call pc) :
    call.pc.resets k = false := by
  cases hl <;> rw [‹call.pc = _›] <;> rfl

theorem Held.readerMove (hi : Held s) (hpc : s.reader.resets .echo = false)
    (hcalls : t.calls = s.calls) (hmx : t.mutex = s.mutex) (hmu : t.connMu = s.connMu) :
    Held t := by
  refine hi.keep hcalls hmx (fun _ hj => hmu.symm.trans hj) ?_
  intro hr
  have hold := hi.reader (hmu.symm.trans hr)
  simp [hpc] at hold

theorem ReaderLocal.not_resets {pc : ReadPc} (hl : ReaderLocal s pc) :
    s.reader.resets .echo = false := by
  cases hl with
  | closed hpc hmu hc => rcases hpc with hpc | hpc | hpc <;> rw [hpc] <;> rfl
  | _ => rw [‹s.reader = _›]; rfl

theorem Held.move (hi : Held s) (hcl : ClosesAt s) (hm : Move cfg s a t) : Held t := by
  cases hm with
  | begin j op h =>
    refine hi.update rfl rfl (fun _ _ h => h) (fun _ _ h => h) ?_ ?_
    · intro hmx
      obtain ⟨call, hcall, -⟩ := hi.mutex j hmx
      simp [h] at hcall
    · intro hmu
      obtain ⟨call, hcall, -⟩ := hi.caller j hmu
      simp [h] at hcall
  | pc h hloc => exact hi.stay h rfl rfl rfl rfl hloc.holds_on (by simp [hloc.not_resets])
  | lock h hpc hfree =>
    refine hi.update rfl rfl ?_ (fun _ _ h => h) (fun _ => rfl) ?_
    · intro j hne hj
      exact absurd (Option.some.inj hj).symm hne
    · intro hmu
      simpa [hpc, Pc.resets] using hi.resets h hmu
  | register h hpc => exact hi.stay h rfl rfl rfl rfl (fun _ => rfl) (by simp [hpc, Pc.resets])
  | written h hpc hopen =>
    exact hi.stay h rfl rfl rfl rfl (fun _ => rfl) (by simp [hpc, Pc.resets])
  | cancel h hpc => exact hi.stay h rfl rfl rfl rfl (fun _ => rfl) (by simp [hpc, Pc.resets])
  | @abandon i call token h hpc =>
    refine hi.stay h rfl rfl rfl rfl ?_ (by simp [hpc, Pc.resets])
    intro
    cases hop : call.op with
    | close => simpa [hpc, CloseAt] using hcl i call h hop
    | _ => simp [Call.holds, Op.afterAbandon]
  | setClosed h hpc hmu =>
    exact hi.stay h rfl rfl rfl rfl (by simp [Call.holds, hpc]) (by simp [hpc, Pc.resets])
  | drop h hpc hfree hc =>
    refine hi.update rfl rfl (fun _ _ h => h) ?_ ?_ (fun _ => rfl)
    · intro who hne hw
      exact absurd (Option.some.inj hw).symm hne
    · intro hm
      simpa [Call.holds, hpc] using hi.holds h hm
  | resetCreated h hpc =>
    exact hi.stay h rfl rfl rfl rfl (by simp [Call.holds, hpc]) (fun _ => rfl)
  | @resetEcho i call h hpc =>
    refine hi.update rfl rfl (fun _ _ h => h) (fun _ _ hw => by cases hw) ?_
      (fun hw => by cases hw)
    intro hm
    have hold := hi.holds h hm
    cases hop : call.op <;> simp_all [Call.holds, Op.afterClose]
  | unlock h hpc =>
    refine hi.update rfl rfl (fun _ _ hj => by cases hj) (fun _ _ h => h)
      (fun hj => by cases hj) ?_
    intro hmu
    simpa [hpc, Pc.resets] using hi.resets h hmu
  | deliver hpc hint h hr => exact hi.stay h rfl rfl rfl rfl id id
  | readerDrop hpc hfree hc => exact hi.keep rfl rfl (fun _ hj => by cases hj) (fun _ => rfl)
  | readerResetCreated hpc => exact hi.keep rfl rfl (fun _ h => h) (fun _ => rfl)
  | readerResetEcho hpc => exact hi.keep rfl rfl (fun _ hj => by cases hj) (fun hj => by cases hj)
  | reader hloc => exact hi.readerMove hloc.not_resets rfl rfl rfl
  | send hpc hin hfull => exact hi.readerMove (sending_resets hpc) rfl rfl rfl
  | sendClosed hpc hin => exact hi.readerMove (sending_resets hpc) rfl rfl rfl
  | _ => first
    | exact hi.keep rfl rfl (fun _ h => h) hi.reader
    | exact hi.readerMove (by rw [‹s.reader = _›]; rfl) rfl rfl rfl

/-- The steps a call has still to take, when nobody answers it. -/
def Pc.rank (now : ℕ) : Pc → ℕ
  | .start => 13
  | .enter => 12
  | .lock => 11
  | .register => 10
  | .getRW _ => 9
  | .write _ _ => 8
  | .wait _ deadline => if deadline ≤ now then 6 else 7
  | .abandon _ => 5
  | .setClosed => 5
  | .closeConn => 4
  | .resetCreated => 3
  | .resetEcho => 2
  | .cancel _ _ => 2
  | .unlock _ => 1
  | .returned _ => 0

theorem Pc.rank_le (pc : Pc) (now : ℕ) : pc.rank now ≤ 13 := by
  cases pc <;> simp only [Pc.rank] <;> (try split_ifs) <;> omega

theorem Pc.rank_anti (pc : Pc) {now now' : ℕ} (h : now ≤ now') : pc.rank now' ≤ pc.rank now := by
  cases pc with
  | wait token deadline =>
    simp only [Pc.rank]
    split_ifs <;> omega
  | _ => exact le_rfl

theorem Op.rank_afterClose (op : Op) (now : ℕ) : op.afterClose.rank now ≤ 1 := by
  cases op <;> simp [Op.afterClose, Pc.rank]

theorem Op.rank_afterAbandon (op : Op) (now : ℕ) : op.afterAbandon.rank now ≤ 4 := by
  cases op <;> simp [Op.afterAbandon, Pc.rank]

theorem Local.rank_lt {call : Call} {pc : Pc} (hl : Local s call pc) (now : ℕ) :
    pc.rank now < call.pc.rank s.now := by
  cases hl with
  | noConn hpc hmu hc => exact (call.op.rank_afterClose now).trans_lt (by simp [hpc, Pc.rank])
  | timedOut hpc hd => simp [hpc, Pc.rank, hd]
  | replied hpc hr =>
    rw [hpc]
    simp only [Pc.rank]
    split_ifs <;> omega
  | _ => rw [‹call.pc = _›]; simp [Pc.rank]

theorem Shared.rank_lt {call : Call} {pc : Pc} (hs : Shared t call pc) (now now' : ℕ) :
    pc.rank now' < call.pc.rank now := by
  cases hs with
  | written hpc =>
    rw [hpc]
    simp only [Pc.rank]
    split_ifs <;> omega
  | abandon hpc => exact (call.op.rank_afterAbandon now').trans_lt (by simp [hpc, Pc.rank])
  | resetEcho hpc => exact (call.op.rank_afterClose now').trans_lt (by simp [hpc, Pc.rank])
  | _ => rw [‹call.pc = _›]; simp [Pc.rank]

def St.rankOf (s : St) (i : ℕ) : ℕ := (s.calls i).elim 0 (fun call => call.pc.rank s.now)

theorem rankOf_eq {call : Call} (h : s.calls i = some call) :
    s.rankOf i = call.pc.rank s.now := by
  rw [St.rankOf, h, Option.elim_some]

theorem Move.now_le (hm : Move cfg s a t) : s.now ≤ t.now := by
  cases hm with
  | tick n => exact Nat.le_add_right s.now n
  | _ => exact le_rfl

theorem Move.rankOf_le (hm : Move cfg s a t) {call : Call} (hcall : s.calls i = some call) :
    t.rankOf i ≤ s.rankOf i := by
  obtain ⟨call', hcall', hadv⟩ := hm.call hcall
  rw [rankOf_eq hcall, rankOf_eq hcall']
  rcases hadv.pc with hpc | hl | hs
  · rw [hpc]
    exact call.pc.rank_anti hm.now_le
  · exact (hl.rank_lt t.now).le
  · exact (hs.rank_lt s.now t.now).le

def Act.own (i : ℕ) : Act → Bool
  | .caller j => j = i
  | .write j _ => j = i
  | .timeout j => j = i
  | _ => false

structure OwnStep (s t : St) (i : ℕ) (call : Call) (pc : Pc) : Prop where
  calls : t.calls = Function.update s.calls i (some { call with pc })
  now : t.now = s.now
  mutex : t.mutex = s.mutex ∨ t.mutex = none ∨ t.mutex = some i
  rank : pc.rank s.now < call.pc.rank s.now

theorem OwnStep.setPc {call : Call} {pc : Pc} (h : pc.rank s.now < call.pc.rank s.now) :
    OwnStep s (s.setPc i call pc) i call pc := ⟨rfl, rfl, Or.inl rfl, h⟩

theorem callerStep_own {call : Call} (h : callerStep cfg s i call = some t) :
    ∃ pc, OwnStep s t i call pc := by
  have hlost : ∀ {pc : Pc}, (lostOr s pc).rank s.now ≤ pc.rank s.now := by
    intro pc
    unfold lostOr
    split_ifs
    · exact Nat.zero_le _
    · exact le_rfl
  cases hpc : call.pc with
  | start =>
    simp only [callerStep, hpc] at h
    split_ifs at h
    cases h
    exact ⟨_, .setPc (hlost.trans_lt (by simp [hpc, Pc.rank]))⟩
  | enter =>
    simp only [callerStep, hpc] at h
    split_ifs at h
    · cases h
      exact ⟨_, .setPc (by simp [hpc, Pc.rank])⟩
    · cases h
      exact ⟨_, .setPc (hlost.trans_lt (by simp [hpc, Pc.rank]))⟩
  | lock =>
    simp only [callerStep, hpc] at h
    split_ifs at h
    cases h
    exact ⟨_, rfl, rfl, Or.inr (Or.inr rfl), by simp [hpc, Pc.rank]⟩
  | getRW token =>
    simp only [callerStep, hpc] at h
    split_ifs at h
    cases hrw : s.rw <;> simp only [hrw] at h <;> cases h <;>
      exact ⟨_, .setPc (by simp [hpc, Pc.rank])⟩
  | wait token deadline =>
    simp only [callerStep, hpc] at h
    obtain ⟨p, -, rfl⟩ := Option.map_eq_some_iff.mp h
    refine ⟨_, .setPc ?_⟩
    rw [hpc]
    simp only [Pc.rank]
    split_ifs <;> omega
  | abandon token =>
    simp only [callerStep, hpc] at h
    cases h
    exact ⟨_, rfl, rfl, Or.inl rfl,
      (call.op.rank_afterAbandon s.now).trans_lt (by simp [hpc, Pc.rank])⟩
  | closeConn =>
    simp only [callerStep, hpc] at h
    split_ifs at h
    cases hc : s.conn with
    | none =>
      simp only [hc] at h
      cases h
      exact ⟨_, .setPc ((call.op.rank_afterClose s.now).trans_lt (by simp [hpc, Pc.rank]))⟩
    | some c =>
      simp only [hc] at h
      cases h
      exact ⟨_, rfl, rfl, Or.inl rfl, by simp [hpc, Pc.rank]⟩
  | resetEcho =>
    simp only [callerStep, hpc] at h
    cases h
    exact ⟨_, rfl, rfl, Or.inl rfl,
      (call.op.rank_afterClose s.now).trans_lt (by simp [hpc, Pc.rank])⟩
  | setClosed =>
    simp only [callerStep, hpc] at h
    split_ifs at h
    cases h
    exact ⟨_, rfl, rfl, Or.inl rfl, by simp [hpc, Pc.rank]⟩
  | unlock ret =>
    simp only [callerStep, hpc] at h
    cases h
    exact ⟨_, rfl, rfl, Or.inr (Or.inl rfl), by simp [hpc, Pc.rank]⟩
  | write token c => simp [callerStep, hpc] at h
  | returned ret => simp [callerStep, hpc] at h
  | _ =>
    simp only [callerStep, hpc] at h
    cases h
    exact ⟨_, rfl, rfl, Or.inl rfl, by simp [hpc, Pc.rank]⟩

theorem writeStep_own {call : Call} {err : Option Err}
    (h : writeStep cfg s i err call = some t) : ∃ pc, OwnStep s t i call pc := by
  cases hpc : call.pc with
  | write token c =>
    cases err with
    | some err =>
      simp only [writeStep, hpc] at h
      cases h
      exact ⟨_, .setPc (by simp [hpc, Pc.rank])⟩
    | none =>
      simp only [writeStep, hpc] at h
      split_ifs at h
      cases h
      refine ⟨_, rfl, rfl, Or.inl rfl, ?_⟩
      rw [hpc]
      simp only [Pc.rank]
      split_ifs <;> omega
  | _ => simp [writeStep, hpc] at h

theorem timeoutStep_own {call : Call} (h : timeoutStep s i call = some t) :
    ∃ pc, OwnStep s t i call pc := by
  cases hpc : call.pc with
  | wait token deadline =>
    simp only [timeoutStep, hpc] at h
    split_ifs at h with hd
    cases h
    exact ⟨_, .setPc (by simp [hpc, Pc.rank, hd])⟩
  | _ => simp [timeoutStep, hpc] at h

theorem step_own (h : step cfg s a = some t) (ha : a.own i = true) :
    ∃ call pc, s.calls i = some call ∧ OwnStep s t i call pc := by
  cases a with
  | caller j =>
    cases of_decide_eq_true ha
    obtain ⟨call, hcall, h⟩ := Option.bind_eq_some_iff.mp h
    exact ⟨call, (callerStep_own h).imp (fun _ ho => ⟨hcall, ho⟩)⟩
  | write j err =>
    cases of_decide_eq_true ha
    obtain ⟨call, hcall, h⟩ := Option.bind_eq_some_iff.mp h
    exact ⟨call, (writeStep_own h).imp (fun _ ho => ⟨hcall, ho⟩)⟩
  | timeout j =>
    cases of_decide_eq_true ha
    obtain ⟨call, hcall, h⟩ := Option.bind_eq_some_iff.mp h
    exact ⟨call, (timeoutStep_own h).imp (fun _ ho => ⟨hcall, ho⟩)⟩
  | _ => cases ha

theorem OwnStep.rankOf_lt {call : Call} {pc : Pc} (h : OwnStep s t i call pc)
    (hcall : s.calls i = some call) : t.rankOf i < s.rankOf i := by
  have hnew : t.calls i = some { call with pc } := by rw [h.calls, Function.update_self]
  rw [rankOf_eq hcall, rankOf_eq hnew, h.now]
  exact h.rank

def Pc.toReset : Pc → ℕ
  | .resetCreated => 2
  | .resetEcho => 1
  | _ => 0

def ReadPc.toReset : ReadPc → ℕ
  | .resetCreated => 2
  | .resetEcho => 1
  | _ => 0

def St.connRank (s : St) : ℕ :=
  match s.connMu with
  | none => 0
  | some (.caller j) => (s.calls j).elim 0 (fun call => call.pc.toReset)
  | some .reader => s.reader.toReset

def St.mutexRank (s : St) (i : ℕ) : ℕ :=
  match s.mutex with
  | none => 0
  | some j => if j = i then 0 else s.rankOf j

def St.toReturn (i : ℕ) (s : St) : ℕ := 3 * s.rankOf i + 3 * s.mutexRank i + s.connRank

theorem connRank_le (s : St) : s.connRank ≤ 2 := by
  have hpc : ∀ pc : Pc, pc.toReset ≤ 2 := by
    intro pc
    cases pc <;> simp [Pc.toReset]
  have hr : ∀ pc : ReadPc, pc.toReset ≤ 2 := by
    intro pc
    cases pc <;> simp [ReadPc.toReset]
  unfold St.connRank
  split
  · exact Nat.zero_le 2
  · cases s.calls _ with
    | none => exact Nat.zero_le 2
    | some call => exact hpc call.pc
  · exact hr s.reader

theorem connRank_free (h : s.connMu = none) : s.connRank = 0 := by
  simp [St.connRank, h]

theorem mutexRank_free (h : s.mutex = none) : s.mutexRank i = 0 := by
  simp [St.mutexRank, h]

theorem mutexRank_self (h : s.mutex = some i) : s.mutexRank i = 0 := by
  simp [St.mutexRank, h]

theorem mutexRank_of_ne (h : s.mutex = some j) (hne : j ≠ i) : s.mutexRank i = s.rankOf j := by
  simp [St.mutexRank, h, hne]

theorem Held.mutexRank_le (hi : Held s) (hm : Move cfg s a t) (h : t.mutex = s.mutex) :
    t.mutexRank i ≤ s.mutexRank i := by
  cases hs : s.mutex with
  | none =>
    rw [mutexRank_free (h.trans hs)]
    exact Nat.zero_le _
  | some j =>
    by_cases hji : j = i
    · subst hji
      rw [mutexRank_self (h.trans hs)]
      exact Nat.zero_le _
    · obtain ⟨call, hcall, -⟩ := hi.mutex j hs
      rw [mutexRank_of_ne hs hji, mutexRank_of_ne (h.trans hs) hji]
      exact hm.rankOf_le hcall

structure Nears (s t : St) (j : ℕ) : Prop where
  rank : t.rankOf j < s.rankOf j
  mutex : t.mutex = s.mutex ∨ t.mutex = none ∨ t.mutex = some j

theorem Nears.self (h : Nears s t i) (hi : Held s) (hm : Move cfg s a t)
    (hmu : s.connMu = none) : t.toReturn i < s.toReturn i := by
  have hrank := h.rank
  have hfree := connRank_free hmu
  have hconn := connRank_le t
  have hmx : t.mutexRank i ≤ s.mutexRank i := by
    rcases h.mutex with hsame | hnone | hmine
    · exact hi.mutexRank_le hm hsame
    · rw [mutexRank_free hnone]
      exact Nat.zero_le _
    · rw [mutexRank_self hmine]
      exact Nat.zero_le _
  simp only [St.toReturn]
  omega

theorem Nears.holder (h : Nears s t j) (hm : Move cfg s a t) (hmu : s.connMu = none)
    {call : Call} (hcall : s.calls i = some call) (hj : s.mutex = some j) (hne : j ≠ i) :
    t.toReturn i < s.toReturn i := by
  have hrank := h.rank
  have hmine := hm.rankOf_le hcall
  have hfree := connRank_free hmu
  have hconn := connRank_le t
  have hmx : t.mutexRank i < s.mutexRank i := by
    rw [mutexRank_of_ne hj hne]
    rcases h.mutex with hsame | hnone | hkept
    · rw [mutexRank_of_ne (hsame.trans hj) hne]
      exact hrank
    · rw [mutexRank_free hnone]
      exact (Nat.zero_le _).trans_lt hrank
    · rw [mutexRank_of_ne hkept hne]
      exact hrank
  simp only [St.toReturn]
  omega

def St.writesTo (s : St) (i : ℕ) : Option ℕ :=
  (s.calls i).bind (fun call =>
    match call.pc with
    | .write _ c => some c
    | _ => none)

/-- The server is silent, a write to an open connection succeeds, and `readLoop` only
finishes a `closeConn` it is in. -/
def unanswered (s : St) : Act → Bool
  | .caller _ => true
  | .timeout _ => true
  | .tick _ => true
  | .reader => s.reader.resets .echo
  | .write _ none => true
  | .write i (some _) => (s.writesTo i).any (fun c => (s.conns c).closed)
  | _ => false

theorem exists_caller {call : Call} (hcall : s.calls j = some call)
    (h : (callerStep cfg s j call).isSome = true) :
    ∃ a t, unanswered s a = true ∧ step cfg s a = some t ∧ Nears s t j := by
  obtain ⟨t, ht⟩ := Option.isSome_iff_exists.mp h
  obtain ⟨pc, ho⟩ := callerStep_own ht
  exact ⟨.caller j, t, rfl, by simp [step, hcall, ht], ho.rankOf_lt hcall, ho.mutex⟩

/-- With `connMu` free only a call at `client.Mutex` can have to wait for somebody else. -/
theorem exists_nears (cfg : Cfg) {call : Call} (hcall : s.calls j = some call)
    (hmu : s.connMu = none) (hlock : call.pc = .lock → s.mutex = none)
    (hret : ∀ ret, call.pc ≠ .returned ret) :
    ∃ a t, unanswered s a = true ∧ step cfg s a = some t ∧ Nears s t j := by
  cases hpc : call.pc with
  | lock => exact exists_caller hcall (by simp [callerStep, hpc, hlock hpc])
  | enter =>
    refine exists_caller hcall ?_
    simp only [callerStep, hpc, hmu]
    cases call.op.emptyId <;> rfl
  | getRW token =>
    refine exists_caller hcall ?_
    simp only [callerStep, hpc, hmu]
    cases s.rw <;> rfl
  | closeConn =>
    refine exists_caller hcall ?_
    simp only [callerStep, hpc, hmu]
    cases s.conn <;> rfl
  | write token c =>
    cases hopen : (s.conns c).closed with
    | false =>
      obtain ⟨t, ht⟩ : ∃ t, writeStep cfg s j none call = some t := by
        simp [writeStep, hpc, hopen]
      obtain ⟨pc, ho⟩ := writeStep_own ht
      exact ⟨.write j none, t, rfl, by simp [step, hcall, ht], ho.rankOf_lt hcall, ho.mutex⟩
    | true =>
      obtain ⟨t, ht⟩ : ∃ t, writeStep cfg s j (some (.op false)) call = some t := by
        simp [writeStep, hpc]
      obtain ⟨pc, ho⟩ := writeStep_own ht
      exact ⟨.write j (some (.op false)), t,
        by simp [unanswered, St.writesTo, hcall, hpc, hopen], by simp [step, hcall, ht],
        ho.rankOf_lt hcall, ho.mutex⟩
  | wait token deadline =>
    by_cases hd : deadline ≤ s.now
    · obtain ⟨t, ht⟩ : ∃ t, timeoutStep s j call = some t := by simp [timeoutStep, hpc, hd]
      obtain ⟨pc, ho⟩ := timeoutStep_own ht
      exact ⟨.timeout j, t, rfl, by simp [step, hcall, ht], ho.rankOf_lt hcall, ho.mutex⟩
    · refine ⟨.tick (deadline - s.now), _, rfl, rfl, ?_, Or.inl rfl⟩
      have hnew : St.calls { s with now := s.now + (deadline - s.now) } j = some call := hcall
      rw [rankOf_eq hcall, rankOf_eq hnew, hpc]
      simp [Pc.rank, hd, Nat.add_sub_of_le (Nat.le_of_not_le hd)]
  | returned ret => exact absurd hpc (hret ret)
  | _ => exact exists_caller hcall (by simp [callerStep, hpc, hmu])

theorem resets_cases {pc : Pc} (h : pc.resets .echo = true) :
    pc = .resetCreated ∨ pc = .resetEcho := by
  cases pc <;> simp_all [Pc.resets]

theorem readPc_resets_cases {pc : ReadPc} (h : pc.resets .echo = true) :
    pc = .resetCreated ∨ pc = .resetEcho := by
  cases pc <;> simp_all [ReadPc.resets]

theorem Held.exists_release (hi : Held s) (cfg : Cfg) {who : Party} (hmu : s.connMu = some who) :
    ∃ a t, unanswered s a = true ∧ step cfg s a = some t ∧ t.mutex = s.mutex ∧
      t.connRank < s.connRank := by
  cases who with
  | caller j =>
    obtain ⟨call, hcall, hpc⟩ := hi.caller j hmu
    rcases resets_cases hpc with hpc | hpc
    · refine ⟨.caller j, s.resetCreated.setPc j call .resetEcho, rfl,
        by simp [step, hcall, callerStep, hpc], rfl, ?_⟩
      simp [St.connRank, St.resetCreated, St.setPc, hmu, hcall, hpc, Pc.toReset]
    · refine ⟨.caller j, s.resetEcho.setPc j call call.op.afterClose, rfl,
        by simp [step, hcall, callerStep, hpc], rfl, ?_⟩
      simp [St.connRank, St.resetEcho, St.setPc, hmu, hcall, hpc, Pc.toReset]
  | reader =>
    have hr := hi.reader hmu
    rcases readPc_resets_cases hr with hpc | hpc
    · refine ⟨.reader, { s.resetCreated with reader := .resetEcho }, hr,
        by simp [step, readerStep, hpc], rfl, ?_⟩
      simp [St.connRank, St.resetCreated, hmu, hpc, ReadPc.toReset]
    · refine ⟨.reader, { s.resetEcho with reader := .afterErr }, hr,
        by simp [step, readerStep, hpc], rfl, ?_⟩
      simp [St.connRank, St.resetEcho, hmu, hpc, ReadPc.toReset]

structure Live (i : ℕ) (s : St) : Prop where
  held : Held s
  closes : ClosesAt s
  call : ∃ call, s.calls i = some call

theorem Live.move (hi : Live i s) (hm : Move cfg s a t) : Live i t := by
  obtain ⟨call, hcall⟩ := hi.call
  obtain ⟨call', hcall', -⟩ := hm.call hcall
  exact ⟨hi.held.move hi.closes hm, hi.closes.move hm, call', hcall'⟩

theorem held_run (h : Reachable (step cfg) always (new cfg) t) : Held t ∧ ClosesAt t := by
  refine h.invariant (I := fun s => Held s ∧ ClosesAt s)
    ⟨held_new cfg, (orderly_new cfg).closes⟩ ?_
  rintro s a t ⟨hh, hc⟩ - hstep
  exact ⟨hh.move hc (step_move hstep), hc.move (step_move hstep)⟩

def Returned (i : ℕ) (s : St) : Prop :=
  ∃ call ret, s.calls i = some call ∧ call.pc = .returned ret

theorem Live.exists_step (hi : Live i s) (h : ¬ Returned i s) :
    ∃ a t, unanswered s a = true ∧ step cfg s a = some t ∧ Live i t ∧
      t.toReturn i < s.toReturn i := by
  obtain ⟨call, hcall⟩ := hi.call
  have hret : ∀ ret, call.pc ≠ .returned ret := by
    intro ret hpc
    exact h ⟨call, ret, hcall, hpc⟩
  cases hmu : s.connMu with
  | some who =>
    obtain ⟨a, t, ha, hstep, hmx, hconn⟩ := hi.held.exists_release cfg hmu
    have hm := step_move hstep
    refine ⟨a, t, ha, hstep, hi.move hm, ?_⟩
    have hmine := hm.rankOf_le hcall
    have hother := hi.held.mutexRank_le (i := i) hm hmx
    simp only [St.toReturn]
    omega
  | none =>
    by_cases hwait : call.pc = .lock ∧ s.mutex ≠ none
    · -- the holder of the mutex is another call, since this one waits for it
      obtain ⟨j, hj⟩ := Option.ne_none_iff_exists'.mp hwait.2
      obtain ⟨holder, hholder, hold⟩ := hi.held.mutex j hj
      have hne : j ≠ i := by
        rintro rfl
        cases Option.some.inj (hcall.symm.trans hholder)
        simp [Call.holds, hwait.1] at hold
      obtain ⟨a, t, ha, hstep, hnear⟩ := exists_nears cfg hholder hmu
        (by intro hpc; simp [Call.holds, hpc] at hold)
        (by intro ret hpc; simp [Call.holds, hpc] at hold)
      exact ⟨a, t, ha, hstep, hi.move (step_move hstep),
        hnear.holder (step_move hstep) hmu hcall hj hne⟩
    · obtain ⟨a, t, ha, hstep, hnear⟩ := exists_nears cfg hcall hmu
        (by intro hpc; by_contra hm; exact hwait ⟨hpc, hm⟩) hret
      exact ⟨a, t, ha, hstep, hi.move (step_move hstep),
        hnear.self hi.held (step_move hstep) hmu⟩

theorem Held.toReturn_le (hi : Held s) {call : Call} (hcall : s.calls i = some call) :
    s.toReturn i ≤ 71 := by
  have hmine : s.rankOf i ≤ 13 := by
    rw [rankOf_eq hcall]
    exact call.pc.rank_le s.now
  have hconn := connRank_le s
  have hmx : s.mutexRank i ≤ 10 := by
    cases hs : s.mutex with
    | none => simp [mutexRank_free hs]
    | some j =>
      by_cases hji : j = i
      · subst hji
        simp [mutexRank_self hs]
      · obtain ⟨holder, hholder, hold⟩ := hi.mutex j hs
        rw [mutexRank_of_ne hs hji, rankOf_eq hholder]
        cases hpc : holder.pc <;> simp [Call.holds, hpc] at hold <;> simp only [Pc.rank] <;>
          (try split_ifs) <;> omega
  simp only [St.toReturn]
  omega

/-- From every state of a client, every call in flight can return although the server stays
silent from then on, after at most 71 steps of the client. And whatever the others do, a call
takes at most 13 steps of its own. -/
theorem calls_return (cfg : Cfg) (s : St) (hs : Reachable (step cfg) always (new cfg) s) (i : ℕ)
    (call : Call) (hcall : s.calls i = some call) :
    (∃ acts t, run (step cfg) unanswered s acts = some t ∧ Returned i t ∧ acts.length ≤ 71) ∧
    (∀ acts t, run (step cfg) always s acts = some t → acts.countP (Act.own i) ≤ 13) := by
  obtain ⟨hheld, hcloses⟩ := held_run hs
  have hlive : Live i s := ⟨hheld, hcloses, call, hcall⟩
  constructor
  · obtain ⟨acts, t, hrun, hret, hlen⟩ :=
      Ranking.exists_run (St.toReturn i) (fun s hi h => Live.exists_step hi h) hlive
    exact ⟨acts, t, hrun, hret, hlen.trans (hheld.toReturn_le hcall)⟩
  · intro acts t hrun
    have hcount := Ranking.count_add_rank_le (I := Live i) (fun s => s.rankOf i) (Act.own i) ?_
      hlive hrun
    · have hmine : s.rankOf i ≤ 13 := by
        rw [rankOf_eq hcall]
        exact call.pc.rank_le s.now
      omega
    · intro s a t hi _ hstep
      obtain ⟨call, hcall⟩ := hi.call
      refine ⟨hi.move (step_move hstep), (step_move hstep).rankOf_le hcall, ?_⟩
      intro ha
      obtain ⟨call, pc, hcall, ho⟩ := step_own hstep ha
      exact ho.rankOf_lt hcall

def twoEchoActs : List Act := echoActs ++ [.call 1 (.echo [2]), .caller 1]

theorem calls_return_behind_echo :
    ∃ s, Reachable (step demoCfg) always (new demoCfg) s ∧ s.mutex = some 0 ∧
      ∃ acts t, run (step demoCfg) unanswered s acts = some t ∧ Returned 1 t ∧
        acts.length ≤ 71 :=
  ⟨_, ⟨twoEchoActs, rfl⟩, rfl, (calls_return demoCfg _ ⟨twoEchoActs, rfl⟩ 1 _ rfl).1⟩

end Gearman.Client
