import Mathlib.Tactic

/-!
# Go's `time.Timer`

A timer that is set fires once, when its time has come, and leaves a value in its channel. The
version is the `go` line of the module that uses it: up to 1.22 the value stays until somebody
receives it, from 1.23 on `Reset` and `Stop` take it back.
-/

namespace Gearman.GoTimer

inductive Version
  | go122
  | go123
deriving DecidableEq, Repr

/-- `Reset` and `Stop` leave a value that nobody has received. -/
def Version.leavesTick : Version → Bool
  | .go122 => true
  | .go123 => false

structure Timer where
  expires : Option ℕ
  tick : Bool := false
deriving DecidableEq, Repr

def newTimer (now d : ℕ) : Timer := { expires := some (now + d) }

namespace Timer

def reset (v : Version) (now d : ℕ) (tm : Timer) : Timer :=
  { expires := some (now + d), tick := v.leavesTick && tm.tick }

def stop (v : Version) (tm : Timer) : Timer :=
  { expires := none, tick := v.leavesTick && tm.tick }

def fire (now : ℕ) (tm : Timer) : Option Timer :=
  tm.expires.bind (fun e => if e ≤ now then some { expires := none, tick := true } else none)

def receive (tm : Timer) : Option Timer :=
  if tm.tick then some { tm with tick := false } else none

/-- No value is received before `deadline`. -/
structure NotBefore (deadline now : ℕ) (tm : Timer) : Prop where
  expires : ∀ e, tm.expires = some e → deadline ≤ e
  tick : tm.tick = true → deadline ≤ now

variable {tm tm' : Timer} {deadline now d : ℕ}

theorem NotBefore.later {now' : ℕ} (h : tm.NotBefore deadline now) (hle : now ≤ now') :
    tm.NotBefore deadline now' :=
  ⟨h.expires, fun ht => (h.tick ht).trans hle⟩

theorem notBefore_new (h : deadline ≤ now + d) : (newTimer now d).NotBefore deadline now where
  expires := by
    intro e he
    cases he
    exact h
  tick := fun ht => by cases ht

theorem notBefore_reset (h : deadline ≤ now + d) :
    (tm.reset .go123 now d).NotBefore deadline now where
  expires := by
    intro e he
    cases he
    exact h
  tick := fun ht => by cases ht

theorem NotBefore.fire (h : tm.NotBefore deadline now) (hf : tm.fire now = some tm') :
    tm'.NotBefore deadline now := by
  obtain ⟨e, he, hf⟩ := Option.bind_eq_some_iff.mp hf
  split_ifs at hf with hle
  cases hf
  exact ⟨(fun _ hnone => by cases hnone), fun _ => (h.expires e he).trans hle⟩

theorem NotBefore.receive (h : tm.NotBefore deadline now) (hr : tm.receive = some tm') :
    deadline ≤ now := by
  unfold Timer.receive at hr
  split_ifs at hr with ht
  exact h.tick ht

/-- A value can be received from `deadline` on, and none has been sent yet. -/
def ReadyBy (deadline : ℕ) (tm : Timer) : Prop :=
  ∃ e, tm.expires = some e ∧ e ≤ deadline

theorem ReadyBy.fire_receive (h : tm.ReadyBy deadline) (hle : deadline ≤ now) :
    ∃ fired, tm.fire now = some fired ∧ fired.receive = some { expires := none } := by
  obtain ⟨e, he, hed⟩ := h
  exact ⟨{ expires := none, tick := true }, by simp [Timer.fire, he, hed.trans hle], rfl⟩

/-- A value is there, or comes by `bound`. -/
def Pending (bound : ℕ) (tm : Timer) : Prop :=
  tm.tick = true ∨ ∃ e, tm.expires = some e ∧ e ≤ bound

theorem Pending.mono {bound bound' : ℕ} (h : tm.Pending bound) (hle : bound ≤ bound') :
    tm.Pending bound' := by
  rcases h with ht | ⟨e, he, hb⟩
  · exact Or.inl ht
  · exact Or.inr ⟨e, he, hb.trans hle⟩

theorem pending_of_fire (hf : tm.fire now = some tm') (bound : ℕ) : tm'.Pending bound := by
  obtain ⟨e, he, hf⟩ := Option.bind_eq_some_iff.mp hf
  split_ifs at hf
  cases hf
  exact Or.inl rfl

end Timer
end Gearman.GoTimer
