import Gearman.Tally
import Gearman.WorkerMoves

/-!
# The table of tasks

Tasks are numbered in the order of their start and none is ever removed, so whatever is
counted over them is a `tally`. A step moves one task, starts one, or moves the two
that meet at an unbuffered channel.
-/

namespace Gearman.Worker.Machine
open Transition Tally

/-- Only tasks that have started are in the table. -/
def Named (s : St) : Prop := ∀ i task, s.tasks i = some task → i < s.ntask

inductive Change (s t : St) : Prop
  | none (ht : t.tasks = s.tasks) (hn : t.ntask = s.ntask)
  | one {i : ℕ} {task task' : Task} (h : s.tasks i = some task)
      (ht : t.tasks = Function.update s.tasks i (some task')) (hn : t.ntask = s.ntask)
  | new {task : Task} (ht : t.tasks = Function.update s.tasks s.ntask (some task))
      (hn : t.ntask = s.ntask + 1)
  | spawn {i : ℕ} {task task' new : Task} (h : s.tasks i = some task)
      (ht : t.tasks = Function.update (Function.update s.tasks i (some task')) s.ntask (some new))
      (hn : t.ntask = s.ntask + 1)
  | two {i j : ℕ} {task task' other other' : Task} (h : s.tasks i = some task)
      (h' : s.tasks j = some other)
      (ht : t.tasks = Function.update (Function.update s.tasks i (some task')) j (some other'))
      (hn : t.ntask = s.ntask)

variable {cfg : Cfg} {s t : St} {act : Act} {i : ℕ} {task task' new : Task} {w : Task → ℕ}

theorem shut_tasks (s : St) (old : Option ℕ) : (s.shut old).tasks = s.tasks := by
  cases old <;> rfl

theorem shut_ntask (s : St) (old : Option ℕ) : (s.shut old).ntask = s.ntask := by
  cases old <;> rfl

theorem publish_self (s : St) (k c : ℕ) : (s.publish k c).agents k =
    { s.agents k with conn := some c, rw := some c, epoch := s.nextEpoch k } :=
  Function.update_self ..

theorem publish_of_ne (s : St) {k k' : ℕ} (c : ℕ) (h : k' ≠ k) :
    (s.publish k c).agents k' = s.agents k' := Function.update_of_ne h ..

theorem shut_setTask (s : St) (old : Option ℕ) (i : ℕ) (task : Task) :
    ((s.shut old).setTask i task).tasks = Function.update s.tasks i (some task) := by
  rw [St.setTask, shut_tasks]

theorem closeAgent_setTask (s : St) (k i : ℕ) (task : Task) :
    ((s.closeAgent k).setTask i task).tasks = Function.update s.tasks i (some task) := by
  simp only [St.setTask, St.closeAgent, St.setAgent, shut_tasks]

theorem Move.change (hm : Move cfg s act t) : Change s t := by
  cases hm with
  | call op hc => exact .new rfl rfl
  | spawn h hs => exact .spawn h rfl rfl
  | shut h hs => exact .one h (shut_setTask s _ _ _) (shut_ntask s _)
  | closeAgent h hk => exact .one h (closeAgent_setTask s _ _ _) (shut_ntask s _)
  | handoff h h' hl => exact .two h h' rfl rfl
  | serve hc => exact .none rfl rfl
  | panic h hrw => exact .none rfl rfl
  | _ => exact .one (by assumption) rfl rfl

theorem Change.named (hc : Change s t) (hi : Named s) : Named t := by
  have fresh : ∀ {f : ℕ → Option Task} {task : Task}, (∀ j x, f j = some x → j < s.ntask) →
      ∀ j x, Function.update f s.ntask (some task) j = some x → j < s.ntask + 1 := by
    intro f task hf
    exact forall_update (Nat.lt_succ_self _) (fun j x hj => Nat.lt_succ_of_lt (hf j x hj))
  cases hc with
  | none ht hn =>
    rw [Named, ht, hn]
    exact hi
  | one h ht hn =>
    rw [Named, ht, hn]
    exact forall_update (hi _ _ h) hi
  | new ht hn =>
    rw [Named, ht, hn]
    exact fresh hi
  | spawn h ht hn =>
    rw [Named, ht, hn]
    exact fresh (forall_update (hi _ _ h) hi)
  | two h h' ht hn =>
    rw [Named, ht, hn]
    exact forall_update (hi _ _ h') (forall_update (hi _ _ h) hi)

theorem Named.move (hi : Named s) (hm : Move cfg s act t) : Named t := hm.change.named hi

theorem Named.new_none (hn : Named s) : s.tasks s.ntask = none := by
  cases h : s.tasks s.ntask with
  | none => rfl
  | some task => exact absurd (hn _ _ h) (Nat.lt_irrefl _)

theorem named_start : Named {} := by
  intro i task h
  cases h

theorem Move.frame (hm : Move cfg s act t) (hi : Named s) (h : s.tasks i = some task)
    (hx : ∀ job pc, task ≠ .exec job pc) (ha : act.runner ≠ some i) : t.tasks i = some task := by
  -- A task moves in its own steps only; an `exec` may also be met at `limit`.
  have other : ∀ {f : ℕ → Option Task} {j : ℕ} {x : Option Task}, some j ≠ some i →
      f i = some task → Function.update f j x i = some task := by
    intro f j x hj hf
    rw [Function.update_of_ne (fun heq => hj (congrArg some heq.symm)), hf]
  have fresh : some s.ntask ≠ some i := by
    rintro ⟨rfl⟩
    exact Nat.lt_irrefl _ (hi _ _ h)
  cases hm with
  | call op hc => exact other fresh h
  | pc hj hl hr => exact other (hr ▸ ha) h
  | spawn hj hs => exact other fresh (other ha h)
  | shut hj hs =>
    rw [shut_setTask]
    exact other ha h
  | report hj hr hrun => exact other (hrun ▸ ha) h
  | closeAgent hj hk =>
    rw [closeAgent_setTask]
    exact other ha h
  | recv hj hpc hin hr => exact other (hr ▸ ha) h
  | handoff hj hj' hl =>
    refine other ?_ (other ha h)
    rintro ⟨rfl⟩
    exact hx _ _ (Option.some.inj (h.symm.trans hj'))
  | serve hc => exact h
  | panic hj hrw => exact h
  | _ => exact other ha h

def St.total (s : St) (w : Task → ℕ) : ℕ := tally w s.tasks s.ntask

theorem total_update (hi : Named s) (h : s.tasks i = some task)
    (ht : t.tasks = Function.update s.tasks i (some task')) (hn : t.ntask = s.ntask) :
    t.total w + w task = s.total w + w task' := by
  rw [St.total, St.total, ht, hn]
  exact tally_update (hi i task h) h

theorem total_new (ht : t.tasks = Function.update s.tasks s.ntask (some new))
    (hn : t.ntask = s.ntask + 1) : t.total w = s.total w + w new := by
  rw [St.total, St.total, ht, hn]
  exact tally_spawn

theorem total_spawn (hi : Named s) (h : s.tasks i = some task)
    (ht : t.tasks = Function.update (Function.update s.tasks i (some task')) s.ntask (some new))
    (hn : t.ntask = s.ntask + 1) : t.total w + w task = s.total w + w task' + w new := by
  have hmid : (s.setTask i task').total w + w task = s.total w + w task' :=
    total_update hi h rfl rfl
  have hnew : t.total w = (s.setTask i task').total w + w new := total_new ht hn
  omega

end Gearman.Worker.Machine
