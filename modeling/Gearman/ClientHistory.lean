import Gearman.ClientCorrelation

/-!
# What processLoop has done with the packets

The history of a run is the list of packets that `processLoop` is done with, each with the
handlers it was matched with, and the errors it has reported. Nothing in the machine reads it.
-/

namespace Gearman.Client
open Transition

structure Processed where
  packet : Packet
  taken : HandledResponse ℕ ℕ := {}
deriving DecidableEq, Repr

def ProcPc.current : ProcPc → Option Processed
  | .got p => some { packet := p }
  | .dispatch p => some { packet := p }
  | .deliver h p => some { packet := p, taken := h }
  | _ => none

structure History where
  log : List Processed := []
  told : List Err := []
deriving DecidableEq, Repr

/-- A step of `processLoop` moves its program counter, and no other step does. -/
def History.note (x : History) (s : St) (_ : Act) (t : St) : History :=
  if t.proc = s.proc then x
  else
    { log := if t.proc = .recv then x.log ++ s.proc.current.toList else x.log
      told := x.told ++ t.errs.drop s.errs.length }

def Op.external : Op → Option ℕ
  | .submit bg _ _ _ h _ => if bg then none else h
  | _ => none

variable {cfg : Cfg} {s t : St} {a : Act} {x : History} {p : Packet}

theorem note_same (h : t.proc = s.proc) : x.note s a t = x := if_pos h

theorem note_moved {pc pc' : ProcPc} (h : s.proc = pc) (h' : t.proc = pc') (hne : pc' ≠ pc) :
    x.note s a t = { log := if pc' = .recv then x.log ++ pc.current.toList else x.log
                     told := x.told ++ t.errs.drop s.errs.length } := by
  rw [History.note, h, h', if_neg hne]

theorem Move.process (hm : Move cfg s a t) (h : t.proc ≠ s.proc) : a = .process := by
  cases hm with
  | _ => first | rfl | exact absurd rfl h

theorem Move.got_step (hm : Move cfg s a t) (hpc : s.proc = .got p) (hne : t.proc ≠ s.proc) :
    t = gotStep s p := by
  cases hm with
  | got hpc' heq hnext =>
    cases hpc.symm.trans hpc'
    exact heq.symm
  | recv hpc' hin => cases hpc.symm.trans hpc'
  | procExit hpc' hin hc => cases hpc.symm.trans hpc'
  | dispatched hpc' htype heq => cases hpc.symm.trans hpc'
  | takeStatus hpc' htype => cases hpc.symm.trans hpc'
  | take k hpc' htype => cases hpc.symm.trans hpc'
  | dropReply hpc' hint => cases hpc.symm.trans hpc'
  | deliver hpc' hint hcall hr => cases hpc.symm.trans hpc'
  | _ => exact absurd rfl hne

theorem Move.logged (hm : Move cfg s a t) (x : History) :
    (x.note s a t).log = x.log ∨ ∃ q, (x.note s a t).log = x.log ++ [q] ∧ a = .process ∧
      s.proc.current = some q ∧ t.proc = .recv := by
  by_cases hp : t.proc = s.proc
  · exact Or.inl (by rw [note_same hp])
  · rw [note_moved rfl rfl hp]
    by_cases hr : t.proc = .recv
    · rw [if_pos hr]
      cases hc : s.proc.current with
      | none => exact Or.inl (List.append_nil _)
      | some q => exact Or.inr ⟨q, rfl, hm.process hp, rfl, hr⟩
    · exact Or.inl (if_neg hr)

theorem register_entry {hs : Handlers} {op : Op} {i : ℕ} {k : Which} {e : SlotEntry ℕ ℕ}
    (h : e ∈ ((hs.register op i).1.slot k).queue) :
    e ∈ (hs.slot k).queue ∨ (op.slot = some k ∧ e.h = ⟨some i, op.external⟩) := by
  by_cases hk : op.slot = some k
  · cases op with
    | submit bg funcname data flag cb uid =>
      cases hk
      exact (HandlerSlot.mem_set_queue h).imp_right (fun he => ⟨rfl, he⟩)
    | echo data =>
      cases hk
      exact (HandlerSlot.mem_set_queue h).imp_right (fun he => ⟨rfl, he⟩)
    | _ => cases hk
  · rw [Handlers.register_slot_ne _ hk] at h
    exact Or.inl h

theorem Move.entry (hm : Move cfg s a t) {k : Which} {e : SlotEntry ℕ ℕ} {i : ℕ}
    (he : e ∈ (t.handlers.slot k).queue) (hi : e.h.internal = some i) :
    e ∈ (s.handlers.slot k).queue ∨ ∃ call, s.calls i = some call ∧ call.op.slot = some k ∧
      e.h.external = call.op.external := by
  cases hm with
  | register h hpc =>
    refine (register_entry he).imp_right ?_
    rintro ⟨hop, heq⟩
    rw [heq] at hi ⊢
    cases hi
    exact ⟨_, h, hop, rfl⟩
  | @cancel j call token err h hpc =>
    refine Or.inl ?_
    by_cases hk : call.op.slot = some k
    · simp only [Handlers.cancel_slot _ hk] at he
      exact List.mem_of_mem_eraseP he
    · simpa only [Handlers.cancel_slot_ne _ hk] using he
  | @abandon j call token h hpc =>
    refine Or.inl ?_
    by_cases hk : call.op.slot = some k
    · simp only [Handlers.giveUp_slot _ hk] at he
      exact (HandlerSlot.mem_abandonFirst he).resolve_right (by simp [hi])
    · simpa only [Handlers.giveUp_slot_ne _ hk] using he
  | resetCreated h hpc =>
    cases k with
    | created => cases he
    | echo => exact Or.inl he
  | resetEcho h hpc =>
    cases k with
    | created => exact Or.inl he
    | echo => cases he
  | readerResetCreated hpc =>
    cases k with
    | created => cases he
    | echo => exact Or.inl he
  | readerResetEcho hpc =>
    cases k with
    | created => exact Or.inl he
    | echo => cases he
  | take k' hpc htype =>
    refine Or.inl ?_
    by_cases hk : k = k'
    · subst hk
      simp only [Handlers.setSlot_slot] at he
      exact HandlerSlot.take_queue_subset _ _ he
    · simpa only [Handlers.setSlot_slot_ne _ (Ne.symm hk)] using he
  | _ => exact Or.inl he

/-- An entry and a reply that is being delivered name a call of their queue, with the call's
own handler for its job. -/
structure Matched (s : St) : Prop where
  queue : ∀ k e i, e ∈ (s.handlers.slot k).queue → e.h.internal = some i →
    ∃ call, s.calls i = some call ∧ call.op.slot = some k ∧ e.h.external = call.op.external
  deliver : ∀ h p i, s.proc = .deliver h p → h.internal = some i →
    ∃ call, s.calls i = some call ∧ h.external = call.op.external ∧
      ∀ k : Which, call.op.slot = some k ↔ p.resp.dataType = k.replyType
  type : ∀ h p, s.proc = .deliver h p →
    p.resp.dataType = dtStatusRes ∨ ∃ k : Which, p.resp.dataType = k.replyType

theorem Matched.type_of (hi : Matched s) (P : UInt32 → Prop) {h : HandledResponse ℕ ℕ}
    (hpc : s.proc = .deliver h p) (hs : P dtStatusRes) (hk : ∀ k : Which, P k.replyType) :
    P p.resp.dataType := by
  rcases hi.type h p hpc with ht | ⟨k, ht⟩
  · rw [ht]
    exact hs
  · rw [ht]
    exact hk k

theorem Op.external_of_slot {op : Op} (h : op.slot ≠ some .created) : op.external = none := by
  cases op with
  | submit bg funcname data flag cb uid => exact absurd rfl h
  | _ => rfl

theorem replyType_inj {k k' : Which} (h : k.replyType = k'.replyType) : k = k' := by
  cases k <;> cases k' <;> first | rfl | exact absurd h (by decide)

theorem Matched.move (hi : Matched s) (hst : StatusOk s) (hm : Move cfg s a t) : Matched t := by
  have later : ∀ {i : ℕ} (P : Op → Prop), (∃ call, s.calls i = some call ∧ P call.op) →
      ∃ call, t.calls i = some call ∧ P call.op := by
    rintro i P ⟨call, hcall, hp⟩
    obtain ⟨call', hcall', hadv⟩ := hm.call hcall
    exact ⟨call', hcall', hadv.op ▸ hp⟩
  refine ⟨?_, ?_, ?_⟩
  · intro k e i he hint
    refine later (fun op => op.slot = some k ∧ e.h.external = op.external) ?_
    exact (hm.entry he hint).elim (fun hold => hi.queue k e i hold hint) id
  · intro h p i hpc hint
    have hold : s.proc = .deliver h p → ∃ call, t.calls i = some call ∧
        h.external = call.op.external ∧
        ∀ k : Which, call.op.slot = some k ↔ p.resp.dataType = k.replyType :=
      fun hs => later (fun op => h.external = op.external ∧
        ∀ k : Which, op.slot = some k ↔ p.resp.dataType = k.replyType) (hi.deliver h p i hs hint)
    cases hm with
    | got hpc' heq hnext => rcases hnext with rfl | rfl <;> cases hpc
    | takeStatus hpc' htype =>
      cases hpc
      obtain ⟨call, hcall, hop, -⟩ := hst _ i hint
      refine ⟨call, hcall, (Op.external_of_slot (by simp [hop])).symm, ?_⟩
      intro k
      rw [hop, htype]
      cases k <;> simp [Which.replyType] <;> decide
    | take k' hpc' htype =>
      cases hpc
      rcases HandlerSlot.take_cases (s.handlers.slot k') s.now with ⟨-, hnone⟩ | ⟨e, he, hsuf⟩
      · simp [hnone] at hint
      · rw [he] at hint ⊢
        obtain ⟨call, hcall, hop, hext⟩ :=
          hi.queue k' e i (hsuf.subset List.mem_cons_self) hint
        refine ⟨call, hcall, hext, ?_⟩
        intro k
        rw [hop, htype, Option.some.injEq]
        exact ⟨fun heq => by rw [heq], replyType_inj⟩
    | _ => first | exact hold hpc | cases hpc
  · intro h p hpc
    cases hm with
    | got hpc' heq hnext => rcases hnext with rfl | rfl <;> cases hpc
    | takeStatus hpc' htype =>
      cases hpc
      exact Or.inl htype
    | take k hpc' htype =>
      cases hpc
      exact Or.inr ⟨k, htype⟩
    | _ => first | exact hi.type h p hpc | cases hpc

theorem matched_new (cfg : Cfg) : Matched (new cfg) where
  queue k e i he := by cases k <;> cases he
  deliver h p i hpc := by cases hpc
  type h p hpc := by cases hpc

def Files (log : List Processed) (i : ℕ) (op : Op) (p : Packet) : Prop :=
  ∃ q ∈ log, q.packet = p ∧ q.taken.internal = some i ∧ q.taken.external = op.external ∧
    ∀ k : Which, op.slot = some k ↔ p.resp.dataType = k.replyType

/-- What a call was given and what it returns is in the log. -/
structure Filed (s : St) (log : List Processed) : Prop where
  result : ∀ i call p, s.calls i = some call → call.result = some p → Files log i call.op p
  rets : ∀ i call ret, s.calls i = some call → call.pc.ret = some ret → ret.replied = true →
    ∃ p, Files log i call.op p ∧ ret = call.op.reply p.resp

theorem Files.mono {log log' : List Processed} {i : ℕ} {op : Op} (h : Files log i op p)
    (hsub : log ⊆ log') : Files log' i op p := by
  obtain ⟨q, hq, hrest⟩ := h
  exact ⟨q, hsub hq, hrest⟩

theorem Move.log_grows (hm : Move cfg s a t) (x : History) : x.log ⊆ (x.note s a t).log := by
  rcases hm.logged x with heq | ⟨q, heq, -⟩ <;> rw [heq]
  · exact List.Subset.refl _
  · exact List.subset_append_left _ _

theorem Move.delivered (hm : Move cfg s a t) {i : ℕ} {call call' : Call}
    (hcall : s.calls i = some call) (hcall' : t.calls i = some call') :
    call'.result = call.result ∨ ∃ h p, s.proc = .deliver h p ∧ h.internal = some i ∧
      call'.result = some p ∧ ⟨p, h⟩ ∈ (x.note s a t).log := by
  have same : ∀ {j : ℕ} {old : Call} {pc : Pc}, s.calls j = some old →
      t.calls = Function.update s.calls j (some { old with pc }) → call'.result = call.result := by
    intro j old pc hold ht
    rw [ht] at hcall'
    rcases update_eq_some hcall' with ⟨rfl, rfl⟩ | ⟨_, hsame⟩
    · cases Option.some.inj (hcall.symm.trans hold)
      rfl
    · cases Option.some.inj (hcall.symm.trans hsame)
      rfl
  cases hm with
  | begin j op h =>
    rcases update_eq_some hcall' with ⟨rfl, -⟩ | ⟨_, hsame⟩
    · simp [h] at hcall
    · cases Option.some.inj (hcall.symm.trans hsame)
      exact Or.inl rfl
  | deliver hpc hint hj hr =>
    rcases update_eq_some hcall' with ⟨rfl, rfl⟩ | ⟨_, hsame⟩
    · refine Or.inr ⟨_, _, hpc, hint, rfl, ?_⟩
      rw [note_moved hpc rfl (by simp)]
      simp [ProcPc.current]
    · cases Option.some.inj (hcall.symm.trans hsame)
      exact Or.inl rfl
  | _ => first
    | exact Or.inl (same (by assumption) rfl)
    | exact Or.inl (by rw [Option.some.inj (hcall'.symm.trans hcall)])

theorem Filed.move (hi : Filed s x.log) (hmt : Matched s) (hm : Move cfg s a t) :
    Filed t (x.note s a t).log := by
  have hgrow := hm.log_grows x
  refine ⟨?_, ?_⟩
  · intro i call' p hcall' hr
    rcases hm.call_origin hcall' with ⟨call, hcall, hadv⟩ | ⟨-, hnone, -⟩
    · rw [hadv.op]
      rcases hm.delivered (x := x) hcall hcall' with heq | ⟨h, p', hpc, hint, hres, hlog⟩
      · exact (hi.result i call p hcall (heq.symm.trans hr)).mono hgrow
      · cases Option.some.inj (hres.symm.trans hr)
        obtain ⟨call'', hcall'', hext, hslot⟩ := hmt.deliver h p i hpc hint
        cases Option.some.inj (hcall.symm.trans hcall'')
        exact ⟨_, hlog, rfl, hint, hext, hslot⟩
    · simp [hnone] at hr
  · intro i call' ret hcall' hret hr
    obtain ⟨call, hcall, hop, hold | ⟨p, hres, heq⟩⟩ := hm.returns hcall' hret hr
    · obtain ⟨p, hp, heq⟩ := hi.rets i call ret hcall hold hr
      rw [← hop]
      exact ⟨p, hp.mono hgrow, heq⟩
    · rw [← hop]
      exact ⟨p, (hi.result i call p hcall hres).mono hgrow, heq⟩

theorem filed_new (cfg : Cfg) : Filed (new cfg) [] where
  result i call p h := by cases h
  rets i call ret h := by cases h

end Gearman.Client
