import Gearman.PoolClients

/-!
# What `Add` leaves in the pool

`Add` looks for its address in `Clients` and takes any client it finds there for a good
one. A client it has dialled itself is good: nobody else knows it before it is an entry.
A client it finds may have been closed by `Pool.Close`, which keeps the entries, and its
`readLoop` may have given up after a redial that failed.

The history of a run has the state each call was made in, and the clients on which the
pool has called `Close`.
-/

namespace Gearman.Client
variable {cfg : Cfg} {s t : St} {a : Act} {call : Call} {pc : Pc}

def Exited (s : St) : Prop := s.reader = .exit ∨ s.reader = .exited

theorem Exited.move (h : Exited s) (hm : Move cfg s a t) : Exited t := by
  rcases h with hexit | hexited
  · cases hm with
    | exit hpc => exact Or.inr rfl
    | reader hl => cases hl <;> simp_all
    | send hpc hin hfull => simp [hexit, ReadPc.sending] at hpc
    | _ => first | exact Or.inl hexit | simp_all
  · exact Or.inr (hm.exited_stays hexited)

structure Running (s : St) : Prop where
  unclosed : s.closed = false
  quiet : ∀ k call, s.calls k = some call → call.pc ≠ .setClosed
  reading : ¬ Exited s

theorem running_new (cfg : Cfg) : Running (new cfg) where
  unclosed := rfl
  quiet _ _ h := by cases h
  reading h := by
    rcases h with h | h
    · cases h
    · cases h

/-- Every step but a call to `Close` and a redial that fails. -/
def Act.spares : Act → Bool
  | .call _ .close => false
  | .dial (some _) => false
  | .optionReq (some _) => false
  | _ => true

theorem Local.ne_setClosed (h : Local s call pc) : pc ≠ .setClosed := by
  cases h with
  | noConn hpc hmu hc => cases call.op <;> simp [Op.afterClose]
  | _ => simp

theorem Shared.ne_setClosed (h : Shared t call pc) : pc ≠ .setClosed := by
  cases h with
  | abandon hpc => cases call.op <;> simp [Op.afterAbandon]
  | resetEcho hpc => cases call.op <;> simp [Op.afterClose]
  | _ => simp

theorem Move.exits (hm : Move cfg s a t) (h : Exited t) :
    Exited s ∨ s.closed = true ∨ a.spares = false := by
  cases hm with
  | exit hpc => exact Or.inl (Or.inl hpc)
  | refuse hpc hmu hc => exact Or.inr (Or.inl hc)
  | dialFailed hpc => exact Or.inr (Or.inr rfl)
  | optionFailed hpc => exact Or.inr (Or.inr rfl)
  | reader hl =>
    cases hl with
    | closed hpc hmu hc => exact Or.inr (Or.inl hc)
    | _ => simp [Exited] at h
  | publish hpc hmu hc =>
    simp only [Exited] at h
    split at h <;> simp at h
  | dialled hpc =>
    simp only [Exited] at h
    split at h <;> simp at h
  | _ => first | exact Or.inl h | simp [Exited] at h

theorem Running.move (hi : Running s) (hm : Move cfg s a t) (ha : a.spares = true) :
    Running t where
  unclosed := by
    cases hm with
    | setClosed h hpc hmu => exact absurd hpc (hi.quiet _ _ h)
    | _ => exact hi.unclosed
  quiet k call hk hpc := by
    rcases hm.call_origin hk with ⟨old, hold, hadv⟩ | ⟨-, -, hentry, -, -, rfl⟩
    · rcases hadv.pc with hsame | hl | hs
      · exact hi.quiet k old hold (hsame.symm.trans hpc)
      · exact hl.ne_setClosed hpc
      · exact hs.ne_setClosed hpc
    · rw [hpc] at hentry
      cases hop : call.op with
      | close => simp [hop, Act.spares] at ha
      | submit bg funcname data flag h id => cases bg <;> simp [hop, Op.entry] at hentry
      | _ => simp [hop, Op.entry] at hentry
  reading h := by
    rcases hm.exits h with hexited | hclosed | hspares
    · exact hi.reading hexited
    · simp [hi.unclosed] at hclosed
    · simp [ha] at hspares

end Gearman.Client

namespace Gearman.Pool
open Bytes Transition

variable {s t : St} {a : Act} {c i : ℕ} {item item' : Item} {call call' : Call}

structure History where
  began : ℕ → Option St := fun _ => none
  closed : List ℕ := []

def note (x : History) (s : St) (a : Act) (t : St) : History :=
  match a with
  | .call i _ => { x with began := Function.update x.began i (some s) }
  | .enter i _ =>
    match (t.calls i).map Call.pc with
    | some (.closing c _ _) => { x with closed := c :: x.closed }
    | _ => x
  | _ => x

/-- What `Add` should leave for its address when the call `i` returns. -/
structure Usable (x : History) (i : ℕ) (entry : PoolClient) : Prop where
  unclosed : entry.client ∉ x.closed
  alive : ∀ s item, x.began i = some s → s.items entry.client = some item →
    ¬ Client.Exited item.st

structure AddReturns (s t : St) (i : ℕ) (net addr : Bytes) (rate : ℤ) : Prop where
  before : ∃ call, s.calls i = some call ∧ call.op = .add net addr rate ∧
    ∀ ret, call.pc ≠ .returned ret
  after : ∃ call, t.calls i = some call ∧ call.pc = .returned .added

def isEntry (s : St) (c : ℕ) : Bool := s.clients.entries.any (fun e => e.2.client = c)

/-- A step that does not end a client of the pool: `Close` is called on clients only that
are not in `Clients` any more, and no redial fails. -/
def spares (s : St) : Act → Bool
  | .enter i _ =>
    match (s.calls i).map Call.pc with
    | some (.close (c :: _)) => !isEntry s c
    | _ => true
  | .client _ act => act.spares
  | _ => true

def Pc.held : Pc → Option ℕ
  | .dialled c => some c
  | .insert c => some c
  | _ => none

theorem Pc.mem_pending_of_held {pc : Pc} (h : pc.held = some c) : c ∈ pc.pending := by
  cases pc <;> simp_all [Pc.held, Pc.pending]

theorem isEntry_iff : isEntry s c = true ↔ ∃ addr, Entry s c addr := by
  simp only [isEntry, List.any_eq_true, decide_eq_true_eq]
  constructor
  · rintro ⟨⟨addr, entry⟩, hmem, hc⟩
    exact ⟨addr, entry, AList.mem_lookup_iff.mpr hmem, hc⟩
  · rintro ⟨addr, entry, hl, hc⟩
    exact ⟨⟨addr, entry⟩, AList.mem_lookup_iff.mp hl, hc⟩

theorem Move.pending_origin {j : ℕ} (hm : Move s a t) (hj : t.calls j = some call')
    (hc : c ∈ call'.pc.pending) :
    (∃ call, s.calls j = some call ∧ c ∈ call.pc.pending ∧
      (call'.pc.held = some c → call.pc.held = some c)) ∨
    (c = s.nitems ∧ ∃ cfg, a = .dial j cfg none) ∨
    ((∃ addr, Entry s c addr) ∧ call'.pc.held = none) := by
  by_cases hsame : s.calls j = some call'
  · exact Or.inl ⟨call', hsame, hc, id⟩
  cases hm with
  | client hd hs => exact absurd hj hsame
  | begin i op h =>
    obtain ⟨rfl, rfl⟩ := eq_of_update_ne hj hsame
    cases op <;> cases hc
  | dialled h hpc hop =>
    obtain ⟨rfl, rfl⟩ := eq_of_update_ne hj hsame
    exact Or.inr (Or.inl ⟨List.mem_singleton.mp hc, _, rfl⟩)
  | handler h hpc hd =>
    obtain ⟨rfl, rfl⟩ := eq_of_update_ne hj hsame
    exact Or.inl ⟨_, h, by rwa [hpc], by rw [hpc]; exact id⟩
  | lost h hpc hop hmu hl =>
    obtain ⟨rfl, rfl⟩ := eq_of_update_ne hj hsame
    exact Or.inl ⟨_, h, by rwa [hpc], by simp [Pc.held]⟩
  | enter h hpc hd hs =>
    obtain ⟨rfl, rfl⟩ := eq_of_update_ne hj hsame
    exact Or.inl ⟨_, h, by rwa [hpc], by simp [Pc.held]⟩
  | closed h hpc hd hi hr =>
    obtain ⟨rfl, rfl⟩ := eq_of_update_ne hj hsame
    exact Or.inl ⟨_, h, by rw [hpc]; exact List.mem_cons_of_mem _ hc, by simp [Pc.held]⟩
  | removed h hpc hop hmu hl =>
    obtain ⟨rfl, rfl⟩ := eq_of_update_ne hj hsame
    obtain rfl := List.mem_singleton.mp hc
    exact Or.inr (Or.inr ⟨⟨_, _, hl, rfl⟩, rfl⟩)
  | closeAll h hpc hop hmu hs =>
    obtain ⟨rfl, rfl⟩ := eq_of_update_ne hj hsame
    obtain ⟨e, he, rfl⟩ := List.mem_map.mp (hs.mem_iff.mp hc)
    exact Or.inr (Or.inr ⟨⟨e.1, e.2, AList.mem_lookup_iff.mpr he, rfl⟩, rfl⟩)
  | _ =>
    obtain ⟨rfl, rfl⟩ := eq_of_update_ne hj hsame
    cases hc

inductive ItemMove (s : St) (a : Act) (c : ℕ) (item item' : Item) : Prop
  | same (h : item'.st = item.st)
  | own {act : Client.Act} (ha : a = .client c act) (hs : item.step act = some item')
  | close {i k : ℕ} {call : Call} {cs : List ℕ} (ha : a = .enter i k)
      (h : s.calls i = some call) (hpc : call.pc = .close (c :: cs))
      (hs : item.step (.call k .close) = some item')

theorem item_move_set {d : ℕ} {old new : Item}
    (h : t.items = Function.update s.items d (some new)) (hd : s.items d = some old)
    (hmove : ItemMove s a d old new) (hc : s.items c = some item) :
    ∃ item', t.items c = some item' ∧ ItemMove s a c item item' := by
  by_cases hcd : c = d
  · subst hcd
    cases hc.symm.trans hd
    exact ⟨new, by rw [h, Function.update_self], hmove⟩
  · exact ⟨item, by rw [h, Function.update_of_ne hcd, hc], .same rfl⟩

theorem Move.item_move (hm : Move s a t) (hf : s.items s.nitems = none)
    (hc : s.items c = some item) :
    ∃ item', t.items c = some item' ∧ ItemMove s a c item item' := by
  cases hm with
  | dialled h hpc hop =>
    have hne : c ≠ s.nitems := by
      rintro rfl
      cases hf.symm.trans hc
    exact ⟨item, (Function.update_of_ne hne ..).trans hc, .same rfl⟩
  | handler h hpc hd => exact item_move_set rfl hd (.same rfl) hc
  | install h hpc hop hd => exact item_move_set rfl hd (.same rfl) hc
  | enter h hpc hd hs => exact item_move_set rfl hd (.close rfl h hpc hs) hc
  | client hd hs => exact item_move_set rfl hd (.own rfl hs) hc
  | _ => exact ⟨item, hc, .same rfl⟩

theorem ItemMove.exited (h : ItemMove s a c item item') (he : Client.Exited item.st) :
    Client.Exited item'.st := by
  have step : ∀ {act : Client.Act}, item.step act = some item' → Client.Exited item'.st := by
    intro act hs
    obtain ⟨u, hr, hu, rfl⟩ := Item.step_eq_some hs
    exact he.move (Client.step_move hu)
  cases h with
  | same h => exact h ▸ he
  | own ha hs => exact step hs
  | close ha h hpc hs => exact step hs

variable {x : History}

theorem note_began {s₀ : St} (h : (note x s a t).began i = some s₀) :
    x.began i = some s₀ ∨ s₀ = s ∧ ∃ op, a = .call i op := by
  cases a with
  | call j op =>
    rcases update_eq_some h with ⟨rfl, rfl⟩ | ⟨-, hold⟩
    · exact Or.inr ⟨rfl, op, rfl⟩
    · exact Or.inl hold
  | enter j k =>
    simp only [note] at h
    split at h <;> exact Or.inl h
  | _ => exact Or.inl h

theorem Move.note_closed (hm : Move s a t) (h : c ∈ (note x s a t).closed) :
    c ∈ x.closed ∨ ∃ i k call cs, a = .enter i k ∧ s.calls i = some call ∧
      call.pc = .close (c :: cs) := by
  cases hm with
  | @enter i k call d cs old new hcall hpc hd hs =>
    simp only [note, St.setPc, Function.update_self, Option.map_some, List.mem_cons] at h
    rcases h with rfl | h
    · exact Or.inr ⟨i, k, call, cs, rfl, hcall, hpc⟩
    · exact Or.inl h
  | _ => exact Or.inl h

structure Held (s : St) (x : History) (i c : ℕ) : Prop where
  unclosed : c ∉ x.closed
  unfiled : ∀ addr, ¬ Entry s c addr
  sole : ∀ j call, s.calls j = some call → c ∈ call.pc.pending → j = i
  recent : ∀ s₀, x.began i = some s₀ → s₀.nitems ≤ c

structure Apart (s : St) (x : History) : Prop where
  books : Books s
  pending : ∀ j call c, s.calls j = some call → c ∈ call.pc.pending → c < s.nitems
  closed : ∀ c ∈ x.closed, c < s.nitems
  past : ∀ i s₀, x.began i = some s₀ → Books s₀ ∧ s₀.nitems ≤ s.nitems ∧
    ∀ c item, s₀.items c = some item → Client.Exited item.st →
      ∃ item', s.items c = some item' ∧ Client.Exited item'.st
  held : ∀ i call c, s.calls i = some call → call.pc.held = some c → Held s x i c

theorem Books.lt_nitems (hb : Books s) (hc : s.items c = some item) : c < s.nitems := by
  by_contra hle
  cases (hb.fresh c (not_lt.mp hle)).symm.trans hc

theorem Books.entry_lt {addr : Bytes} (hb : Books s) (h : Entry s c addr) : c < s.nitems := by
  obtain ⟨entry, hl, rfl⟩ := h
  obtain ⟨item, hitem, -⟩ := hb.entries addr entry hl
  exact hb.lt_nitems hitem

theorem Move.dial_nitems {cfg : Client.Cfg} (hm : Move s (.dial i cfg none) t) :
    t.nitems = s.nitems + 1 ∧ t.clients = s.clients ∧
      ∃ net addr, t.items s.nitems = some (.new net addr i cfg) := by
  cases hm with
  | dialled h hpc hop => exact ⟨rfl, rfl, _, _, Function.update_self ..⟩

theorem Apart.pending_lt (hi : Apart s x) (hm : Move s a t) {j : ℕ} (hj : t.calls j = some call')
    (hc : c ∈ call'.pc.pending) : c < t.nitems := by
  rcases hm.pending_origin hj hc with ⟨call, hcall, hold, -⟩ | ⟨rfl, cfg, rfl⟩ | ⟨⟨addr, he⟩, -⟩
  · exact (hi.pending j call c hcall hold).trans_le hm.nitems_le
  · rw [hm.dial_nitems.1]
    exact Nat.lt_succ_self _
  · exact (hi.books.entry_lt he).trans_le hm.nitems_le

theorem Apart.closed_lt (hi : Apart s x) (hm : Move s a t) (hc : c ∈ (note x s a t).closed) :
    c < t.nitems := by
  rcases hm.note_closed hc with hold | ⟨j, k, call, cs, -, hcall, hpc⟩
  · exact (hi.closed c hold).trans_le hm.nitems_le
  · exact (hi.pending j call c hcall (by simp [hpc, Pc.pending])).trans_le hm.nitems_le

theorem Apart.held_new {cfg : Client.Cfg} (hi : Apart s x) (hm : Move s (.dial i cfg none) t) :
    Held t x i s.nitems := by
  obtain ⟨-, hclients, -⟩ := hm.dial_nitems
  constructor
  · intro hc
    exact lt_irrefl _ (hi.closed _ hc)
  · rintro addr ⟨entry, hl, hc⟩
    rw [hclients] at hl
    exact lt_irrefl _ (hi.books.entry_lt ⟨entry, hl, hc⟩)
  · intro j call hj hc
    rcases hm.pending_origin hj hc with ⟨old, hold, hmem, -⟩ | ⟨-, cfg', heq⟩ | ⟨⟨addr, he⟩, -⟩
    · exact absurd (hi.pending j old _ hold hmem) (lt_irrefl _)
    · cases heq
      rfl
    · exact absurd (hi.books.entry_lt he) (lt_irrefl _)
  · intro s₀ hs₀
    exact (hi.past i s₀ hs₀).2.1

theorem Apart.held_stays (hi : Apart s x) (hm : Move s a t) (hcall : s.calls i = some call)
    (hc : call.pc.held = some c) (hcall' : t.calls i = some call')
    (hc' : call'.pc.held = some c) : Held t (note x s a t) i c := by
  have hh : Held s x i c := hi.held i call c hcall hc
  have hlt : c < s.nitems := hi.pending i call c hcall (Pc.mem_pending_of_held hc)
  constructor
  · intro hclosed
    rcases hm.note_closed hclosed with hold | ⟨j, k, other, cs, -, hj, hpc⟩
    · exact hh.unclosed hold
    · obtain rfl := hh.sole j other hj (by simp [hpc, Pc.pending])
      cases hcall.symm.trans hj
      simp [hpc, Pc.held] at hc
  · rintro addr ⟨entry, hl, rfl⟩
    rcases hm.entry_origin hl with hold | ⟨j, other, net, rate, hj, -, hpc, hret⟩
    · exact hh.unfiled addr hold
    · obtain rfl := hh.sole j other hj (by simp [hpc, Pc.pending])
      cases hcall'.symm.trans hret
      cases hc'
  · intro j other hj hmem
    rcases hm.pending_origin hj hmem with ⟨old, hold, hin, -⟩ | ⟨rfl, -⟩ | ⟨⟨addr, he⟩, -⟩
    · exact hh.sole j old hold hin
    · exact absurd hlt (lt_irrefl _)
    · exact absurd he (hh.unfiled addr)
  · intro s₀ hs₀
    rcases note_began hs₀ with hold | ⟨-, op, rfl⟩
    · exact hh.recent s₀ hold
    · cases hm with
      | begin i op h => cases h.symm.trans hcall

theorem Apart.move (hi : Apart s x) (hm : Move s a t) : Apart t (note x s a t) where
  books := hi.books.move hm
  pending _ _ _ hj hc := hi.pending_lt hm hj hc
  closed _ hc := hi.closed_lt hm hc
  past i s₀ hs₀ := by
    have hf : s.items s.nitems = none := hi.books.fresh _ le_rfl
    have hnow : ∀ c item, s.items c = some item → Client.Exited item.st →
        ∃ item', t.items c = some item' ∧ Client.Exited item'.st := by
      intro c item hitem he
      obtain ⟨item', hitem', hmove⟩ := hm.item_move hf hitem
      exact ⟨item', hitem', hmove.exited he⟩
    rcases note_began hs₀ with hold | ⟨rfl, -⟩
    · obtain ⟨hb, hle, hpast⟩ := hi.past i s₀ hold
      refine ⟨hb, hle.trans hm.nitems_le, ?_⟩
      intro c item hitem he
      obtain ⟨now, hn, hen⟩ := hpast c item hitem he
      exact hnow c now hn hen
    · exact ⟨hi.books, hm.nitems_le, hnow⟩
  held i call' c hcall' hc' := by
    rcases hm.pending_origin hcall' (Pc.mem_pending_of_held hc') with
      ⟨call, hcall, -, hc⟩ | ⟨rfl, cfg, rfl⟩ | ⟨-, hnone⟩
    · exact hi.held_stays hm hcall (hc hc') hcall' hc'
    · exact hi.held_new hm
    · cases hnone.symm.trans hc'

def Pc.winding : Pc → Bool
  | .close _ => true
  | .closing _ _ _ => true
  | .install _ => true
  | _ => false

/-- `Add` closes the client it has lost with under the lock, so the rate it has set stays. -/
def Locked (s : St) : Prop :=
  ∀ i call net addr rate, s.calls i = some call → call.op = .add net addr rate →
    call.pc.winding = true →
      s.mutex = some i ∧ ∃ entry, s.clients.lookup addr = some entry ∧ entry.rate = rate

theorem Move.winding_origin {net addr : Bytes} {rate : ℤ} (hm : Move s a t)
    (hcall' : t.calls i = some call') (hop' : call'.op = .add net addr rate)
    (hw : call'.pc.winding = true) :
    (∃ call, s.calls i = some call ∧ call.op = .add net addr rate ∧ call.pc.winding = true) ∨
      t.mutex = some i ∧ ∃ entry, t.clients.lookup addr = some entry ∧ entry.rate = rate := by
  by_cases hsame : s.calls i = some call'
  · exact Or.inl ⟨call', hsame, hop', hw⟩
  cases hm with
  | client hd hs => exact absurd hcall' hsame
  | begin j op h =>
    obtain ⟨rfl, rfl⟩ := eq_of_update_ne hcall' hsame
    cases op <;> cases hw
  | lost h hpc hop hmu hl =>
    obtain ⟨rfl, rfl⟩ := eq_of_update_ne hcall' hsame
    cases hop.symm.trans hop'
    exact Or.inr ⟨rfl, _, AList.lookup_insert _, rfl⟩
  | removed h hpc hop hmu hl =>
    obtain ⟨rfl, rfl⟩ := eq_of_update_ne hcall' hsame
    cases hop.symm.trans hop'
  | closeAll h hpc hop hmu hs =>
    obtain ⟨rfl, rfl⟩ := eq_of_update_ne hcall' hsame
    cases hop.symm.trans hop'
  | installAll h hpc hop hmu hs =>
    obtain ⟨rfl, rfl⟩ := eq_of_update_ne hcall' hsame
    cases hop.symm.trans hop'
  | enter h hpc hd hs =>
    obtain ⟨rfl, rfl⟩ := eq_of_update_ne hcall' hsame
    exact Or.inl ⟨_, h, hop', by rw [hpc]; rfl⟩
  | closed h hpc hd hi hr =>
    obtain ⟨rfl, rfl⟩ := eq_of_update_ne hcall' hsame
    exact Or.inl ⟨_, h, hop', by rw [hpc]; rfl⟩
  | install h hpc hop hd =>
    obtain ⟨rfl, rfl⟩ := eq_of_update_ne hcall' hsame
    exact Or.inl ⟨_, h, hop', by rw [hpc]; rfl⟩
  | _ =>
    obtain ⟨rfl, rfl⟩ := eq_of_update_ne hcall' hsame
    cases hw

theorem Move.clients_locked (hm : Move s a t) (hmu : s.mutex ≠ none) :
    t.clients = s.clients ∧ (t.mutex = s.mutex ∨
      ∃ j call net addr rate, s.calls j = some call ∧ call.op = .add net addr rate ∧
        call.pc = .close [] ∧ t.calls j = some { call with pc := .returned .added }) := by
  cases hm with
  | @finish j call h hpc =>
    refine ⟨rfl, ?_⟩
    cases hop : call.op with
    | add net addr rate =>
      refine Or.inr ⟨j, call, net, addr, rate, h, hop, hpc, ?_⟩
      simp [finishStep, St.setPc, hop, Op.ret]
    | _ => exact Or.inl (by simp [finishStep, St.setPc, hop])
  | _ => first | exact ⟨rfl, Or.inl rfl⟩ | exact absurd (by assumption) hmu

theorem Locked.move (hi : Locked s) (hm : Move s a t) : Locked t := by
  intro i call' net addr rate hcall' hop' hw
  rcases hm.winding_origin hcall' hop' hw with ⟨call, hcall, hop, hwind⟩ | hlocked
  · obtain ⟨hmu, hentry⟩ := hi i call net addr rate hcall hop hwind
    obtain ⟨hclients, hlock⟩ := hm.clients_locked (by simp [hmu])
    rw [hclients]
    refine ⟨?_, hentry⟩
    rcases hlock with hlock | ⟨j, other, net', addr', rate', hj, hopj, hpc, hret⟩
    · exact hlock.trans hmu
    · -- the one that lets go is the holder, and it has returned
      have hmu' := (hi j other net' addr' rate' hj hopj (by rw [hpc]; rfl)).1
      cases hmu.symm.trans hmu'
      cases hcall'.symm.trans hret
      cases hw
  · exact hlocked

inductive Added (s t : St) (call : Call) (addr : Bytes) (rate : ℤ) : Prop
  | found {old : PoolClient} (hl : s.clients.lookup addr = some old)
      (hl' : t.clients.lookup addr = some { old with rate })
  | filed {c : ℕ} (hpc : call.pc = .insert c) (hl : s.clients.lookup addr = none)
      (hl' : t.clients.lookup addr = some { client := c, rate })
  | yielded (hpc : call.pc.winding = true) (hcl : t.clients = s.clients)

theorem Move.added {net addr : Bytes} {rate : ℤ} (hm : Move s a t)
    (hret : AddReturns s t i net addr rate) :
    ∃ call, s.calls i = some call ∧ call.op = .add net addr rate ∧ a = .caller i ∧
      Added s t call addr rate := by
  obtain ⟨⟨call, hcall, hop, hpc⟩, call', hcall', hpc'⟩ := hret
  refine ⟨call, hcall, hop, ?_⟩
  have hmoved : s.calls i ≠ some call' := by
    intro hsame
    cases hcall.symm.trans hsame
    exact hpc _ hpc'
  cases hm with
  | client hd hs => exact absurd hcall' hmoved
  | begin j op h =>
    obtain ⟨rfl, rfl⟩ := eq_of_update_ne hcall' hmoved
    cases h.symm.trans hcall
  | present h hpc₀ hop₀ hmu hl =>
    obtain ⟨rfl, rfl⟩ := eq_of_update_ne hcall' hmoved
    cases h.symm.trans hcall
    cases hop₀.symm.trans hop
    exact ⟨rfl, .found hl (AList.lookup_insert _)⟩
  | inserted h hpc₀ hop₀ hmu hl =>
    obtain ⟨rfl, rfl⟩ := eq_of_update_ne hcall' hmoved
    cases h.symm.trans hcall
    cases hop₀.symm.trans hop
    exact ⟨rfl, .filed hpc₀ hl (AList.lookup_insert _)⟩
  | finish h hpc₀ =>
    obtain ⟨rfl, rfl⟩ := eq_of_update_ne hcall' hmoved
    cases h.symm.trans hcall
    exact ⟨rfl, .yielded (by rw [hpc₀]; rfl) rfl⟩
  | installed h hpc₀ =>
    obtain ⟨rfl, rfl⟩ := eq_of_update_ne hcall' hmoved
    cases h.symm.trans hcall
    exact ⟨rfl, .yielded (by rw [hpc₀]; rfl) rfl⟩
  | _ =>
    obtain ⟨rfl, rfl⟩ := eq_of_update_ne hcall' hmoved
    cases hpc'

/-- A client that a caller of the pool gets, or will get when `Add` files it. -/
def InUse (s : St) (c : ℕ) : Prop :=
  (∃ addr, Entry s c addr) ∨ ∃ i call, s.calls i = some call ∧ call.pc.held = some c

theorem Move.inUse_origin (hm : Move s a t) (h : InUse t c) :
    InUse s c ∨ c = s.nitems ∧ ∃ i cfg, a = .dial i cfg none := by
  rcases h with ⟨addr, entry, hl, rfl⟩ | ⟨i, call, hcall, hc⟩
  · rcases hm.entry_origin hl with hold | ⟨j, other, net, rate, hj, -, hpc, -⟩
    · exact Or.inl (Or.inl ⟨addr, hold⟩)
    · exact Or.inl (Or.inr ⟨j, other, hj, by rw [hpc]; rfl⟩)
  · rcases hm.pending_origin hcall (Pc.mem_pending_of_held hc) with
      ⟨old, hold, -, hheld⟩ | ⟨hnew, cfg, ha⟩ | ⟨-, hnone⟩
    · exact Or.inl (Or.inr ⟨i, old, hold, hheld hc⟩)
    · exact Or.inr ⟨hnew, i, cfg, ha⟩
    · cases hnone.symm.trans hc

structure Fit (s : St) (x : History) : Prop where
  apart : Apart s x
  running : ∀ c, InUse s c → c ∉ x.closed ∧ ∃ item, s.items c = some item ∧
    Client.Running item.st

theorem Apart.spared {k : ℕ} {cs : List ℕ} (hi : Apart s x) (hu : InUse s c)
    (ha : spares s (.enter i k) = true) (hcall : s.calls i = some call) :
    call.pc ≠ .close (c :: cs) := by
  intro hpc
  rcases hu with hentry | ⟨j, other, hj, hc⟩
  · simp [spares, hcall, hpc, isEntry_iff.mpr hentry] at ha
  · obtain rfl := (hi.held j other c hj hc).sole i call hcall (by simp [hpc, Pc.pending])
    cases hcall.symm.trans hj
    simp [hpc, Pc.held] at hc

theorem Fit.move (hi : Fit s x) (hm : Move s a t) (ha : spares s a = true) :
    Fit t (note x s a t) := by
  refine ⟨hi.apart.move hm, ?_⟩
  intro c hu'
  rcases hm.inUse_origin hu' with hu | ⟨rfl, i, cfg, rfl⟩
  · obtain ⟨hclosed, item, hitem, hrun⟩ := hi.running c hu
    constructor
    · intro hc
      rcases hm.note_closed hc with hold | ⟨i, k, call, cs, rfl, hcall, hpc⟩
      · exact hclosed hold
      · exact hi.apart.spared hu ha hcall hpc
    · obtain ⟨item', hitem', hmove⟩ := hm.item_move (hi.apart.books.fresh _ le_rfl) hitem
      refine ⟨item', hitem', ?_⟩
      cases hmove with
      | same h => exact h ▸ hrun
      | own hact hs =>
        subst hact
        obtain ⟨u, hr, hstep, rfl⟩ := Item.step_eq_some hs
        exact hrun.move (Client.step_move hstep) ha
      | close hact hcall hpc hs =>
        subst hact
        exact absurd hpc (hi.apart.spared hu ha hcall)
  · obtain ⟨-, -, net, addr, hitem⟩ := hm.dial_nitems
    exact ⟨fun hc => lt_irrefl _ (hi.apart.closed _ hc), _, hitem, Client.running_new cfg⟩

theorem apart_new : Apart newPool {} where
  books := books_new
  pending _ _ _ h := by cases h
  closed _ h := by cases h
  past _ _ h := by cases h
  held _ _ _ h := by cases h

theorem fit_new : Fit newPool {} where
  apart := apart_new
  running c h := by
    rcases h with ⟨addr, entry, hl, -⟩ | ⟨i, call, hcall, -⟩
    · cases hl
    · cases hcall

theorem apart_reachable (h : Reachable (traced step note) always (newPool, {}) (s, x)) :
    Apart s x ∧ Locked s := by
  refine h.invariant (I := fun y => Apart y.1 y.2 ∧ Locked y.1) ⟨apart_new, ?_⟩ ?_
  · intro i call net addr rate hcall
    cases hcall
  · intro y a z hi _ hs
    obtain ⟨hstep, hz⟩ := traced_eq_some.mp hs
    have hm := step_move hstep
    exact ⟨hz ▸ hi.1.move hm, hi.2.move hm⟩

theorem fit_reachable
    (h : Reachable (traced step note) (fun y => spares y.1) (newPool, {}) (s, x)) : Fit s x := by
  refine h.invariant (I := fun y => Fit y.1 y.2) fit_new ?_
  intro y a z hi ha hs
  obtain ⟨hstep, hz⟩ := traced_eq_some.mp hs
  exact hz ▸ hi.move (step_move hstep) ha

theorem Fit.usable {entry : PoolClient} (hi : Fit s x) (hu : InUse s entry.client) :
    Usable x i entry := by
  obtain ⟨hclosed, item, hitem, hrun⟩ := hi.running _ hu
  refine ⟨hclosed, ?_⟩
  intro s₀ item₀ hs₀ hitem₀ hexited
  obtain ⟨now, hnow, hexited'⟩ := (hi.apart.past i s₀ hs₀).2.2 _ item₀ hitem₀ hexited
  cases hitem.symm.trans hnow
  exact hrun.reading hexited'

theorem Held.usable {entry : PoolClient} (hi : Apart s x) (h : Held s x i entry.client) :
    Usable x i entry := by
  refine ⟨h.unclosed, ?_⟩
  intro s₀ item₀ hs₀ hitem₀
  have hb := (hi.past i s₀ hs₀).1
  cases (hb.fresh _ (h.recent s₀ hs₀)).symm.trans hitem₀

/-- When `Add` returns `nil`, the entry has its rate. It is usable exactly if `Add` has found
no entry, or a usable one; and it is in every run in which no client is closed while it is
in the pool and no redial fails. -/
theorem add_usable (s t : St) (x : History) (a : Act) (i : ℕ) (net addr : Bytes) (rate : ℤ)
    (hr : Reachable (traced step note) always (newPool, {}) (s, x)) (hs : step s a = some t)
    (hret : AddReturns s t i net addr rate) :
    ∃ entry, t.clients.lookup addr = some entry ∧ entry.rate = rate ∧
      (Usable (note x s a t) i entry ↔
        ∀ old, s.clients.lookup addr = some old → Usable x i old) ∧
      (Reachable (traced step note) (fun y => spares y.1) (newPool, {}) (s, x) →
        Usable (note x s a t) i entry) := by
  obtain ⟨hapart, hlocked⟩ := apart_reachable hr
  obtain ⟨call, hcall, hop, rfl, hadded⟩ := (step_move hs).added hret
  have hnote : note x s (.caller i) t = x := rfl
  rw [hnote]
  cases hadded with
  | @found old hl hl' =>
    refine ⟨_, hl', rfl, ?_, fun hrun => (fit_reachable hrun).usable (Or.inl ⟨addr, old, hl, rfl⟩)⟩
    constructor
    · rintro ⟨hclosed, halive⟩ other hother
      cases hl.symm.trans hother
      exact ⟨hclosed, halive⟩
    · intro h
      exact ⟨(h old hl).unclosed, (h old hl).alive⟩
  | @filed c hpc hl hl' =>
    have hheld : Held s x i c := hapart.held i call c hcall (by rw [hpc]; rfl)
    have husable : Usable x i ⟨c, rate⟩ := hheld.usable hapart
    refine ⟨_, hl', rfl, iff_of_true husable ?_, fun _ => husable⟩
    intro old hold
    cases hl.symm.trans hold
  | yielded hpc hcl =>
    obtain ⟨-, entry, hl, hrate⟩ := hlocked i call net addr rate hcall hop hpc
    refine ⟨entry, hcl ▸ hl, hrate, ?_,
      fun hrun => (fit_reachable hrun).usable (Or.inl ⟨addr, entry, hl, rfl⟩)⟩
    constructor
    · intro h other hother
      cases hl.symm.trans hother
      exact h
    · exact fun h => h entry hl

def addedActs : List Act :=
  [.call 0 (.add [] demoAddr 1), .caller 0, .dial 0 Client.demoCfg none, .caller 0, .caller 0]

def addedTwice : List Act := addedActs ++ [.call 1 (.add [] demoAddr 2)]

theorem second_add_usable :
    ∃ s x t entry, run (traced step note) (fun y => spares y.1) (newPool, {}) addedTwice =
        some (s, x) ∧ step s (.caller 1) = some t ∧ t.clients.lookup demoAddr = some entry ∧
      entry.rate = 2 ∧ Usable x 1 entry := by
  obtain ⟨s, x, t, call, call', hrun, hfree, hs, hcall, hop, hpc, hcall', hpc'⟩ :
      ∃ s x t call call',
        run (traced step note) (fun y => spares y.1) (newPool, {}) addedTwice = some (s, x) ∧
        run (traced step note) always (newPool, {}) addedTwice = some (s, x) ∧
        step s (.caller 1) = some t ∧ s.calls 1 = some call ∧ call.op = .add [] demoAddr 2 ∧
        call.pc = .start ∧ t.calls 1 = some call' ∧ call'.pc = .returned .added :=
    ⟨_, _, _, _, _, rfl, rfl, rfl, rfl, rfl, rfl, rfl, rfl⟩
  have hret : AddReturns s t 1 [] demoAddr 2 :=
    ⟨⟨call, hcall, hop, by simp [hpc]⟩, call', hcall', hpc'⟩
  obtain ⟨entry, hl, hrate, -, husable⟩ :=
    add_usable s t x (.caller 1) 1 [] demoAddr 2 ⟨addedTwice, hfree⟩ hs hret
  exact ⟨s, x, t, entry, hrun, hs, hl, hrate, husable ⟨addedTwice, hrun⟩⟩

def closedActs : List Act :=
  addedActs ++ [.call 1 .close, .snapshot 1 [0], .enter 1 0, .client 0 (.caller 0),
    .client 0 (.caller 0), .client 0 (.caller 0), .client 0 (.caller 0), .caller 1, .caller 1,
    .call 2 (.add [] demoAddr 2)]

def failedRedial : List Client.Act :=
  Client.redialActs.dropLast ++ [.dial (some (.op false)), .reader]

def outageActs : List Act :=
  addedActs ++ failedRedial.map (.client 0) ++ [.call 2 (.add [] demoAddr 2)]

theorem add_keeps_dead_client :
    (∃ s x t entry, run (traced step note) always (newPool, {}) closedActs = some (s, x) ∧
      step s (.caller 2) = some t ∧ AddReturns s t 2 [] demoAddr 2 ∧
      t.clients.lookup demoAddr = some entry ∧ entry.client ∈ x.closed ∧ ¬ Usable x 2 entry) ∧
    ∃ s x t entry s₀ item, run (traced step note) always (newPool, {}) outageActs = some (s, x) ∧
      step s (.caller 2) = some t ∧ AddReturns s t 2 [] demoAddr 2 ∧
      t.clients.lookup demoAddr = some entry ∧ x.began 2 = some s₀ ∧
      s₀.items entry.client = some item ∧ Client.Exited item.st ∧ ¬ Usable x 2 entry := by
  constructor
  · refine ⟨_, _, _, _, rfl, rfl, ⟨⟨_, rfl, rfl, nofun⟩, _, rfl, rfl⟩, rfl, ?_, ?_⟩
    · exact List.mem_singleton.mpr rfl
    · exact fun h => h.unclosed (List.mem_singleton.mpr rfl)
  · refine ⟨_, _, _, _, _, _, rfl, rfl, ⟨⟨_, rfl, rfl, nofun⟩, _, rfl, rfl⟩, rfl, rfl, rfl, ?_, ?_⟩
    · exact Or.inr rfl
    · exact fun h => h.alive _ _ rfl rfl (Or.inr rfl)

end Gearman.Pool
