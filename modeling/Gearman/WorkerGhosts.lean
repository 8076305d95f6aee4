import Gearman.WorkerReannounce

/-!
# Removed functions on the connection of a `Reconnect`

`reconnect` writes its snapshot packet by packet without `worker.Mutex`. A function that
`RemoveFunc` takes out meanwhile has its `CANT_DO` written at once, and its packet of the
snapshot may come after that: the server then knows a name the worker does not. The names
on the table are all functions, or are about to be taken off it, as long as `reconnect`
writes no packet of a function that is gone.
-/

namespace Gearman.Worker.Machine
open Bytes Transition

def Task.announces (k : ℕ) : Task → Bool
  | .write _ _ next => next.announces k
  | .call _ .setReady => true
  | .call _ (.resume a _ _) => a = k
  | _ => false

/-- What the tasks are about to write: a name is put on a table by who announces to that
agent, or while it is a function; and it is written on the published connection of the agent. -/
structure Spoken (s : St) : Prop where
  guarded : Guarded s
  names : ∀ i task k o p name, s.tasks i = some task → task.Pending k o p → Known [p] name →
    task.announces k = true ∨ task.changes = true ∧ (s.funcs.lookup name).isSome = true
  bound : ∀ i task k c p, s.tasks i = some task → task.Pending k (some c) p →
    (s.conns c).published = true ∧ (s.conns c).agent = k
  unsent : ∀ c, (s.conns c).published = false → (s.conns c).sent = []

def alone (a r : ℕ) (s : St) (act : Act) : Bool :=
  undisturbed a r s act &&
    (act.runner = some r || (act.runner.bind s.tasks).all (fun task => !task.announces a))

/-- What the reconnect `r` writes about is still a function. -/
def remembered (r : ℕ) (s : St) : Act → Bool
  | .flush i _ =>
    match s.tasks i with
    | some (.write ((_, p) :: _) _ _) =>
      i ≠ r || (Calls.abilities [p]).keys.all (fun name => (s.funcs.lookup name).isSome)
    | _ => true
  | _ => true

def Ghostless (a c : ℕ) (s : St) : Prop :=
  ∀ name, Known (s.conns c).sent name → (s.funcs.lookup name).isSome = true ∨
    ∃ i task p, s.tasks i = some task ∧ task.changes = true ∧ task.OnWay a c p ∧ Erases p name

variable {cfg : Cfg} {s t : St} {act : Act} {i k c a r : ℕ} {task : Task} {o : Option ℕ}
variable {todo : List (ℕ × OutPack)} {funcs : JobFuncs} {name : Bytes} {p : OutPack}

theorem known_concat {log : List OutPack} (h : Known (log ++ [p]) name) :
    Known [p] name ∨ Known log name ∧ ¬ Erases p name := by
  unfold Known at h ⊢
  rw [Calls.abilities_append] at h
  cases teaches p with
  | insert body n hp hl =>
    rw [hl, Calls.lookup_insert_eq] at h
    split_ifs at h with hname
    · refine Or.inl ?_
      simp only [Calls.abilities, List.foldl_cons, List.foldl_nil, hl, Calls.lookup_insert_eq,
        if_pos hname, Option.isSome_some]
    · exact Or.inr ⟨h, hp name⟩
  | erase hp hl =>
    refine Or.inr ?_
    rw [hl] at h
    by_cases hname : name = p.body
    · subst hname
      simp at h
    · rw [AList.lookup_erase_ne hname] at h
      refine ⟨h, ?_⟩
      rintro (⟨-, hbody⟩ | htype)
      · exact hname hbody.symm
      · rw [hp] at htype
        exact absurd htype (by decide)
  | reset _ hl =>
    rw [hl] at h
    cases h
  | nothing hp hl =>
    rw [hl] at h
    exact Or.inr ⟨h, hp name⟩

theorem known_type (h : Known [p] name) :
    p.dataType = dtCanDo ∨ p.dataType = dtCanDoTimeout := by
  by_contra hne
  obtain ⟨hcan, htimeout⟩ := not_or.mp hne
  simp only [Known, Calls.abilities, List.foldl_cons, List.foldl_nil, Calls.learn, if_neg hcan,
    if_neg htimeout] at h
  split_ifs at h
  · rcases eq_or_ne name p.body with rfl | hname
    · simp at h
    · rw [AList.lookup_erase_ne hname] at h
      cases h
  · cases h
  · cases h

theorem Neutral.not_known (h : Neutral p) : ¬ Known [p] name := by
  intro hk
  rcases known_type hk with hty | hty <;> exact h (by rw [hty]; decide)

theorem known_funcPack_eq {funcname : Bytes} {timeout : UInt32}
    (h : Known [Calls.funcPack funcname timeout] name) : name = funcname := by
  -- A registration is about one name: with a NUL byte in it, what follows is no number.
  simp only [Known, Calls.abilities, List.foldl_cons, List.foldl_nil] at h
  let f : JobFunc := ⟨fun _ => .returned [] none, timeout⟩
  by_cases hn : Calls.nameable funcname f = true
  · rw [Calls.learn_funcPack (f := f) ∅ hn, Calls.lookup_insert_eq] at h
    split_ifs at h with hname
    · exact hname
    · cases h
  · obtain ⟨htimeout, hnul⟩ : timeout ≠ 0 ∧ (0 : UInt8) ∈ funcname := by
      simpa [Calls.nameable, f] using hn
    obtain ⟨front, rest, rfl, hfront⟩ := (split_cases 0 funcname).resolve_left (not_not.mpr hnul)
    have hparse : Decimal.parseUint (rest ++ 0 :: Decimal.formatUint timeout.toNat) = none :=
      Decimal.parseUint_eq_none (List.mem_append_right _ List.mem_cons_self) (by decide)
    have hbody : (Calls.funcPack (front ++ 0 :: rest) timeout).body =
        front ++ 0 :: (rest ++ 0 :: Decimal.formatUint timeout.toNat) := by
      simp [Calls.funcPack, OutPack.body, htimeout, dtCanDoTimeout, dtWorkFail]
    have htype : (Calls.funcPack (front ++ 0 :: rest) timeout).dataType = dtCanDoTimeout := by
      simp [Calls.funcPack, htimeout]
    simp [Calls.learn, htype, hbody, indexByte_append _ _ hfront, hparse, dtCanDoTimeout,
      dtCanDo] at h

theorem announces_last (task : Task) (k : ℕ) : task.last.announces k = task.announces k := by
  induction task with
  | write todo stage next ih => exact ih
  | _ => rfl

theorem Changes.known {op : Op} (hc : Changes cfg s op funcs todo) (hp : (k, p) ∈ todo)
    (hk : Known [p] name) : (funcs.lookup name).isSome = true := by
  cases hc with
  | add hf =>
    cases (mem_broadcast.mp hp).2
    cases known_funcPack_eq hk
    rw [AList.lookup_insert]
    rfl
  | remove =>
    cases (mem_broadcast.mp hp).2
    rcases known_type hk with hty | hty <;> exact absurd hty (show dtCantDo ≠ _ by decide)

theorem Move.sent_cases (hm : Move cfg s act t) (c : ℕ) :
    (t.conns c).sent = (s.conns c).sent ∨ (t.conns c).sent = [] ∨
      ∃ i task k p, s.tasks i = some task ∧ task.Pending k (some c) p := by
  cases hm with
  | dial h hd =>
    by_cases hc : c = s.nconn
    · subst hc
      exact Or.inr (Or.inl (by simp [St.setTask, St.dialled, St.setConnAt]))
    · exact Or.inl (congrArg Conn.sent (Function.update_of_ne hc ..))
  | @publish i k c' task task' h hp => exact Or.inl (publish_sent s k c' c)
  | shut h hs => exact Or.inl (shut_sent s _ c)
  | closeAgent h hk => exact Or.inl (shut_sent s _ c)
  | @sent i k c' p rest next h hopen =>
    by_cases hc : c = c'
    · subst hc
      exact Or.inr (Or.inr ⟨i, _, k, p, h, List.mem_append_left _ (List.mem_singleton.mpr rfl)⟩)
    · exact Or.inl (congrArg Conn.sent (Function.update_of_ne hc ..))
  | read h hw =>
    refine Or.inl (setConn_sent rfl ?_ c)
    rfl
  | serve hc =>
    refine Or.inl (setConn_sent rfl ?_ c)
    rfl
  | _ => exact Or.inl rfl

theorem Spoken.sent_nil (hi : Spoken s) (hm : Move cfg s act t)
    (hc : (s.conns c).published = false) : (t.conns c).sent = [] := by
  rcases hm.sent_cases c with hsame | hnil | ⟨i, task, k, p, h, hp⟩
  · exact hsame.trans (hi.unsent c hc)
  · exact hnil
  · have hpub := (hi.bound i task k c p h hp).1
    simp [hc] at hpub

theorem Spoken.move (hi : Spoken s) (hc : Conns s) (hm : Move cfg s act t) : Spoken t where
  guarded := hi.guarded.move hm
  names := by
    intro j x k o p name hj hp hk
    have held : ∀ {y : Task} {o : Option ℕ}, s.tasks j = some y → x.last = y.last →
        y.Pending k o p →
        x.announces k = true ∨ x.changes = true ∧ (t.funcs.lookup name).isSome = true := by
      intro y o hy hl hpend
      rw [← announces_last x, ← changes_last x, hl, announces_last, changes_last]
      rcases hi.names j y k o p name hy hpend hk with ha | ⟨hch, hname⟩
      · exact Or.inl ha
      · have hmu : s.mutex ≠ none := by simp [hi.guarded j y hy hch]
        exact Or.inr ⟨hch, (hm.funcs_eq hmu).symm ▸ hname⟩
    cases hm.origin hj hp with
    | kept hy hl hpend => exact held hy hl hpend
    | bound hy hl hpend hrw => exact held hy hl hpend
    | neutral hp => exact absurd hk hp.not_known
    | ready hl =>
      rw [← announces_last x, hl]
      exact Or.inl rfl
    | reconnect hl =>
      rw [← announces_last x, hl]
      exact Or.inl (decide_eq_true rfl)
    | reset hl =>
      rcases known_type hk with hty | hty <;>
        exact absurd hty (show dtResetAbilities ≠ _ by decide)
    | change hl hch hmem =>
      rw [← changes_last x, hl]
      exact Or.inr ⟨rfl, hch.known hmem hk⟩
  bound := by
    intro j x k c p hj hp
    cases hm.origin hj hp with
    | @kept y _ _ hy hl hpend =>
      obtain ⟨hpub, hagent⟩ := hi.bound j y k c p hy hpend
      obtain ⟨hpub', hagent'⟩ := hm.shown hc c hpub
      exact ⟨hpub', hagent'.trans hagent⟩
    | bound hy hl hpend hrw =>
      obtain ⟨-, hagent, hpub⟩ := hc.rw k c hrw
      obtain ⟨hpub', hagent'⟩ := hm.shown hc c hpub
      exact ⟨hpub', hagent'.trans hagent⟩
  unsent := by
    intro c hpub
    refine hi.sent_nil hm ?_
    by_contra hne
    have hpub' := (hm.shown hc c (by simpa using hne)).1
    simp [hpub] at hpub'

theorem spoken_start : Spoken {} where
  guarded := orderly_start.holder
  names := by
    intro i task k o p name h
    cases h
  bound := by
    intro i task k c p h
    cases h
  unsent := fun c _ => rfl

theorem Ghostless.carried (hi : Ghostless a c s) (hc : Carried a c s t) (hf : t.funcs = s.funcs)
    (hsent : (t.conns c).sent = (s.conns c).sent) : Ghostless a c t := by
  intro name hk
  rw [hf]
  rcases hi name (hsent ▸ hk) with hname | ⟨j, x, p, hj, hch, hp, he⟩
  · exact Or.inl hname
  · obtain ⟨x', hj', hx'⟩ := hc j x hj
    obtain ⟨hp', hch'⟩ := hx' p hp
    exact Or.inr ⟨j, x', p, hj', hch' hch, hp', he⟩

theorem Ghostless.change (hi : Ghostless a c s) (hg : Guarded s) (hagent : a < cfg.nagents)
    {op : Op} (hmu : s.mutex = none) (hch : Changes cfg s op funcs todo)
    (ht : t.tasks = Function.update s.tasks i (some (writes todo (.call op .unlockWorker))))
    (hf : t.funcs = funcs) (hsent : (t.conns c).sent = (s.conns c).sent) : Ghostless a c t := by
  -- Nobody holds the lock before the change, so every name on the table is a function; the one
  -- that is removed is about to be taken off.
  intro name hk
  rw [hf]
  have hname : (s.funcs.lookup name).isSome = true := by
    rcases hi name (hsent ▸ hk) with hname | ⟨j, x, p, hj, hx, -⟩
    · exact hname
    · cases hmu.symm.trans (hg j x hj hx)
  cases hch with
  | @add funcname f hnew =>
    refine Or.inl ?_
    by_cases hne : name = funcname
    · subst hne
      rw [AList.lookup_insert]
      rfl
    · rw [AList.lookup_insert_ne hne]
      exact hname
  | @remove funcname =>
    by_cases hne : name = funcname
    · subst hne
      refine Or.inr ⟨i, _, { dataType := dtCantDo, data := name },
        by rw [ht, Function.update_self], changes_writes _ _, ?_, Or.inl ⟨rfl, ?_⟩⟩
      · exact onWay_writes.mpr (Or.inl (mem_broadcast.mpr ⟨hagent, rfl⟩))
      · simp [OutPack.body, dtCantDo, dtWorkFail]
    · rw [AList.lookup_erase_ne hne]
      exact Or.inl hname

theorem Ghostless.sent (hi : Ghostless a c s) {k' c' : ℕ} {rest : List (ℕ × OutPack)}
    {next : Task} (h : s.tasks i = some (.write ((k', p) :: rest) (.flush c') next))
    (hnames : c = c' → ∀ name, Known [p] name → (s.funcs.lookup name).isSome = true) :
    Ghostless a c ((s.setConnAt c' { s.conns c' with
      sent := (s.conns c').sent ++ [p] }).setTask i (.write ((k', p) :: rest) .unlock next)) := by
  have keep : ∀ name, Known (s.conns c).sent name → (c = c' → ¬ Erases p name) →
      (s.funcs.lookup name).isSome = true ∨ ∃ j x q,
        Function.update s.tasks i (some (.write ((k', p) :: rest) .unlock next)) j = some x ∧
          x.changes = true ∧ x.OnWay a c q ∧ Erases q name := by
    intro name hk hp
    rcases hi name hk with hname | ⟨j, x, q, hj, hch, hq, he⟩
    · exact Or.inl hname
    refine Or.inr ?_
    by_cases hij : j = i
    · subst hij
      cases Option.some.inj (h.symm.trans hj)
      rcases onWay_getRW.mp hq with heq | hq
      · cases heq
        exact absurd he (hp rfl)
      · exact ⟨j, _, q, Function.update_self .., hch, hq, he⟩
    · exact ⟨j, x, q, (Function.update_of_ne hij ..).trans hj, hch, hq, he⟩
  intro name hk
  by_cases hc : c = c'
  · subst hc
    simp only [St.setTask, St.setConnAt, Function.update_self] at hk
    rcases known_concat hk with hk | ⟨hk, hp⟩
    · exact Or.inl (hnames rfl name hk)
    · exact keep name hk (fun _ => hp)
  · simp only [St.setTask, St.setConnAt, Function.update_of_ne hc] at hk
    exact keep name hk (fun heq => absurd heq hc)

theorem Ghostless.of_nil (h : (s.conns c).sent = []) : Ghostless a c s := by
  intro name hk
  rw [h] at hk
  cases hk

theorem Move.rw_old (hm : Move cfg s act t) (hc : Conns s) (h : (t.agents a).rw = some c) :
    (s.agents a).rw = some c ∨ (s.conns c).published = false := by
  cases hm.effect with
  | steady hf hk => exact Or.inl (hk.rw a ▸ h)
  | dial hi hd ht =>
    subst ht
    exact Or.inl h
  | @publish i k c' task task' hi hp ht =>
    subst ht
    by_cases hk : a = k
    · subst hk
      simp only [St.setTask, publish_self, Option.some.injEq] at h
      exact Or.inr (h ▸ (hc.fresh i task a c' hi hp.dialled.1).2.2)
    · simp only [St.setTask, publish_of_ne s c' hk] at h
      exact Or.inl h

theorem alone_undisturbed (h : alone a r s act = true) : undisturbed a r s act = true :=
  (Bool.and_eq_true_iff.mp h).1

theorem alone_runner (hg : alone a r s act = true) (ha : act.runner = some i)
    (h : s.tasks i = some task) (hann : task.announces a = true) : i = r := by
  simpa [alone, ha, h, hann] using (Bool.and_eq_true_iff.mp hg).2

theorem remembered_flush {k' c' : ℕ} {rest : List (ℕ × OutPack)} {next : Task} {ok : Bool}
    (hg : remembered r s (.flush r ok) = true)
    (h : s.tasks r = some (.write ((k', p) :: rest) (.flush c') next)) (hk : Known [p] name) :
    (s.funcs.lookup name).isSome = true := by
  simp only [remembered, h, ne_eq, not_true_eq_false, decide_false, Bool.false_or,
    List.all_eq_true] at hg
  exact hg name (AList.mem_keys.mp (AList.lookup_isSome.mp hk))

structure Tracked (a r n : ℕ) (s : St) : Prop where
  reconnecting : Reconnecting a r n s
  spoken : Spoken s
  ghostless : ∀ c, n ≤ c → (s.agents a).rw = some c → Ghostless a c s

variable {n : ℕ}

theorem Tracked.step (hi : Tracked a r n s) (hagent : a < cfg.nagents)
    (hg : alone a r s act = true) (hg' : remembered r s act = true)
    (hs : Machine.step cfg s act = some t) : Tracked a r n t := by
  have hm : Move cfg s act t := step_move hs
  have hr := hi.reconnecting
  have hu := alone_undisturbed hg
  refine ⟨hr.step hagent hu hs, hi.spoken.move hr.conns hm, ?_⟩
  intro c hc hrw
  rcases hm.rw_old hr.conns hrw with hold | hnew
  · obtain ⟨hlt, hown, -⟩ := hr.conns.rw a c hold
    have hghost := hi.ghostless c hc hold
    cases step_passes hr.named hlt hold hr.running hu hs with
    | carried hc hf hsent => exact hghost.carried hc hf hsent
    | change h hmu hch ht hf hsent =>
      exact hghost.change hi.spoken.guarded hagent hmu hch ht hf hsent
    | @sent i k c' p rest next h hd ht =>
      subst ht
      refine hghost.sent h ?_
      rintro rfl name hk
      have hp : (Task.write ((k, p) :: rest) (.flush c) next).Pending k (some c) p :=
        List.mem_append_left _ (List.mem_singleton.mpr rfl)
      have hka : k = a := (hi.spoken.bound i _ k c p h hp).2.symm.trans hown
      subst hka
      rcases hi.spoken.names i _ k _ p name h hp hk with hann | ⟨-, hname⟩
      · have hir : i = r := alone_runner hg rfl h hann
        subst hir
        exact remembered_flush hg' h hk
      · exact hname
  · exact .of_nil (hi.spoken.sent_nil hm hnew)

theorem Reconnecting.returned (hi : Reconnecting a r n s)
    (hret : s.tasks r = some (.call (.reconnect a) (.returned none))) :
    ∃ c, n ≤ c ∧ (s.agents a).rw = some c := by
  obtain ⟨task, h, hphase⟩ := hi.phase
  cases Option.some.inj (hret.symm.trans h)
  cases hphase with
  | @announcing c _ hc hcur _ _ => exact ⟨c, hc, hcur⟩

end Gearman.Worker.Machine
