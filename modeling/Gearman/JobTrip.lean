import Gearman.JobStream
import Gearman.ProgressNumbers
import Gearman.WorkerBuffers

/-!
# A job from the client to the worker and back

The client encodes a submit, the server hands it to a worker behind a handle, the worker's
`read` and `decodeInPack` make a job of it, the function of the job sends its updates and
returns, and the client reads what the server relays and asks each response what it says. The
server is the one of `CodecAgreement`: it splits a submit at its first two NULs and passes the
packets of a job on with the response magic.

Both streams may be cut into reads anywhere.
-/

namespace Gearman.CodecAgreement
open Bytes Wire Bufio Transition

inductive News
  | data (b : Bytes)
  | warning (b : Bytes)
  | status (numerator denominator : ℕ)
  | complete (b : Bytes)
  | fail
  | exception (b : Bytes)
deriving DecidableEq, Repr

/-- A response handler asks for the result first, then for an update, then for the progress. -/
def newsOf (resp : Client.Response) : Option News :=
  match resp.result with
  | (some b, none) => some (.complete b)
  | (none, some .workFail) => some .fail
  | (some b, some .workException) => some (.exception b)
  | _ =>
    match resp.update with
    | (some b, none) => some (.data b)
    | (some b, some .workWarning) => some (.warning b)
    | _ =>
      match resp.status with
      | (some status, none) => some (.status status.numerator status.denominator)
      | _ => none

/-- What the worker means by an update; negative progress cannot be told. -/
def meant : Worker.Update → Option News
  | .data b => some (.data b)
  | .warning b => some (.warning b)
  | .status numerator denominator =>
    if 0 ≤ numerator.toInt ∧ 0 ≤ denominator.toInt then
      some (.status numerator.toInt.toNat denominator.toInt.toNat)
    else none

def outcome (r : Worker.Result) : News :=
  if r.err = none then .complete r.data
  else if r.data = [] then .fail
  else .exception r.data

def receive : ℕ → Reader → Option (List Client.Response × Reader)
  | 0, r => some ([], r)
  | n + 1, r =>
    match Client.readPacket r with
    | some (.ok packet, r') =>
      match Client.decodeResponse packet with
      | some (.ok (resp, _)) => (receive n r').map (fun q => (resp :: q.1, q.2))
      | _ => none
    | _ => none

structure Understood (handle : Bytes) (outpack : Worker.OutPack) (news : Option News) : Prop where
  fits : outpack.body.length ≤ Client.maxPacketLength
  delivered : ∃ resp, Delivered outpack resp ∧ resp.handle = handle ∧ newsOf resp = news

variable {handle : Bytes} {outpack : Worker.OutPack} {news : Option News} {r : Reader}
variable {rest : Bytes}

theorem Understood.read (h : Understood handle outpack news) (hsz : 0 < r.size)
    (hc : r.content = relay (Worker.Buffers.wire outpack) ++ rest) :
    ∃ packet r' resp n, Client.readPacket r = some (.ok packet, r') ∧
      Client.decodeResponse packet = some (.ok (resp, n)) ∧ resp.handle = handle ∧
      newsOf resp = news ∧ r'.content = rest ∧ 0 < r'.size := by
  obtain ⟨resp, hdel, hh, hn⟩ := h.delivered
  obtain ⟨out, henc, hread⟩ := hdel ⟨[], []⟩
  obtain ⟨spare, henc'⟩ := outpack.encodeInto_eq ⟨[], []⟩
  cases henc'.symm.trans henc
  obtain ⟨packet, r', n, hr, hrest, hdec⟩ := hread r rest hsz hc
  rw [Worker.Buffers.wire, relay_frame] at hc
  obtain ⟨r₁, hr₁, -, hsize⟩ := Client.readPacket_ok hsz h.fits hc
  cases hr₁.symm.trans hr
  exact ⟨_, _, resp, n, hr, hdec, hh, hn, hrest, hsize ▸ hsz⟩

theorem receive_understood {outpacks : List Worker.OutPack} {all : List (Option News)}
    (h : List.Forall₂ (Understood handle) outpacks all) (hsz : 0 < r.size)
    (hc : r.content = (outpacks.map (fun o => relay (Worker.Buffers.wire o))).flatten ++ rest) :
    ∃ resps r', receive outpacks.length r = some (resps, r') ∧ r'.content = rest ∧
      (∀ resp ∈ resps, resp.handle = handle) ∧ resps.map newsOf = all := by
  induction h generalizing r with
  | nil => exact ⟨[], r, rfl, hc, by simp, rfl⟩
  | @cons outpack news outpacks all hone hmore ih =>
    rw [List.map_cons, List.flatten_cons, List.append_assoc] at hc
    obtain ⟨packet, r₁, resp, n, hread, hdec, hh, hn, hrest, hsz₁⟩ := hone.read hsz hc
    obtain ⟨resps, r', hrec, hcont, hhs, hns⟩ := ih hsz₁ hrest
    refine ⟨resp :: resps, r', ?_, hcont, ?_, ?_⟩
    · simp only [List.length_cons, receive, hread, hdec, hrec, Option.map_some]
    · exact List.forall_mem_cons.mpr ⟨hh, hhs⟩
    · rw [List.map_cons, hn, hns]

def statusResponse (handle : Bytes) (numerator denominator : Int64) : Client.Response where
  dataType := Client.dtWorkStatus
  data := some (Decimal.formatInt numerator.toInt ++ 0 :: Decimal.formatInt denominator.toInt)
  handle := handle

theorem newsOf_status {resp : Client.Response} (ht : resp.dataType = Client.dtWorkStatus) :
    newsOf resp = match resp.status with
      | (some status, none) => some (.status status.numerator status.denominator)
      | _ => none := by
  have hr : resp.result = (none, some .dataType) := by
    simp [Client.Response.result, ht, Client.dtWorkStatus, Client.dtWorkFail,
      Client.dtWorkException, Client.dtWorkComplete]
  have hu : resp.update = (none, some .dataType) := by
    simp [Client.Response.update, ht, Client.dtWorkStatus, Client.dtWorkData,
      Client.dtWorkWarning]
  simp only [newsOf, hr, hu]

theorem update_understood {p : Worker.InPack} (hz : (0 : UInt8) ∉ p.handle) (u : Worker.Update)
    (hl : (u.pack p).body.length ≤ Client.maxPacketLength) :
    Understood p.handle (u.pack p) (meant u) := by
  refine ⟨hl, ?_⟩
  cases u with
  | data b =>
    refine ⟨_, progress_delivered (by decide) (by decide) hz ?_, rfl, ?_⟩
    · change (p.handle ++ 0 :: b).length ≤ _ at hl
      rw [List.length_append, List.length_cons] at hl
      omega
    · rfl
  | warning b =>
    refine ⟨_, progress_delivered (by decide) (by decide) hz ?_, rfl, ?_⟩
    · change (p.handle ++ 0 :: b).length ≤ _ at hl
      rw [List.length_append, List.length_cons] at hl
      omega
    · rfl
  | status numerator denominator =>
    refine ⟨statusResponse p.handle numerator denominator, delivered hl ?_, rfl, ?_⟩
    · intro packet
      exact @Client.decodeBody_split Client.dtWorkStatus (by decide) packet _ hz _
    · have hdata : (statusResponse p.handle numerator denominator).data =
          some (Decimal.formatInt numerator.toInt ++ 0 :: Decimal.formatInt denominator.toInt) :=
        rfl
      obtain ⟨hpos, hneg⟩ := status_numbers hdata
      rw [newsOf_status rfl]
      by_cases h : 0 ≤ numerator.toInt ∧ 0 ≤ denominator.toInt
      · obtain ⟨status, hs, hn, hd⟩ := hpos h
        rw [hs, meant, if_pos h]
        simp only [← hn, ← hd, Int.toNat_natCast]
      · obtain ⟨e, he⟩ := hneg h
        rw [meant, if_neg h]
        split
        · next hs =>
          rw [hs] at he
          cases he
        · rfl

theorem result_understood {p : Worker.InPack} (hh : p.handle ≠ []) (hz : (0 : UInt8) ∉ p.handle)
    (r : Worker.Result) (hl : (Worker.resultPack p r).body.length ≤ Client.maxPacketLength) :
    Understood p.handle (Worker.resultPack p r) (some (outcome r)) := by
  obtain ⟨resp, hdel, hhandle, hres⟩ := result_delivered hh hz r hl
  refine ⟨hl, resp, hdel, hhandle, ?_⟩
  unfold outcome
  split_ifs at hres ⊢ with he hd
  · simp only [newsOf, hres]
  · simp only [newsOf, hres]
  · simp only [newsOf, hres]

end Gearman.CodecAgreement

namespace Gearman.Worker.Stream
open Transition

def steady (x : St × Mishaps) : Act → Bool
  | .job act => Exec.steady x.1.job act
  | .update _ => true

variable {c : Cfg} {s : St} {m : Mishaps} {acts : List Act}

theorem exec_inv (hjob : Exec.isJob c.inpack = true)
    (h : run (traced (step c) Mishaps.note) steady (start c, {}) acts = some (s, m)) :
    Exec.Inv c.toCfg s.job := by
  refine run_invariant (I := fun x => Exec.Inv c.toCfg x.1.job) ?_ h (Exec.inv_start c.toCfg)
  intro x a y hx ha hy
  obtain ⟨hstep, -⟩ := traced_eq_some.mp hy
  cases a with
  | job act =>
    simp only [step] at hstep
    split_ifs at hstep
    obtain ⟨job, hjob', hy⟩ := Option.map_eq_some_iff.mp hstep
    rw [← hy]
    exact Exec.step_inv hjob hx ha hjob'
  | update ok =>
    obtain ⟨u, todo, -, hy⟩ := step_update hstep
    rw [hy]
    cases ok with
    | false => exact hx
    | true =>
      refine hx.frame rfl Iff.rfl rfl ?_
      simp [Exec.terminals, List.filter_append, Update.isTerminal_pack]

theorem packs_of_finished {f : JobFunc} {out : Result} (hjob : Exec.isJob c.inpack = true)
    (hf : c.funcs.lookup c.inpack.fn = some f) (ho : f.f c.inpack = .returned out.data out.err)
    (h : run (traced (step c) Mishaps.note) steady (start c, {}) acts = some (s, {}))
    (hfin : Exec.finished s.job = true) : s.packs = packs c c.updates (some out) [] := by
  obtain ⟨before, res, after, htold, -⟩ := (Inv.run h).told
  obtain ⟨r, hr⟩ := (exec_inv hjob h).answered hfin ⟨f, hf, Or.inr ⟨_, _, ho⟩⟩
  have hafter : after = [] := by
    by_contra ha
    cases (htold.overtaken ha).1
  subst hafter
  cases res with
  | none =>
    -- the result is in the log, and no update looks like one
    have hnil : Exec.terminals s.job = [] := by
      have hsub : Exec.terminals s.job = s.packs.filter (fun w => isTerminal w.2) := by
        rw [Exec.terminals, St.packs, List.filter_filter]
        refine List.filter_congr (fun w _ => ?_)
        simp only [isJobPack]
        cases isTerminal w.2 <;> simp
      rw [hsub, htold.packs, List.filter_eq_nil_iff]
      intro w hw
      simp only [packs, Option.toList_none, List.map_nil, List.append_nil, List.map_map,
        List.mem_map] at hw
      obtain ⟨u, -, rfl⟩ := hw
      simp [Update.isTerminal_pack]
    rw [hnil] at hr
    cases hr
  | some r' =>
    obtain ⟨g, hg, ⟨htodo, hret⟩ | ⟨hlate, -⟩⟩ := htold.earned r' rfl
    · cases hf.symm.trans hg
      have hout : r' = out := by
        have heq := ho.symm.trans hret
        simp only [Outcome.returned.injEq] at heq
        cases r'
        cases out
        simp_all
      have hall : before = c.updates := by
        have hkept := htold.kept
        have hlost := htold.lost
        rw [htodo, List.append_nil, List.append_nil] at hkept hlost
        exact hkept.eq_of_length hlost
      rw [htold.packs, hout, hall]
    · cases hlate

end Gearman.Worker.Stream

namespace Gearman.CodecAgreement
open Bytes Wire Bufio Transition

def Assigned (packet handle : Bytes) (p : Worker.InPack) : Prop :=
  ∃ job, serverSplit (packet.drop Client.minPacketLength) = some job ∧
    ∀ (r : Reader) (rest : Bytes), 12 ≤ r.size →
      r.content = frame Worker.res Worker.dtJobAssignUniq (assignBody handle job) ++ rest →
      ∃ raw r' l, Worker.read r = some (.ok raw, r') ∧ r'.content = rest ∧
        Worker.decodeInPack raw = some (.ok (p, l))

def Heard (handle : Bytes) (ws : List (Option ℕ × Worker.OutPack)) (all : List (Option News)) :
    Prop :=
  ∀ (r : Reader) (rest : Bytes), 0 < r.size →
    r.content = (ws.map (fun w => relay (Worker.Buffers.wire w.2))).flatten ++ rest →
    ∃ resps r', receive ws.length r = some (resps, r') ∧ r'.content = rest ∧
      (∀ resp ∈ resps, resp.handle = handle) ∧ resps.map newsOf = all

structure Small (p : Worker.InPack) (updates : List Worker.Update) (out : Worker.Result) :
    Prop where
  updates : ∀ u ∈ updates, (u.pack p).body.length ≤ Client.maxPacketLength
  out : (Worker.resultPack p out).body.length ≤ Client.maxPacketLength

def assignedPack (funcname id data handle : Bytes) : Worker.InPack :=
  { dataType := Worker.dtJobAssignUniq, handle, fn := funcname, uniqueId := id, data }

theorem assigned (t : UInt32) {funcname id data handle : Bytes} (hf : (0 : UInt8) ∉ funcname)
    (hi : (0 : UInt8) ∉ id) (hz : (0 : UInt8) ∉ handle)
    (hl : (assignBody handle (funcname, id, data)).length ≤ Worker.maxPacketLength) :
    Assigned (frame Client.req t (Client.jobBody funcname id data)) handle
      (assignedPack funcname id data handle) := by
  refine ⟨(funcname, id, data), ?_, ?_⟩
  · rw [frame, show Client.minPacketLength = (header Client.req t
      (Client.jobBody funcname id data).length).length from rfl, List.drop_left]
    exact serverSplit_eq hf hi data
  · intro r rest hsz hc
    obtain ⟨r', hread, hrest, -⟩ := Worker.read_ok hsz hl hc
    refine ⟨_, r', (assignBody handle (funcname, id, data)).length + Worker.minPacketLength, hread,
      hrest, ?_⟩
    rw [Worker.decodeInPack_frame _ _ (lt_of_le_of_lt hl (by decide)), assignBody,
      Worker.InPack.decodeFields_uniq _ rfl hz hf hi data]
    rfl

theorem heard {c : Worker.Stream.Cfg} {out : Worker.Result} (hh : c.inpack.handle ≠ [])
    (hz : (0 : UInt8) ∉ c.inpack.handle) (hs : Small c.inpack c.updates out) :
    Heard c.inpack.handle (Worker.Stream.packs c c.updates (some out) [])
      (c.updates.map meant ++ [some (outcome out)]) := by
  have hall : List.Forall₂ (Understood c.inpack.handle)
      (c.updates.map (Worker.Update.pack c.inpack) ++ [Worker.resultPack c.inpack out])
      (c.updates.map meant ++ [some (outcome out)]) := by
    refine List.rel_append ?_ (.cons (result_understood hh hz out hs.out) .nil)
    rw [List.forall₂_map_left_iff, List.forall₂_map_right_iff, List.forall₂_same]
    exact fun u hu => update_understood hz u (hs.updates u hu)
  intro r rest hsz hc
  simp only [Worker.Stream.packs, Option.toList_some, List.map_cons, List.map_nil,
    List.append_nil, List.map_map, List.length_map, Function.comp_def] at hc ⊢
  exact receive_understood hall hsz hc

/-- A job goes to a worker with the function, id and data it was submitted with, and when its
function has returned the client has heard every update it made, in order, and its outcome. -/
theorem job_round_trip (t : UInt32) (funcname id data handle : Bytes)
    (hf : (0 : UInt8) ∉ funcname) (hi : (0 : UInt8) ∉ id) (hz : (0 : UInt8) ∉ handle)
    (hh : handle ≠ [])
    (hl : (assignBody handle (funcname, id, data)).length ≤ Worker.maxPacketLength) :
    (∃ packet, Client.encodeJob t funcname id data = some packet ∧
      Assigned packet handle (assignedPack funcname id data handle)) ∧
    ∀ (c : Worker.Stream.Cfg) (k : ℕ) (f : Worker.JobFunc) (out : Worker.Result)
      (acts : List Worker.Stream.Act) (s : Worker.Stream.St),
      c.inpack = { assignedPack funcname id data handle with a := some k } →
      c.funcs.lookup funcname = some f → f.f c.inpack = .returned out.data out.err →
      Small c.inpack c.updates out →
      run (traced (Worker.Stream.step c) Worker.Stream.Mishaps.note) Worker.Stream.steady
        (Worker.Stream.start c, {}) acts = some (s, {}) →
      Worker.Exec.finished s.job = true →
      Heard handle s.packs (c.updates.map meant ++ [some (outcome out)]) := by
  refine ⟨⟨_, Client.encodeJob_eq t funcname id data, assigned t hf hi hz hl⟩, ?_⟩
  intro c k f out acts s hc hfun ho hsmall hrun hfin
  have hfn : c.inpack.fn = funcname := by rw [hc]; rfl
  have hhandle : c.inpack.handle = handle := by rw [hc]; rfl
  have hjob : Worker.Exec.isJob c.inpack = true := by rw [hc]; rfl
  rw [Worker.Stream.packs_of_finished hjob (hfn ▸ hfun) ho hrun hfin, ← hhandle]
  exact heard (hhandle ▸ hh) (hhandle ▸ hz) hsmall

def toldCfg : Worker.Stream.Cfg where
  inpack := { assignedPack [102] [49] [0, 5] [72] with a := some 0 }
  funcs := AList.insert [102] ⟨fun _ => .returned [9] none, 0⟩ ∅
  limit := none
  jobHandler := none
  updates := [.status 1 2, .data [0, 1]]

def toldActs : List Worker.Stream.Act :=
  [.job .dispatch, .job .exec, .update true, .job .dispatch, .update true, .job .exec, .job .exec,
    .job (.write true)]

theorem job_round_trip_told :
    ∃ s, run (traced (Worker.Stream.step toldCfg) Worker.Stream.Mishaps.note)
        Worker.Stream.steady (Worker.Stream.start toldCfg, {}) toldActs = some (s, {}) ∧
      Heard [72] s.packs [some (.status 1 2), some (.data [0, 1]), some (.complete [9])] := by
  refine ⟨_, rfl, ?_⟩
  exact (job_round_trip Client.dtSubmitJob [102] [49] [0, 5] [72] (by decide) (by decide)
    (by decide) (by decide) (by decide)).2 toldCfg 0 _ ⟨[9], none⟩ toldActs _ rfl rfl rfl
    ⟨by decide, by decide⟩ rfl rfl

end Gearman.CodecAgreement
