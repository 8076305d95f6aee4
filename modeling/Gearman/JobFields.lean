import Gearman.Framing

/-!
# The job decoder against the split it replaced

`splitFields` is the decoder written with `bytes.SplitN`: a job whose body has too
few separators gets no field at all, and the last field keeps its NULs.
`decodeFields` finds the same separators by searching suffixes and adding offsets.
The comparison follows the separators of the body one after the other.
-/

namespace Gearman.Worker
open Bytes Wire Bufio

def splitFields (dataType : UInt32) (body : Bytes) : InPack :=
  if dataType = dtJobAssign then
    match splitN 0 3 body with
    | [handle, fn, data] => { dataType, handle, fn, data }
    | _ => { dataType }
  else if dataType = dtJobAssignUniq then
    match splitN 0 4 body with
    | [handle, fn, uniqueId, data] => { dataType, handle, fn, uniqueId, data }
    | _ => { dataType }
  else { dataType, data := body }

namespace InPack

theorem decodeFields_assign (inpack : InPack) (ht : inpack.dataType = dtJobAssign)
    {handle fn : Bytes} (hh : (0 : UInt8) ∉ handle) (hf : (0 : UInt8) ∉ fn) (data : Bytes) :
    inpack.decodeFields (handle ++ 0 :: (fn ++ 0 :: data)) =
      some { inpack with handle, fn, data } := by
  have s1 : slice (handle ++ 0 :: (fn ++ 0 :: data)) (handle.length + 1)
      (handle ++ 0 :: (fn ++ 0 :: data)).length = some (fn ++ 0 :: data) :=
    slice_after _ _ _ rfl rfl
  have s2 : slice (handle ++ 0 :: (fn ++ 0 :: data)) 0 handle.length = some handle :=
    slice_front _ _ rfl
  have s3 : slice (handle ++ 0 :: (fn ++ 0 :: data)) (handle.length + 1)
      (fn.length + (handle.length + 1)) = some fn := by
    have h := slice_append (handle ++ [0]) fn (0 :: data)
      (i := handle.length + 1) (j := fn.length + (handle.length + 1)) (by simp) (by omega)
    simpa only [List.append_assoc, List.cons_append, List.nil_append] using h
  have s4 : slice (handle ++ 0 :: (fn ++ 0 :: data)) (fn.length + (handle.length + 1) + 1)
      (handle ++ 0 :: (fn ++ 0 :: data)).length = some data := by
    have h := slice_after (handle ++ 0 :: fn) data 0
      (i := fn.length + (handle.length + 1) + 1) (by simp; omega) rfl
    simpa only [List.append_assoc, List.cons_append] using h
  simp only [decodeFields, ht, if_true, indexByte_append _ _ hh, indexByte_append _ _ hf, s1, s2,
    s3, s4, Option.bind_eq_bind, Option.bind_some, Option.pure_def]

theorem decodeFields_none (inpack : InPack)
    (ht : inpack.dataType = dtJobAssign ∨ inpack.dataType = dtJobAssignUniq) {dt : Bytes}
    (h : (0 : UInt8) ∉ dt) : inpack.decodeFields dt = some inpack := by
  have hn := (indexByte_eq_none dt).mpr h
  rcases ht with ht | ht
  · simp [decodeFields, ht, hn]
  · simp [decodeFields, ht, hn, show dtJobAssignUniq ≠ dtJobAssign by decide]

theorem decodeFields_one (inpack : InPack)
    (ht : inpack.dataType = dtJobAssign ∨ inpack.dataType = dtJobAssignUniq) {a r : Bytes}
    (ha : (0 : UInt8) ∉ a) (hr : (0 : UInt8) ∉ r) :
    inpack.decodeFields (a ++ 0 :: r) = some inpack := by
  have hn := (indexByte_eq_none r).mpr hr
  have hs : slice (a ++ 0 :: r) (a.length + 1) (a ++ 0 :: r).length = some r :=
    slice_after _ _ _ rfl rfl
  rcases ht with ht | ht
  · simp only [decodeFields, ht, if_true, indexByte_append _ _ ha, hs, hn, Option.bind_eq_bind,
      Option.bind_some, Option.pure_def]
  · simp only [decodeFields, ht, if_neg (show dtJobAssignUniq ≠ dtJobAssign by decide), if_true,
      indexByte_append _ _ ha, hs, hn, Option.bind_eq_bind, Option.bind_some, Option.pure_def]

theorem decodeFields_two (inpack : InPack) (ht : inpack.dataType = dtJobAssignUniq)
    {a b r : Bytes} (ha : (0 : UInt8) ∉ a) (hb : (0 : UInt8) ∉ b) (hr : (0 : UInt8) ∉ r) :
    inpack.decodeFields (a ++ 0 :: (b ++ 0 :: r)) = some inpack := by
  have hn := (indexByte_eq_none r).mpr hr
  have s1 : slice (a ++ 0 :: (b ++ 0 :: r)) (a.length + 1) (a ++ 0 :: (b ++ 0 :: r)).length =
      some (b ++ 0 :: r) := slice_after _ _ _ rfl rfl
  have s2 : slice (a ++ 0 :: (b ++ 0 :: r)) (b.length + (a.length + 1) + 1)
      (a ++ 0 :: (b ++ 0 :: r)).length = some r := by
    have h := slice_after (a ++ 0 :: b) r 0 (i := b.length + (a.length + 1) + 1)
      (by simp; omega) rfl
    simpa only [List.append_assoc, List.cons_append] using h
  simp only [decodeFields, ht, if_neg (show dtJobAssignUniq ≠ dtJobAssign by decide), if_true,
    indexByte_append _ _ ha, indexByte_append _ _ hb, s1, s2, hn, Option.bind_eq_bind,
    Option.bind_some, Option.pure_def]

theorem decodeFields_split (dataType : UInt32) (body : Bytes) :
    decodeFields { dataType } body = some (splitFields dataType body) := by
  by_cases h₁ : dataType = dtJobAssign
  · subst h₁
    rcases split_cases 0 body with h | ⟨a, r, rfl, ha⟩
    · rw [decodeFields_none _ (Or.inl rfl) h]
      simp [splitFields, splitN_of_notMem h]
    rcases split_cases 0 r with h | ⟨b, r, rfl, hb⟩
    · rw [decodeFields_one _ (Or.inl rfl) ha h]
      simp [splitFields, splitN_append ha, splitN_of_notMem h]
    rw [decodeFields_assign _ rfl ha hb]
    simp [splitFields, splitN_append ha, splitN_append hb]
  by_cases h₂ : dataType = dtJobAssignUniq
  · subst h₂
    rcases split_cases 0 body with h | ⟨a, r, rfl, ha⟩
    · rw [decodeFields_none _ (Or.inr rfl) h]
      simp [splitFields, h₁, splitN_of_notMem h]
    rcases split_cases 0 r with h | ⟨b, r, rfl, hb⟩
    · rw [decodeFields_one _ (Or.inr rfl) ha h]
      simp [splitFields, h₁, splitN_append ha, splitN_of_notMem h]
    rcases split_cases 0 r with h | ⟨c, r, rfl, hc⟩
    · rw [decodeFields_two _ rfl ha hb h]
      simp [splitFields, h₁, splitN_append ha, splitN_append hb, splitN_of_notMem h]
    rw [decodeFields_uniq _ rfl ha hb hc]
    simp [splitFields, h₁, splitN_append ha, splitN_append hb, splitN_append hc]
  · simp [decodeFields, splitFields, h₁, h₂]

end InPack

/-- The fields of a job either are all missing or join back to its body. -/
def InPack.Joins (p : InPack) (body : Bytes) : Prop :=
  if p.dataType = dtJobAssign then
    (p.handle = [] ∧ p.fn = [] ∧ p.uniqueId = [] ∧ p.data = []) ∨
      ((0 : UInt8) ∉ p.handle ∧ (0 : UInt8) ∉ p.fn ∧ p.uniqueId = [] ∧
        [0].intercalate [p.handle, p.fn, p.data] = body)
  else if p.dataType = dtJobAssignUniq then
    (p.handle = [] ∧ p.fn = [] ∧ p.uniqueId = [] ∧ p.data = []) ∨
      ((0 : UInt8) ∉ p.handle ∧ (0 : UInt8) ∉ p.fn ∧ (0 : UInt8) ∉ p.uniqueId ∧
        [0].intercalate [p.handle, p.fn, p.uniqueId, p.data] = body)
  else p.handle = [] ∧ p.fn = [] ∧ p.uniqueId = [] ∧ p.data = body

theorem splitFields_joins (dataType : UInt32) (body : Bytes) :
    (splitFields dataType body).Joins body := by
  unfold splitFields
  split_ifs with h₁ h₂
  · split
    · rename_i handle fn data hs
      have hj := intercalate_splitN 0 2 body
      have hz := fun x => notMem_of_splitN (c := 0) (n := 2) (b := body) (x := x)
      rw [hs] at hj hz
      rw [InPack.Joins, if_pos h₁]
      exact Or.inr ⟨hz _ (by simp), hz _ (by simp), rfl, hj⟩
    · simp [InPack.Joins, h₁]
  · split
    · rename_i handle fn uniqueId data hs
      have hj := intercalate_splitN 0 3 body
      have hz := fun x => notMem_of_splitN (c := 0) (n := 3) (b := body) (x := x)
      rw [hs] at hj hz
      rw [InPack.Joins, if_neg h₁, if_pos h₂]
      exact Or.inr ⟨hz _ (by simp), hz _ (by simp), hz _ (by simp), hj⟩
    · simp [InPack.Joins, h₂]
  · simp [InPack.Joins, h₁, h₂]

theorem InPack.Joins.handle_length {p : InPack} {body : Bytes} (h : p.Joins body) :
    p.handle.length ≤ body.length := by
  unfold InPack.Joins at h
  split_ifs at h
  · rcases h with ⟨hh, -⟩ | ⟨-, -, -, rfl⟩
    · simp [hh]
    · simp [List.intercalate]
  · rcases h with ⟨hh, -⟩ | ⟨-, -, -, rfl⟩
    · simp [hh]
    · simp [List.intercalate]
  · simp [h.1]

theorem splitFields_dataType (dataType : UInt32) (body : Bytes) :
    (splitFields dataType body).dataType = dataType := by
  unfold splitFields
  split_ifs
  · split <;> rfl
  · split <;> rfl
  · rfl

theorem decodeInPack_split (dataType : UInt32) {body : Bytes}
    (hb : body.length ≤ maxPacketLength) :
    decodeInPack (frame res dataType body) =
      some (.ok (splitFields dataType body, (frame res dataType body).length)) := by
  have hlt : body.length < lengthBound := lt_of_le_of_lt hb (by decide)
  rw [decodeInPack_frame _ _ hlt, InPack.decodeFields_split, Option.map_some, frame_length,
    Nat.add_comm, minPacketLength]

theorem read_handle_length {r r' : Reader} {data : Bytes} {p : InPack} {l : ℕ}
    (h : read r = some (.ok data, r')) (hd : decodeInPack data = some (.ok (p, l))) :
    p.handle.length ≤ maxPacketLength := by
  obtain ⟨dataType, body, rfl, hb⟩ := (read_inv h).1
  cases (decodeInPack_split dataType hb).symm.trans hd
  exact (splitFields_joins dataType body).handle_length.trans hb

theorem decodeInPack_splits {r r' : Reader} {data : Bytes}
    (h : read r = some (.ok data, r')) :
    ∃ dataType body, data = frame res dataType body ∧
      decodeInPack data = some (.ok (splitFields dataType body, data.length)) ∧
      (splitFields dataType body).dataType = dataType ∧
      (splitFields dataType body).Joins body := by
  obtain ⟨dataType, body, rfl, hb⟩ := (read_inv h).1
  exact ⟨dataType, body, rfl, decodeInPack_split dataType hb, splitFields_dataType dataType body,
    splitFields_joins dataType body⟩

def nulJob : Chunk := ⟨frame res dtJobAssign [72, 0, 102, 0, 1, 0, 2], List.cons_ne_nil _ _⟩

theorem nulJob_splits :
    ∃ r', read (newReader 4096 [nulJob]) = some (.ok nulJob.bytes, r') ∧
      ∃ dataType body, nulJob.bytes = frame res dataType body ∧
        decodeInPack nulJob.bytes = some (.ok (splitFields dataType body, nulJob.bytes.length)) ∧
        (splitFields dataType body).dataType = dataType ∧
        (splitFields dataType body).Joins body :=
  ⟨_, rfl, decodeInPack_splits (r := newReader 4096 [nulJob]) rfl⟩

end Gearman.Worker
