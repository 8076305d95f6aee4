import Gearman.Bytes

/-!
# The packet layout both packages read and write

A packet is a magic word, a type word, the length of the body as a word and the
body. Both decoders index the three words and the body off one slice, so the
slices of a frame are computed once here.
-/

namespace Gearman.Wire
open Bytes

abbrev lengthBound : ℕ := 4294967296

def header (magic dataType : UInt32) (bodyLen : ℕ) : Bytes :=
  putUint32 magic ++ putUint32 dataType ++ putUint32 (UInt32.ofNat bodyLen)

def frame (magic dataType : UInt32) (body : Bytes) : Bytes :=
  header magic dataType body.length ++ body

/-- The three stores both encoders open with; `magic` is given as its four bytes. -/
def putHeader (b magic : Bytes) (dataType : UInt32) (bodyLen : ℕ) : Option Bytes := do
  let (b, _) ← copyTo b 0 4 magic
  let (b, _) ← copyTo b 4 8 (putUint32 dataType)
  let (b, _) ← copyTo b 8 12 (putUint32 (UInt32.ofNat bodyLen))
  return b

theorem putHeader_eq (magic dataType : UInt32) (n : ℕ) {b : Bytes} (hb : 12 ≤ b.length) :
    putHeader b (putUint32 magic) dataType n = some (header magic dataType n ++ b.drop 12) := by
  obtain ⟨w0, h0⟩ := putUint32_surj (b := b.take 4) (by simp; omega)
  obtain ⟨w1, h1⟩ := putUint32_surj (b := (b.drop 4).take 4) (by simp; omega)
  obtain ⟨w2, h2⟩ := putUint32_surj (b := (b.drop 8).take 4) (by simp; omega)
  have hsplit : b = putUint32 w0 ++ (putUint32 w1 ++ (putUint32 w2 ++ b.drop 12)) := by
    rw [← h0, ← h1, ← h2]
    conv_lhs => rw [← List.take_append_drop 4 b, ← List.take_append_drop 4 (b.drop 4),
      ← List.take_append_drop 4 ((b.drop 4).drop 4)]
    simp [List.drop_drop]
  generalize b.drop 12 = r at hsplit
  subst hsplit
  have c0 := copyTo_append [] (putUint32 w0) (putUint32 w1 ++ (putUint32 w2 ++ r))
    (putUint32 magic) (i := 0) (j := 4) rfl rfl le_rfl (by simp)
  have c1 := copyTo_append (putUint32 magic) (putUint32 w1) (putUint32 w2 ++ r)
    (putUint32 dataType) (i := 4) (j := 8) rfl rfl le_rfl (by simp; omega)
  have c2 := copyTo_append (putUint32 magic ++ putUint32 dataType) (putUint32 w2) r
    (putUint32 (UInt32.ofNat n)) (i := 8) (j := 12) rfl rfl le_rfl (by simp; omega)
  simp only [List.nil_append, List.append_assoc] at c0 c1 c2
  simp only [putHeader, c0, c1, c2, Option.bind_eq_bind, Option.bind_some, Option.pure_def, header,
    List.append_assoc]

@[simp] theorem header_length (magic dataType : UInt32) (n : ℕ) :
    (header magic dataType n).length = 12 := rfl

@[simp] theorem frame_length (magic dataType : UInt32) (body : Bytes) :
    (frame magic dataType body).length = 12 + body.length := by simp [frame]

theorem header_magic (magic dataType : UInt32) (n : ℕ) (r : Bytes) :
    slice (header magic dataType n ++ r) 0 4 = some (putUint32 magic) := by
  rw [header, List.append_assoc, List.append_assoc]
  exact slice_front _ _ rfl

theorem header_type (magic dataType : UInt32) (n : ℕ) (r : Bytes) :
    slice (header magic dataType n ++ r) 4 8 = some (putUint32 dataType) := by
  rw [header, List.append_assoc]
  exact slice_append _ _ _ rfl rfl

theorem header_bodyLen (magic dataType : UInt32) (n : ℕ) (r : Bytes) :
    slice (header magic dataType n ++ r) 8 12 = some (putUint32 (UInt32.ofNat n)) := by
  rw [header]
  exact slice_append _ _ _ rfl rfl

theorem frame_body (magic dataType : UInt32) (body : Bytes) :
    slice (frame magic dataType body) 12 (body.length + 12) = some body :=
  slice_tail _ _ rfl (by simp [Nat.add_comm])

theorem toNat_bodyLen {n : ℕ} (h : n < lengthBound) : (UInt32.ofNat n).toNat = n := by
  simpa using Nat.mod_eq_of_lt h

@[simp] theorem uint32_word (v : UInt32) : uint32 (putUint32 v) = some v := by
  simpa using uint32_putUint32 v []

theorem header_surj {b : Bytes} (h : b.length = 12) :
    ∃ magic dataType n, b = header magic dataType n ∧ n < lengthBound := by
  obtain ⟨m, hm⟩ := putUint32_surj (b := b.take 4) (by simp [h])
  obtain ⟨t, ht⟩ := putUint32_surj (b := (b.drop 4).take 4) (by simp [h])
  obtain ⟨l, hl⟩ := putUint32_surj (b := (b.drop 4).drop 4) (by simp [h])
  refine ⟨m, t, l.toNat, ?_, l.toNat_lt⟩
  rw [header, UInt32.ofNat_toNat, ← hm, ← ht, ← hl, List.append_assoc, List.take_append_drop,
    List.take_append_drop]

end Gearman.Wire
