import BitlockerForensic.Std.Bytes

/-!
# Bounds-checked little-endian readers

Every multi-byte field of a volume is read through these helpers
(`core/src/bytes.rs`).  An out-of-range offset yields zero bytes.
-/

namespace Bitlocker

open RustStd

/-- The common body of the readers: `n` bytes at `off`, or zeros. -/
def readArray (n : ℕ) (b : Bytes) (off : ℕ) : Eval (Octets n) :=
  match b.get off (saturatingAdd off n) with
  | some s => toOctets n s.toList
  | none => pure (zeros n)

def leU16 (b : Bytes) (off : ℕ) : Eval UInt16 := do
  let a ← readArray 2 b off
  pure (UInt16.ofNat (leNat a.toList))

def leU32 (b : Bytes) (off : ℕ) : Eval UInt32 := do
  let a ← readArray 4 b off
  pure (UInt32.ofNat (leNat a.toList))

def leU64 (b : Bytes) (off : ℕ) : Eval UInt64 := do
  let a ← readArray 8 b off
  pure (UInt64.ofNat (leNat a.toList))

def readGuid (b : Bytes) (off : ℕ) : Eval (Octets 16) := readArray 16 b off

def sliceOwned (b : Bytes) (off len : ℕ) : Bytes :=
  (b.get off (min (saturatingAdd off len) b.length)).getD Bytes.empty

/-! ## What the readers compute -/

def arrayAt (n : ℕ) (b : Bytes) (off : ℕ) : Octets n :=
  if h : off + n ≤ b.length then ⟨(b.window off (off + n)).toList, by
    have hlen : (b.window off (off + n)).length = off + n - off := b.window_length h
    simpa [Bytes.length] using hlen⟩
  else zeros n

theorem length_arrayAt (n : ℕ) (b : Bytes) (off : ℕ) : (arrayAt n b off).toList.length = n :=
  (arrayAt n b off).length_eq

theorem arrayAt_toList {n : ℕ} {b : Bytes} {off : ℕ} (h : off + n ≤ b.length) :
    (arrayAt n b off).toList = (b.toList.take (off + n)).drop off := by
  rw [arrayAt, dif_pos h]
  rfl

theorem arrayAt_eq {n : ℕ} {b : Bytes} {off : ℕ} {a : Octets n} {rest : List UInt8}
    (hoff : off ≤ b.length) (h : b.toList.drop off = a.toList ++ rest) : arrayAt n b off = a := by
  have hlen : b.length - off = n + rest.length := by
    rw [Bytes.length, ← List.length_drop, h, List.length_append, a.length_eq]
  apply FixedArray.ext
  rw [arrayAt_toList (by omega), List.drop_take, Nat.add_sub_cancel_left, h,
    List.take_left' a.length_eq]

@[simp] theorem readArray_eq (n : ℕ) (b : Bytes) (off : ℕ) :
    readArray n b off = .ok (arrayAt n b off) := by
  have hlen := b.length_lt
  unfold readArray arrayAt
  by_cases h : off + n ≤ b.length
  · have hsum : saturatingAdd off n = off + n := by
      simp only [saturatingAdd]
      omega
    have hget : b.get off (saturatingAdd off n) = some (b.window off (off + n)) := by
      rw [hsum, Bytes.get_eq_some]
      exact ⟨by omega, h, rfl⟩
    have hwindow : (b.window off (off + n)).toList.length = n := by
      have hwlen : (b.window off (off + n)).length = off + n - off := b.window_length h
      simpa [Bytes.length] using hwlen
    rw [hget, dif_pos h]
    exact toOctets_ok hwindow
  · have hget : b.get off (saturatingAdd off n) = none := by
      rw [Bytes.get, if_neg]
      simp only [saturatingAdd]
      omega
    rw [hget, dif_neg h]
    rfl

theorem leNat_zeros (n : ℕ) : leNat (zeros n).toList = 0 := by
  have hzero : ∀ n, leNat (List.replicate n 0) = 0 := by
    intro n
    induction n with
    | zero => rfl
    | succ n ih => simp [List.replicate_succ, leNat, ih]
  exact hzero n

theorem leNat_arrayAt (n : ℕ) (b : Bytes) (off : ℕ) :
    leNat (arrayAt n b off).toList = leAt b.toList off n := by
  unfold arrayAt leAt
  by_cases h : off + n ≤ b.length
  · rw [dif_pos h, if_pos h]
    rfl
  · rw [dif_neg h, if_neg h]
    exact leNat_zeros n

@[simp] theorem leU16_eq (b : Bytes) (off : ℕ) :
    leU16 b off = .ok (UInt16.ofNat (leAt b.toList off 2)) := by
  rw [leU16, readArray_eq, ok_bind, leNat_arrayAt]
  rfl

@[simp] theorem leU32_eq (b : Bytes) (off : ℕ) :
    leU32 b off = .ok (UInt32.ofNat (leAt b.toList off 4)) := by
  rw [leU32, readArray_eq, ok_bind, leNat_arrayAt]
  rfl

@[simp] theorem leU64_eq (b : Bytes) (off : ℕ) :
    leU64 b off = .ok (UInt64.ofNat (leAt b.toList off 8)) := by
  rw [leU64, readArray_eq, ok_bind, leNat_arrayAt]
  rfl

@[simp] theorem readGuid_eq (b : Bytes) (off : ℕ) : readGuid b off = .ok (arrayAt 16 b off) :=
  readArray_eq 16 b off

theorem sliceOwned_eq {b : Bytes} {off len : ℕ} (h : off + len ≤ b.length) :
    sliceOwned b off len = b.window off (off + len) := by
  have hlen := b.length_lt
  have hend : min (saturatingAdd off len) b.length = off + len := by
    simp only [saturatingAdd]
    omega
  have hget : b.get off (off + len) = some (b.window off (off + len)) :=
    Bytes.get_eq_some.mpr ⟨by omega, h, rfl⟩
  rw [sliceOwned, hend, hget, Option.getD_some]

end Bitlocker
