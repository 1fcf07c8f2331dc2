import BitlockerForensic.Std.Eval

/-!
# Byte slices

`Bytes` is the content of a `&[u8]` or `Vec<u8>`: a list no longer than
`isize::MAX`.  Ranges are read with `get` (absent when out of range) or by
indexing (a panic when out of range).  Little-endian values are lists of base
256 digits.
-/

namespace RustStd

/-! ## Indexing -/

def slice {α : Type} (l : List α) (lo hi : ℕ) : Eval (List α) :=
  if lo ≤ hi ∧ hi ≤ l.length then .ok ((l.take hi).drop lo) else .error .sliceIndex

theorem slice_ok {α : Type} {l : List α} {lo hi : ℕ} (hlo : lo ≤ hi) (hhi : hi ≤ l.length) :
    slice l lo hi = .ok ((l.take hi).drop lo) := by
  simp only [slice, if_pos (And.intro hlo hhi)]

def copyInto {α : Type} (dst : List α) (lo hi : ℕ) (src : List α) : Eval (List α) := do
  let window ← slice dst lo hi
  if window.length = src.length then
    pure (dst.take lo ++ src ++ dst.drop hi)
  else .error .copyLength

theorem copyInto_ok {α : Type} {dst src : List α} {lo hi : ℕ} (hlo : lo ≤ hi)
    (hhi : hi ≤ dst.length) (hsrc : src.length = hi - lo) :
    copyInto dst lo hi src = .ok (dst.take lo ++ src ++ dst.drop hi) := by
  have hlen : ((dst.take hi).drop lo).length = src.length := by
    rw [List.length_drop, List.length_take, hsrc, Nat.min_eq_left hhi]
  simp only [copyInto, slice_ok hlo hhi, ok_bind, if_pos hlen]
  rfl

theorem length_of_copyInto {α : Type} {dst src out : List α} {lo hi : ℕ}
    (h : copyInto dst lo hi src = .ok out) : out.length = dst.length := by
  obtain ⟨window, hwindow, hcopy⟩ := bind_eq_ok.mp h
  unfold slice at hwindow
  split at hwindow
  · rename_i hrange
    cases hwindow
    split at hcopy
    · rename_i hlen
      cases hcopy
      rw [List.length_drop, List.length_take] at hlen
      rw [List.length_append, List.length_append, List.length_take, List.length_drop]
      omega
    · cases hcopy
  · cases hwindow

theorem copyInto_segment {α : Type} {a b c src : List α} {lo hi : ℕ} (hlo : a.length = lo)
    (hhi : (a ++ b).length = hi) (hsrc : src.length = b.length) :
    copyInto (a ++ b ++ c) lo hi src = .ok (a ++ src ++ c) := by
  have hsum : a.length + b.length = hi := by rw [← hhi, List.length_append]
  rw [copyInto_ok (by omega) (by rw [List.length_append, hhi]; omega) (by omega),
    List.drop_left' hhi, List.append_assoc a b c, List.take_left' hlo]

/-! ## Fixed-size arrays -/

structure FixedArray (α : Type) (n : ℕ) where
  toList : List α
  length_eq : toList.length = n
  deriving DecidableEq

attribute [simp] FixedArray.length_eq

abbrev Octets (n : ℕ) := FixedArray UInt8 n

@[ext] theorem FixedArray.ext {α : Type} {n : ℕ} {a b : FixedArray α n}
    (h : a.toList = b.toList) : a = b := by
  cases a
  cases b
  simpa using h

theorem FixedArray.length_triple {α : Type} (a b c : α) : [a, b, c].length = 3 := rfl

/-- A fixed-size copy (`copy_from_slice` into `[u8; n]`, or
`GenericArray::from_slice`). -/
def toOctets (n : ℕ) (l : List UInt8) : Eval (Octets n) :=
  if h : l.length = n then .ok ⟨l, h⟩ else .error .copyLength

theorem toOctets_ok {n : ℕ} {l : List UInt8} (h : l.length = n) :
    toOctets n l = .ok ⟨l, h⟩ := by
  simp only [toOctets, dif_pos h]

@[simp] theorem toOctets_toList {n : ℕ} (a : Octets n) : toOctets n a.toList = .ok a :=
  toOctets_ok a.length_eq

def zeros (n : ℕ) : Octets n := ⟨List.replicate n 0, List.length_replicate⟩

/-! ## Slices -/

structure Bytes where
  toList : List UInt8
  fits : toList.length < 2 ^ 63

namespace Bytes

instance : DecidableEq Bytes := fun a b ↦
  decidable_of_iff (a.toList = b.toList) ⟨fun h ↦ by cases a; cases b; simpa using h,
    fun h ↦ by rw [h]⟩

@[ext] theorem ext {a b : Bytes} (h : a.toList = b.toList) : a = b := by
  cases a
  cases b
  simpa using h

abbrev length (b : Bytes) : ℕ := b.toList.length

theorem length_lt (b : Bytes) : b.length < 2 ^ 63 := b.fits

def window (b : Bytes) (lo hi : ℕ) : Bytes where
  toList := (b.toList.take hi).drop lo
  fits := by
    have := b.fits
    rw [List.length_drop, List.length_take]
    omega

@[simp] theorem window_toList (b : Bytes) (lo hi : ℕ) :
    (b.window lo hi).toList = (b.toList.take hi).drop lo := rfl

theorem window_length (b : Bytes) {lo hi : ℕ} (hhi : hi ≤ b.length) :
    (b.window lo hi).length = hi - lo := by
  have hhi' : hi ≤ b.toList.length := hhi
  simp only [length, window_toList, List.length_drop, List.length_take]
  omega

def get (b : Bytes) (lo hi : ℕ) : Option Bytes :=
  if lo ≤ hi ∧ hi ≤ b.length then some (b.window lo hi) else none

theorem get_eq_some {b s : Bytes} {lo hi : ℕ} :
    b.get lo hi = some s ↔ lo ≤ hi ∧ hi ≤ b.length ∧ s = b.window lo hi := by
  unfold get
  split
  · rename_i h
    simp [h, eq_comm]
  · rename_i h
    simp only [reduceCtorEq, false_iff]
    exact fun hs ↦ h ⟨hs.1, hs.2.1⟩

def getFrom (b : Bytes) (lo : ℕ) : Option Bytes := b.get lo b.length

def slice (b : Bytes) (lo hi : ℕ) : Eval Bytes :=
  if lo ≤ hi ∧ hi ≤ b.length then .ok (b.window lo hi) else .error .sliceIndex

theorem slice_ok {b : Bytes} {lo hi : ℕ} (hlo : lo ≤ hi) (hhi : hi ≤ b.length) :
    b.slice lo hi = .ok (b.window lo hi) := by
  simp only [slice, if_pos (And.intro hlo hhi)]

def empty : Bytes := ⟨[], by decide⟩

/-- A buffer seen as a slice.  Longer lists are not Rust values. -/
def ofList (l : List UInt8) : Bytes :=
  if h : l.length < 2 ^ 63 then ⟨l, h⟩ else empty

theorem ofList_toList {l : List UInt8} (h : l.length < 2 ^ 63) : (ofList l).toList = l := by
  rw [ofList, dif_pos h]

@[simp] theorem ofList_of_toList (b : Bytes) : ofList b.toList = b :=
  Bytes.ext (ofList_toList b.fits)

end Bytes

/-! ## Little-endian integers -/

def leNat : List UInt8 → ℕ
  | [] => 0
  | b :: bs => b.toNat + 256 * leNat bs

def leBytes : ℕ → ℕ → List UInt8
  | 0, _ => []
  | w + 1, n => UInt8.ofNat n :: leBytes w (n / 256)

@[simp] theorem length_leBytes (w n : ℕ) : (leBytes w n).length = w := by
  induction w generalizing n with
  | zero => rfl
  | succ w ih => simp [leBytes, ih]

theorem leNat_leBytes (w n : ℕ) : leNat (leBytes w n) = n % 256 ^ w := by
  induction w generalizing n with
  | zero => simp [leBytes, leNat, Nat.mod_one]
  | succ w ih =>
      have hpow : 256 ^ (w + 1) = 256 * 256 ^ w := pow_succ' 256 w
      rw [leBytes, leNat, ih, UInt8.toNat_ofNat', hpow, Nat.mod_mul]

theorem leBytes_leNat (l : List UInt8) : leBytes l.length (leNat l) = l := by
  induction l with
  | nil => rfl
  | cons b bs ih =>
      have hb := b.toNat_lt
      have hhead : UInt8.ofNat (b.toNat + 256 * leNat bs) = b := by
        apply UInt8.toNat_inj.mp
        rw [UInt8.toNat_ofNat']
        omega
      have htail : (b.toNat + 256 * leNat bs) / 256 = leNat bs := by omega
      rw [List.length_cons, leNat, leBytes, hhead, htail, ih]

theorem leNat_lt (l : List UInt8) : leNat l < 256 ^ l.length := by
  induction l with
  | nil => simp [leNat]
  | cons b bs ih =>
      have hb := b.toNat_lt
      rw [leNat, List.length_cons, pow_succ]
      omega

/-- The integer of `w` bytes at `off`, zero when they are not all present. -/
def leAt (l : List UInt8) (off w : ℕ) : ℕ :=
  if off + w ≤ l.length then leNat ((l.take (off + w)).drop off) else 0

theorem leAt_lt (l : List UInt8) (off w : ℕ) : leAt l off w < 256 ^ w := by
  unfold leAt
  split
  · rename_i h
    have hlen : ((l.take (off + w)).drop off).length = w := by
      rw [List.length_drop, List.length_take]
      omega
    simpa only [hlen] using leNat_lt ((l.take (off + w)).drop off)
  · exact Nat.pow_pos (by decide)

theorem drop_append_ge {a b : List UInt8} {n : ℕ} (h : a.length ≤ n) :
    (a ++ b).drop n = b.drop (n - a.length) := by
  rw [List.drop_append, List.drop_eq_nil_of_le h, List.nil_append]

theorem leBytes_leAt {l : List UInt8} {off w : ℕ} (h : off + w ≤ l.length) :
    leBytes w (leAt l off w) = (l.take (off + w)).drop off := by
  have hlen : ((l.take (off + w)).drop off).length = w := by
    rw [List.length_drop, List.length_take]
    omega
  have hbytes := leBytes_leNat ((l.take (off + w)).drop off)
  rw [hlen] at hbytes
  rw [leAt, if_pos h, hbytes]

theorem leAt_append {a b : List UInt8} {off : ℕ} (w : ℕ) (h : a.length ≤ off) :
    leAt (a ++ b) off w = leAt b (off - a.length) w := by
  unfold leAt
  have hlen : (a ++ b).length = a.length + b.length := List.length_append
  by_cases hfit : off + w ≤ (a ++ b).length
  · rw [if_pos hfit, if_pos (by omega), List.take_append, List.drop_append,
      List.drop_eq_nil_of_le (by rw [List.length_take]; omega), List.nil_append,
      List.length_take, Nat.min_eq_right (by omega)]
    congr 3
    omega
  · rw [if_neg hfit, if_neg (by omega)]

theorem leAt_append_left {a : List UInt8} (b : List UInt8) {off w : ℕ}
    (h : off + w ≤ a.length) : leAt (a ++ b) off w = leAt a off w := by
  rw [leAt, leAt, if_pos (by rw [List.length_append]; omega), if_pos h,
    List.take_append_of_le_length h]

theorem leAt_leBytes (w n : ℕ) (b : List UInt8) : leAt (leBytes w n ++ b) 0 w = n % 256 ^ w := by
  have hlen : (leBytes w n).length = w := length_leBytes w n
  rw [leAt, if_pos (by rw [List.length_append]; omega), Nat.zero_add, List.take_left' hlen,
    List.drop_zero, leNat_leBytes]

theorem ofNat_leAt_16 (n : UInt16) (b : List UInt8) :
    UInt16.ofNat (leAt (leBytes 2 n.toNat ++ b) 0 2) = n := by
  rw [leAt_leBytes, Nat.mod_eq_of_lt (show n.toNat < 256 ^ 2 from n.toNat_lt), UInt16.ofNat_toNat]

theorem ofNat_leAt_32 (n : UInt32) (b : List UInt8) :
    UInt32.ofNat (leAt (leBytes 4 n.toNat ++ b) 0 4) = n := by
  rw [leAt_leBytes, Nat.mod_eq_of_lt (show n.toNat < 256 ^ 4 from n.toNat_lt), UInt32.ofNat_toNat]

theorem ofNat_leAt_64 (n : UInt64) (b : List UInt8) :
    UInt64.ofNat (leAt (leBytes 8 n.toNat ++ b) 0 8) = n := by
  rw [leAt_leBytes, Nat.mod_eq_of_lt (show n.toNat < 256 ^ 8 from n.toNat_lt), UInt64.ofNat_toNat]

end RustStd
