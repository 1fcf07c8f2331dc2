import Mathlib.Logic.Function.Iterate
import BitlockerForensic.Std.Bytes

/-!
# Block-cipher modes

CBC and XTS over an arbitrary block type with a cancelling `xor`, and their
byte-level forms over 16-byte blocks.  Decryption inverts encryption as soon as
the block functions do, and each block of its result depends on at most two blocks
of the input.
-/

namespace BlockModes

open RustStd

section Abstract

variable {B : Type} (xor : B → B → B)

def cbcEncrypt (enc : B → B) : B → List B → List B
  | _, [] => []
  | iv, x :: xs => enc (xor x iv) :: cbcEncrypt enc (enc (xor x iv)) xs

def cbcDecrypt (dec : B → B) : B → List B → List B
  | _, [] => []
  | iv, c :: cs => xor (dec c) iv :: cbcDecrypt dec c cs

/-- Each block is masked before and after the block function; the mask moves
on by `next`. -/
def xexMap (next : B → B) (f : B → B) : B → List B → List B
  | _, [] => []
  | mask, x :: xs => xor (f (xor x mask)) mask :: xexMap next f (next mask) xs

@[simp] theorem length_cbcEncrypt (enc : B → B) (iv : B) (xs : List B) :
    (cbcEncrypt xor enc iv xs).length = xs.length := by
  induction xs generalizing iv with
  | nil => rfl
  | cons x xs ih => simp [cbcEncrypt, ih]

@[simp] theorem length_cbcDecrypt (dec : B → B) (iv : B) (xs : List B) :
    (cbcDecrypt xor dec iv xs).length = xs.length := by
  induction xs generalizing iv with
  | nil => rfl
  | cons x xs ih => simp [cbcDecrypt, ih]

@[simp] theorem length_xexMap (next f : B → B) (mask : B) (xs : List B) :
    (xexMap xor next f mask xs).length = xs.length := by
  induction xs generalizing mask with
  | nil => rfl
  | cons x xs ih => simp [xexMap, ih]

variable {xor}

theorem cbcDecrypt_cbcEncrypt (hxor : ∀ a b, xor (xor a b) b = a) {enc dec : B → B}
    (hinv : ∀ x, dec (enc x) = x) (iv : B) (xs : List B) :
    cbcDecrypt xor dec iv (cbcEncrypt xor enc iv xs) = xs := by
  induction xs generalizing iv with
  | nil => rfl
  | cons x xs ih => rw [cbcEncrypt, cbcDecrypt, hinv, hxor, ih]

theorem cbcEncrypt_cbcDecrypt (hxor : ∀ a b, xor (xor a b) b = a) {enc dec : B → B}
    (hinv : ∀ x, enc (dec x) = x) (iv : B) (cs : List B) :
    cbcEncrypt xor enc iv (cbcDecrypt xor dec iv cs) = cs := by
  induction cs generalizing iv with
  | nil => rfl
  | cons c cs ih => rw [cbcDecrypt, cbcEncrypt, hxor, hinv, ih]

theorem xexMap_xexMap (hxor : ∀ a b, xor (xor a b) b = a) {f g : B → B}
    (hinv : ∀ x, g (f x) = x) (next : B → B) (mask : B) (xs : List B) :
    xexMap xor next g mask (xexMap xor next f mask xs) = xs := by
  induction xs generalizing mask with
  | nil => rfl
  | cons x xs ih => rw [xexMap, xexMap, hxor, hinv, hxor, ih]

/-- A block of a CBC plaintext is made from its ciphertext block and the one
before. -/
theorem getElem?_cbcDecrypt (dec : B → B) {iv : B} {cs : List B} {k : ℕ} {c before : B}
    (hc : cs[k]? = some c) (hbefore : (iv :: cs)[k]? = some before) :
    (cbcDecrypt xor dec iv cs)[k]? = some (xor (dec c) before) := by
  induction cs generalizing iv k with
  | nil => cases hc
  | cons c' cs ih =>
      cases k with
      | zero =>
          cases hc
          cases hbefore
          rfl
      | succ k => exact ih hc hbefore

/-- A block of an XTS text is made from its block of the input alone. -/
theorem getElem?_xexMap (next f : B → B) (mask : B) (xs : List B) (k : ℕ) :
    (xexMap xor next f mask xs)[k]? =
      xs[k]?.map fun x ↦ xor (f (xor x (next^[k] mask))) (next^[k] mask) := by
  induction xs generalizing mask k with
  | nil => rfl
  | cons x xs ih =>
      cases k with
      | zero => rfl
      | succ k =>
          rw [xexMap, List.getElem?_cons_succ, ih, List.getElem?_cons_succ,
            Function.iterate_succ_apply]

end Abstract

/-! ## Sixteen-byte blocks -/

abbrev Block := Octets 16

def xorBlock (a b : Block) : Block where
  toList := List.zipWith (· ^^^ ·) a.toList b.toList
  length_eq := by simp [a.length_eq, b.length_eq]

theorem xorBlock_cancel (a b : Block) : xorBlock (xorBlock a b) b = a := by
  have hlen : a.toList.length = b.toList.length := a.length_eq.trans b.length_eq.symm
  apply FixedArray.ext
  apply List.ext_getElem
  · simp [xorBlock, hlen]
  · intro i h₁ h₂
    simp only [xorBlock, List.getElem_zipWith]
    rw [UInt8.xor_assoc, UInt8.xor_self, UInt8.xor_zero]

theorem xorBlock_xorBlock (a b c : Block) :
    xorBlock (xorBlock a b) (xorBlock b c) = xorBlock a c := by
  have hbyte : ∀ x y z : UInt8, (x ^^^ y) ^^^ (y ^^^ z) = x ^^^ z := by
    intro x y z
    rw [UInt8.xor_assoc, ← UInt8.xor_assoc y, UInt8.xor_self, UInt8.zero_xor]
  apply FixedArray.ext
  apply List.ext_getElem
  · simp [xorBlock, FixedArray.length_eq]
  · intro i h₁ h₂
    simp only [xorBlock, List.getElem_zipWith]
    exact hbyte _ _ _

theorem xorBlock_left_inj {a b mask : Block} : xorBlock a mask = xorBlock b mask ↔ a = b := by
  constructor
  · intro h
    rw [← xorBlock_cancel a mask, h, xorBlock_cancel]
  · rintro rfl
    rfl

def firstBlock (l : List UInt8) : Block where
  toList := (l ++ List.replicate 16 0).take 16
  length_eq := by simp

def toBlocks : ℕ → List UInt8 → List Block
  | 0, _ => []
  | n + 1, l => firstBlock l :: toBlocks n (l.drop 16)

def ofBlocks (blocks : List Block) : List UInt8 := blocks.flatMap FixedArray.toList

@[simp] theorem length_toBlocks (n : ℕ) (l : List UInt8) : (toBlocks n l).length = n := by
  induction n generalizing l with
  | zero => rfl
  | succ n ih => simp [toBlocks, ih]

@[simp] theorem length_ofBlocks (blocks : List Block) :
    (ofBlocks blocks).length = 16 * blocks.length := by
  induction blocks with
  | nil => rfl
  | cons b bs ih =>
      simp only [ofBlocks, List.flatMap_cons, List.length_append, b.length_eq,
        List.length_cons] at ih ⊢
      omega

theorem ofBlocks_toBlocks {n : ℕ} {l : List UInt8} (h : l.length = 16 * n) :
    ofBlocks (toBlocks n l) = l := by
  induction n generalizing l with
  | zero => simpa [toBlocks, ofBlocks] using h
  | succ n ih =>
      have hfirst : (firstBlock l).toList = l.take 16 := by
        simp only [firstBlock]
        rw [List.take_append_of_le_length (by omega)]
      have hrest := ih (l := l.drop 16) (by rw [List.length_drop]; omega)
      simp only [toBlocks, ofBlocks, List.flatMap_cons, hfirst] at hrest ⊢
      rw [hrest, List.take_append_drop]

theorem toBlocks_ofBlocks (blocks : List Block) :
    toBlocks blocks.length (ofBlocks blocks) = blocks := by
  induction blocks with
  | nil => rfl
  | cons b bs ih =>
      have hfirst : firstBlock (ofBlocks (b :: bs)) = b := by
        apply FixedArray.ext
        simp only [firstBlock, ofBlocks, List.flatMap_cons, List.append_assoc]
        rw [List.take_append_of_le_length (by rw [b.length_eq]),
          List.take_of_length_le (by rw [b.length_eq])]
      have hdrop : (ofBlocks (b :: bs)).drop 16 = ofBlocks bs := by
        simp only [ofBlocks, List.flatMap_cons]
        exact List.drop_left' b.length_eq
      rw [List.length_cons, toBlocks, hfirst, hdrop, ih]

/-- A block-list transformation on the whole blocks of a byte string; a partial
last block is kept. -/
def onBlocks (f : List Block → List Block) (l : List UInt8) : List UInt8 :=
  ofBlocks (f (toBlocks (l.length / 16) l)) ++ l.drop (16 * (l.length / 16))

theorem length_onBlocks {f : List Block → List Block} (hf : ∀ bs, (f bs).length = bs.length)
    (l : List UInt8) : (onBlocks f l).length = l.length := by
  rw [onBlocks, List.length_append, length_ofBlocks, hf, length_toBlocks, List.length_drop]
  omega

theorem onBlocks_onBlocks {f g : List Block → List Block}
    (hf : ∀ bs, (f bs).length = bs.length) (hinv : ∀ bs, g (f bs) = bs) {l : List UInt8}
    (h : l.length % 16 = 0) : onBlocks g (onBlocks f l) = l := by
  have hlen : l.length = 16 * (l.length / 16) := by omega
  have hone : onBlocks f l = ofBlocks (f (toBlocks (l.length / 16) l)) := by
    rw [onBlocks, List.drop_eq_nil_of_le (le_of_eq hlen), List.append_nil]
  have hcount : (f (toBlocks (l.length / 16) l)).length = l.length / 16 := by
    rw [hf, length_toBlocks]
  have hdiv : (ofBlocks (f (toBlocks (l.length / 16) l))).length / 16 =
      (f (toBlocks (l.length / 16) l)).length := by
    rw [length_ofBlocks]
    omega
  rw [hone, onBlocks, hdiv, toBlocks_ofBlocks, hinv, ofBlocks_toBlocks hlen,
    List.drop_eq_nil_of_le, List.append_nil]
  rw [length_ofBlocks]

def cbcEncryptBytes (enc : Block → Block) (iv : Block) : List UInt8 → List UInt8 :=
  onBlocks (cbcEncrypt xorBlock enc iv)

def cbcDecryptBytes (dec : Block → Block) (iv : Block) : List UInt8 → List UInt8 :=
  onBlocks (cbcDecrypt xorBlock dec iv)

/-- Multiplication by `x` in GF(2^128), little-endian. -/
def gfDouble (t : Block) : Block where
  toList := leBytes 16 ((2 * leNat t.toList) ^^^
    (if leNat t.toList < 2 ^ 127 then 0 else 0x87))
  length_eq := length_leBytes _ _

def xtsBytes (f : Block → Block) (tweak : Block) : List UInt8 → List UInt8 :=
  onBlocks (xexMap xorBlock gfDouble f tweak)

theorem cbcDecryptBytes_cbcEncryptBytes {enc dec : Block → Block} (hinv : ∀ x, dec (enc x) = x)
    (iv : Block) {l : List UInt8} (h : l.length % 16 = 0) :
    cbcDecryptBytes dec iv (cbcEncryptBytes enc iv l) = l :=
  onBlocks_onBlocks (length_cbcEncrypt xorBlock enc iv)
    (cbcDecrypt_cbcEncrypt xorBlock_cancel hinv iv) h

theorem cbcEncryptBytes_cbcDecryptBytes {enc dec : Block → Block} (hinv : ∀ x, enc (dec x) = x)
    (iv : Block) {l : List UInt8} (h : l.length % 16 = 0) :
    cbcEncryptBytes enc iv (cbcDecryptBytes dec iv l) = l :=
  onBlocks_onBlocks (length_cbcDecrypt xorBlock dec iv)
    (cbcEncrypt_cbcDecrypt xorBlock_cancel hinv iv) h

theorem xtsBytes_xtsBytes {f g : Block → Block} (hinv : ∀ x, g (f x) = x)
    (tweak : Block) {l : List UInt8} (h : l.length % 16 = 0) :
    xtsBytes g tweak (xtsBytes f tweak l) = l :=
  onBlocks_onBlocks (length_xexMap xorBlock gfDouble f tweak)
    (xexMap_xexMap xorBlock_cancel hinv gfDouble tweak) h

/-! ## Single blocks -/

/-- The block at index `k` of a byte string. -/
def block (l : List UInt8) (k : ℕ) : Block := firstBlock (l.drop (16 * k))

theorem getElem?_toBlocks {n k : ℕ} (l : List UInt8) (hk : k < n) :
    (toBlocks n l)[k]? = some (block l k) := by
  induction n generalizing l k with
  | zero => cases hk
  | succ n ih =>
      cases k with
      | zero => rfl
      | succ k =>
          rw [toBlocks, List.getElem?_cons_succ, ih _ (by omega), block, block, List.drop_drop,
            Nat.mul_succ, Nat.add_comm]

theorem block_toList {l : List UInt8} {k : ℕ} (h : 16 * k + 16 ≤ l.length) :
    (block l k).toList = (l.drop (16 * k)).take 16 := by
  change (l.drop (16 * k) ++ List.replicate 16 0).take 16 = _
  rw [List.take_append_of_le_length (by rw [List.length_drop]; omega)]

theorem getElem?_block {l : List UInt8} {k i : ℕ} (h : 16 * k + 16 ≤ l.length) (hi : i < 16) :
    (block l k).toList[i]? = l[16 * k + i]? := by
  rw [block_toList h, List.getElem?_take_of_lt hi, List.getElem?_drop]

theorem block_ext {l l' : List UInt8} {k : ℕ} (h : 16 * k + 16 ≤ l.length)
    (h' : 16 * k + 16 ≤ l'.length) (hsame : ∀ i < 16, l[16 * k + i]? = l'[16 * k + i]?) :
    block l k = block l' k := by
  apply FixedArray.ext
  apply List.ext_getElem?
  intro i
  by_cases hi : i < 16
  · rw [getElem?_block h hi, getElem?_block h' hi, hsame i hi]
  · rw [List.getElem?_eq_none (by rw [(block l k).length_eq]; omega),
      List.getElem?_eq_none (by rw [(block l' k).length_eq]; omega)]

theorem block_onBlocks {f : List Block → List Block} (hf : ∀ bs, (f bs).length = bs.length)
    {l : List UInt8} (h : l.length % 16 = 0) {k : ℕ} (hk : 16 * k + 16 ≤ l.length) :
    (f (toBlocks (l.length / 16) l))[k]? = some (block (onBlocks f l) k) := by
  have hlen : l.length = 16 * (l.length / 16) := by omega
  have hcount : (f (toBlocks (l.length / 16) l)).length = l.length / 16 := by
    rw [hf, length_toBlocks]
  have hone : onBlocks f l = ofBlocks (f (toBlocks (l.length / 16) l)) := by
    rw [onBlocks, List.drop_eq_nil_of_le (le_of_eq hlen), List.append_nil]
  have hblocks := toBlocks_ofBlocks (f (toBlocks (l.length / 16) l))
  rw [← hone] at hblocks
  rw [← hblocks, getElem?_toBlocks _ (by omega)]

theorem block_cbcDecryptBytes (dec : Block → Block) (iv : Block) {l : List UInt8}
    (h : l.length % 16 = 0) {k : ℕ} (hk : 16 * k + 16 ≤ l.length) :
    block (cbcDecryptBytes dec iv l) k =
      xorBlock (dec (block l k)) (if k = 0 then iv else block l (k - 1)) := by
  have hblock := getElem?_toBlocks l (show k < l.length / 16 by omega)
  have hbefore : (iv :: toBlocks (l.length / 16) l)[k]? =
      some (if k = 0 then iv else block l (k - 1)) := by
    cases k with
    | zero => rfl
    | succ k =>
        rw [List.getElem?_cons_succ, getElem?_toBlocks l (by omega), if_neg (Nat.succ_ne_zero k)]
        rfl
  have hcbc := @getElem?_cbcDecrypt _ xorBlock dec _ _ _ _ _ hblock hbefore
  rw [block_onBlocks (length_cbcDecrypt xorBlock dec iv) h hk] at hcbc
  exact Option.some.inj hcbc

theorem block_xtsBytes (f : Block → Block) (tweak : Block) {l : List UInt8}
    (h : l.length % 16 = 0) {k : ℕ} (hk : 16 * k + 16 ≤ l.length) :
    block (xtsBytes f tweak l) k =
      xorBlock (f (xorBlock (block l k) (gfDouble^[k] tweak))) (gfDouble^[k] tweak) := by
  have hxts := @getElem?_xexMap _ xorBlock gfDouble f tweak (toBlocks (l.length / 16) l) k
  rw [block_onBlocks (length_xexMap xorBlock gfDouble f tweak) h hk,
    getElem?_toBlocks l (show k < l.length / 16 by omega)] at hxts
  exact Option.some.inj hxts

end BlockModes
