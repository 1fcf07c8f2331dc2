import Mathlib.Logic.Equiv.Basic
import BitlockerForensic.Core.Crypto

/-!
# The sector cipher is inverted by its decryption

What the code relies on from the cipher crates, and the round trips of a sector
for every transform, in both directions.
-/

namespace Bitlocker

open RustStd
open BlockModes

/-- The documented behaviour of `aes`, `cbc`, `xts-mode` and
`elephant-diffuser` on whole blocks. -/
structure CipherLaws (P : Crates) where
  aes128Decrypt : Octets 16 → Block → Block
  aes128_inverse : ∀ key x, aes128Decrypt key (P.aes128Encrypt key x) = x
  aes256Decrypt : Octets 32 → Block → Block
  aes256_inverse : ∀ key x, aes256Decrypt key (P.aes256Encrypt key x) = x
  cbc128Encrypt_run : ∀ key iv l, l.length % 16 = 0 →
    (P.cbc128Encrypt key iv).run l = cbcEncryptBytes (P.aes128Encrypt key) iv l
  cbc128Decrypt_run : ∀ key iv l, l.length % 16 = 0 →
    (P.cbc128Decrypt key iv).run l = cbcDecryptBytes (aes128Decrypt key) iv l
  cbc256Encrypt_run : ∀ key iv l, l.length % 16 = 0 →
    (P.cbc256Encrypt key iv).run l = cbcEncryptBytes (P.aes256Encrypt key) iv l
  cbc256Decrypt_run : ∀ key iv l, l.length % 16 = 0 →
    (P.cbc256Decrypt key iv).run l = cbcDecryptBytes (aes256Decrypt key) iv l
  xts128Encrypt_run : ∀ data tweak t l, l.length % 16 = 0 → 16 ≤ l.length →
    (P.xts128Encrypt data tweak t).run l =
      xtsBytes (P.aes128Encrypt data) (P.aes128Encrypt tweak t) l
  xts128Decrypt_run : ∀ data tweak t l, l.length % 16 = 0 → 16 ≤ l.length →
    (P.xts128Decrypt data tweak t).run l =
      xtsBytes (aes128Decrypt data) (P.aes128Encrypt tweak t) l
  xts256Encrypt_run : ∀ data tweak t l, l.length % 16 = 0 → 16 ≤ l.length →
    (P.xts256Encrypt data tweak t).run l =
      xtsBytes (P.aes256Encrypt data) (P.aes256Encrypt tweak t) l
  xts256Decrypt_run : ∀ data tweak t l, l.length % 16 = 0 → 16 ≤ l.length →
    (P.xts256Decrypt data tweak t).run l =
      xtsBytes (aes256Decrypt data) (P.aes256Encrypt tweak t) l
  getTweakDefault_eq : ∀ sectorIndex,
    (P.getTweakDefault sectorIndex).toList = leBytes 16 sectorIndex
  diffuser_inverse : ∀ key l, l.length % 16 = 0 →
    (P.diffuserDecrypt key).run ((P.diffuserEncrypt key).run l) = l

/-- The other direction: the block functions and the diffuser are onto. -/
structure CipherInverses (P : Crates) extends CipherLaws P where
  aes128_cancel : ∀ key x, P.aes128Encrypt key (aes128Decrypt key x) = x
  aes256_cancel : ∀ key x, P.aes256Encrypt key (aes256Decrypt key x) = x
  diffuser_cancel : ∀ key l, l.length % 16 = 0 →
    (P.diffuserEncrypt key).run ((P.diffuserDecrypt key).run l) = l

namespace SectorCipher

variable {P : Crates}

@[simp] theorem length_encryptSector (cipher : SectorCipher P) (plain : List UInt8)
    (byteOffset : UInt64) : (cipher.encryptSector plain byteOffset).length = plain.length := by
  obtain ⟨transform⟩ := cipher
  cases transform with
  | cbc128 fvek fvekEcb tweak => cases tweak <;> simp [encryptSector]
  | cbc256 fvek fvekEcb => simp [encryptSector]
  | xts128 data tweak => simp [encryptSector]
  | xts256 data tweak => simp [encryptSector]

theorem onWholeBlocks_cbc {enc dec : InPlace} {f g : Block → Block} {iv : Block}
    (hinv : ∀ x, g (f x) = x)
    (henc : ∀ l, l.length % 16 = 0 → enc.run l = cbcEncryptBytes f iv l)
    (hdec : ∀ l, l.length % 16 = 0 → dec.run l = cbcDecryptBytes g iv l)
    {l : List UInt8} (h : l.length % 16 = 0) : onWholeBlocks dec (onWholeBlocks enc l) = l := by
  have hlen : (enc.run l).length % 16 = 0 := by rw [enc.length_run, h]
  rw [onWholeBlocks_of_dvd enc h, onWholeBlocks_of_dvd dec hlen, hdec _ hlen, henc l h,
    cbcDecryptBytes_cbcEncryptBytes hinv iv h]

theorem onWholeBlocks_cbc_cancel {enc dec : InPlace} {f g : Block → Block} {iv : Block}
    (hinv : ∀ x, f (g x) = x)
    (henc : ∀ l, l.length % 16 = 0 → enc.run l = cbcEncryptBytes f iv l)
    (hdec : ∀ l, l.length % 16 = 0 → dec.run l = cbcDecryptBytes g iv l)
    {l : List UInt8} (h : l.length % 16 = 0) : onWholeBlocks enc (onWholeBlocks dec l) = l := by
  have hlen : (dec.run l).length % 16 = 0 := by rw [dec.length_run, h]
  rw [onWholeBlocks_of_dvd dec h, onWholeBlocks_of_dvd enc hlen, henc _ hlen, hdec l h,
    cbcEncryptBytes_cbcDecryptBytes hinv iv h]

theorem xts_inverse {enc dec : InPlace} {f g : Block → Block} {tweak : Block}
    (hinv : ∀ x, g (f x) = x)
    (henc : ∀ l, l.length % 16 = 0 → 16 ≤ l.length → enc.run l = xtsBytes f tweak l)
    (hdec : ∀ l, l.length % 16 = 0 → 16 ≤ l.length → dec.run l = xtsBytes g tweak l)
    {l : List UInt8} (h : l.length % 16 = 0) (hpos : 16 ≤ l.length) :
    dec.run (enc.run l) = l := by
  have hlen : (enc.run l).length = l.length := enc.length_run l
  rw [hdec _ (by omega) (by omega), henc l h hpos, xtsBytes_xtsBytes hinv tweak h]

/-- Decryption inverts encryption on every non-empty sequence of blocks. -/
theorem decryptSector_encryptSector (laws : CipherLaws P) (cipher : SectorCipher P)
    {plain : List UInt8} (h : plain.length % 16 = 0) (hpos : 16 ≤ plain.length)
    (byteOffset : UInt64) :
    cipher.decryptSector (cipher.encryptSector plain byteOffset) byteOffset = plain := by
  have hstage := cipher.length_encryptSector plain byteOffset
  obtain ⟨transform⟩ := cipher
  cases transform with
  | cbc128 fvek fvekEcb tweak =>
      have hcbc := fun l hl ↦ @onWholeBlocks_cbc _ _ _ _
        (P.aes128Encrypt fvekEcb (le128 byteOffset)) (laws.aes128_inverse fvek)
        (laws.cbc128Encrypt_run fvek _) (laws.cbc128Decrypt_run fvek _) l hl
      cases tweak with
      | none => exact hcbc plain h
      | some tweak =>
          have hdiffused : ((P.diffuserEncrypt (sectorKey P tweak byteOffset)).run plain).length %
              16 = 0 := by rw [InPlace.length_run, h]
          simp only [decryptSector, encryptSector]
          rw [hcbc _ hdiffused, onWholeBlocks_of_dvd _ hdiffused, laws.diffuser_inverse _ _ h]
  | cbc256 fvek fvekEcb =>
      exact onWholeBlocks_cbc (laws.aes256_inverse fvek) (laws.cbc256Encrypt_run fvek _)
        (laws.cbc256Decrypt_run fvek _) h
  | xts128 data tweak =>
      simp only [decryptSector, xtsDecryptSector]
      rw [if_pos (by rw [hstage]; exact hpos)]
      exact xts_inverse (laws.aes128_inverse data) (laws.xts128Encrypt_run data tweak _)
        (laws.xts128Decrypt_run data tweak _) h hpos
  | xts256 data tweak =>
      simp only [decryptSector, xtsDecryptSector]
      rw [if_pos (by rw [hstage]; exact hpos)]
      exact xts_inverse (laws.aes256_inverse data) (laws.xts256Encrypt_run data tweak _)
        (laws.xts256Decrypt_run data tweak _) h hpos

/-- Encryption inverts decryption on every non-empty sequence of blocks. -/
theorem encryptSector_decryptSector (laws : CipherInverses P) (cipher : SectorCipher P)
    {ct : List UInt8} (h : ct.length % 16 = 0) (hpos : 16 ≤ ct.length) (byteOffset : UInt64) :
    cipher.encryptSector (cipher.decryptSector ct byteOffset) byteOffset = ct := by
  obtain ⟨transform⟩ := cipher
  cases transform with
  | cbc128 fvek fvekEcb tweak =>
      have hcbc := fun l hl ↦ @onWholeBlocks_cbc_cancel _ _ _ _
        (P.aes128Encrypt fvekEcb (le128 byteOffset)) (laws.aes128_cancel fvek)
        (laws.cbc128Encrypt_run fvek _) (laws.cbc128Decrypt_run fvek _) l hl
      cases tweak with
      | none => exact hcbc ct h
      | some tweak =>
          have hplain : (onWholeBlocks (P.cbc128Decrypt fvek
              (P.aes128Encrypt fvekEcb (le128 byteOffset))) ct).length % 16 = 0 := by
            rw [length_onWholeBlocks, h]
          simp only [decryptSector, encryptSector]
          rw [onWholeBlocks_of_dvd (P.diffuserDecrypt _) hplain, laws.diffuser_cancel _ _ hplain,
            hcbc ct h]
  | cbc256 fvek fvekEcb =>
      exact onWholeBlocks_cbc_cancel (laws.aes256_cancel fvek) (laws.cbc256Encrypt_run fvek _)
        (laws.cbc256Decrypt_run fvek _) h
  | xts128 data tweak =>
      simp only [decryptSector, xtsDecryptSector]
      rw [if_pos hpos]
      exact xts_inverse (laws.aes128_cancel data) (laws.xts128Decrypt_run data tweak _)
        (laws.xts128Encrypt_run data tweak _) h hpos
  | xts256 data tweak =>
      simp only [decryptSector, xtsDecryptSector]
      rw [if_pos hpos]
      exact xts_inverse (laws.aes256_cancel data) (laws.xts256Decrypt_run data tweak _)
        (laws.xts256Encrypt_run data tweak _) h hpos

theorem slice_octets {m : ℕ} (key : Octets m) {lo n : ℕ} (h : lo + n ≤ m) :
    ∃ part : Octets n, RustStd.slice key.toList lo (lo + n) = .ok part.toList := by
  have hlen : ((key.toList.take (lo + n)).drop lo).length = n := by
    rw [List.length_drop, List.length_take, key.length_eq]
    omega
  refine ⟨⟨_, hlen⟩, ?_⟩
  rw [slice_ok (Nat.le_add_right lo n) (by rw [key.length_eq]; exact h)]

theorem exists_newXts128 (fvek : Octets 32) :
    ∃ cipher : SectorCipher P, newXts128 fvek = .ok cipher := by
  obtain ⟨data, hdata⟩ : ∃ part : Octets 16, RustStd.slice fvek.toList 0 16 = .ok part.toList :=
    slice_octets fvek (by decide)
  obtain ⟨tweak, htweak⟩ : ∃ part : Octets 16, RustStd.slice fvek.toList 16 32 = .ok part.toList :=
    slice_octets fvek (by decide)
  refine ⟨⟨.xts128 data tweak⟩, ?_⟩
  simp only [newXts128, hdata, htweak, ok_bind, toOctets_toList]
  rfl

theorem exists_newXts256 (fvek : Octets 64) :
    ∃ cipher : SectorCipher P, newXts256 fvek = .ok cipher := by
  obtain ⟨data, hdata⟩ : ∃ part : Octets 32, RustStd.slice fvek.toList 0 32 = .ok part.toList :=
    slice_octets fvek (by decide)
  obtain ⟨tweak, htweak⟩ : ∃ part : Octets 32, RustStd.slice fvek.toList 32 64 = .ok part.toList :=
    slice_octets fvek (by decide)
  refine ⟨⟨.xts256 data tweak⟩, ?_⟩
  simp only [newXts256, hdata, htweak, ok_bind, toOctets_toList]
  rfl

end SectorCipher

/-! ## Crates over given block permutations -/

namespace Crates

def blockwise (f : List Block → List Block) (hf : ∀ bs, (f bs).length = bs.length) : InPlace :=
  ⟨onBlocks f, length_onBlocks hf⟩

/-- The standard modes over the given AES permutations, with a trivial
diffuser. -/
def standard (sha256 : List UInt8 → Octets 32)
    (ccmDecrypt : Octets 32 → Octets 12 → Bytes → Octets 16 → Option Bytes)
    (ccmEncrypt : Octets 32 → Octets 12 → Bytes → Bytes × Octets 16)
    (aes128 : Octets 16 → Equiv.Perm Block) (aes256 : Octets 32 → Equiv.Perm Block) : Crates where
  sha256 := sha256
  ccmDecrypt := ccmDecrypt
  ccmEncrypt := ccmEncrypt
  aes128Encrypt key := aes128 key
  aes256Encrypt key := aes256 key
  cbc128Decrypt key iv :=
    blockwise (cbcDecrypt xorBlock (aes128 key).symm iv) (length_cbcDecrypt _ _ _)
  cbc128Encrypt key iv := blockwise (cbcEncrypt xorBlock (aes128 key) iv) (length_cbcEncrypt _ _ _)
  cbc256Decrypt key iv :=
    blockwise (cbcDecrypt xorBlock (aes256 key).symm iv) (length_cbcDecrypt _ _ _)
  cbc256Encrypt key iv := blockwise (cbcEncrypt xorBlock (aes256 key) iv) (length_cbcEncrypt _ _ _)
  xts128Decrypt data tweak t :=
    blockwise (xexMap xorBlock gfDouble (aes128 data).symm (aes128 tweak t)) (length_xexMap _ _ _ _)
  xts128Encrypt data tweak t :=
    blockwise (xexMap xorBlock gfDouble (aes128 data) (aes128 tweak t)) (length_xexMap _ _ _ _)
  xts256Decrypt data tweak t :=
    blockwise (xexMap xorBlock gfDouble (aes256 data).symm (aes256 tweak t)) (length_xexMap _ _ _ _)
  xts256Encrypt data tweak t :=
    blockwise (xexMap xorBlock gfDouble (aes256 data) (aes256 tweak t)) (length_xexMap _ _ _ _)
  getTweakDefault sectorIndex := ⟨leBytes 16 sectorIndex, length_leBytes _ _⟩
  diffuserDecrypt _ := ⟨id, fun _ ↦ rfl⟩
  diffuserEncrypt _ := ⟨id, fun _ ↦ rfl⟩

def standardLaws (sha256 : List UInt8 → Octets 32)
    (ccmDecrypt : Octets 32 → Octets 12 → Bytes → Octets 16 → Option Bytes)
    (ccmEncrypt : Octets 32 → Octets 12 → Bytes → Bytes × Octets 16)
    (aes128 : Octets 16 → Equiv.Perm Block) (aes256 : Octets 32 → Equiv.Perm Block) :
    CipherLaws (standard sha256 ccmDecrypt ccmEncrypt aes128 aes256) where
  aes128Decrypt key := (aes128 key).symm
  aes128_inverse key := (aes128 key).symm_apply_apply
  aes256Decrypt key := (aes256 key).symm
  aes256_inverse key := (aes256 key).symm_apply_apply
  cbc128Encrypt_run _ _ _ _ := rfl
  cbc128Decrypt_run _ _ _ _ := rfl
  cbc256Encrypt_run _ _ _ _ := rfl
  cbc256Decrypt_run _ _ _ _ := rfl
  xts128Encrypt_run _ _ _ _ _ _ := rfl
  xts128Decrypt_run _ _ _ _ _ _ := rfl
  xts256Encrypt_run _ _ _ _ _ _ := rfl
  xts256Decrypt_run _ _ _ _ _ _ := rfl
  getTweakDefault_eq _ := rfl
  diffuser_inverse _ _ _ := rfl

def standardInverses (sha256 : List UInt8 → Octets 32)
    (ccmDecrypt : Octets 32 → Octets 12 → Bytes → Octets 16 → Option Bytes)
    (ccmEncrypt : Octets 32 → Octets 12 → Bytes → Bytes × Octets 16)
    (aes128 : Octets 16 → Equiv.Perm Block) (aes256 : Octets 32 → Equiv.Perm Block) :
    CipherInverses (standard sha256 ccmDecrypt ccmEncrypt aes128 aes256) where
  toCipherLaws := standardLaws sha256 ccmDecrypt ccmEncrypt aes128 aes256
  aes128_cancel key := (aes128 key).apply_symm_apply
  aes256_cancel key := (aes256 key).apply_symm_apply
  diffuser_cancel _ _ _ := rfl

end Crates

end Bitlocker
