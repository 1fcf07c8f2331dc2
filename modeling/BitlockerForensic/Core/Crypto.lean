import BitlockerForensic.Std.BlockModes
import BitlockerForensic.Core.Error

/-!
# Key derivation, key unwrap and the sector cipher

`core/src/crypto.rs` over the primitives of outside crates.  The primitives
are the parameter `Crates`; everything the repository itself decides (the
stretch structure, the key layouts, the order of the stages, the IV and tweak
of a sector) is written out here.
-/

namespace Bitlocker

open RustStd

structure InPlace where
  run : List UInt8 → List UInt8
  length_run : ∀ l, (run l).length = l.length

attribute [simp] InPlace.length_run

/-- The functions of `sha2`, `ccm`, `aes`, `cbc`, `xts-mode` and
`elephant-diffuser` that the code calls. -/
structure Crates where
  sha256 : List UInt8 → Octets 32
  /-- `decrypt_in_place_detached`: the plaintext when the tag verifies. -/
  ccmDecrypt : Octets 32 → Octets 12 → Bytes → Octets 16 → Option Bytes
  ccmEncrypt : Octets 32 → Octets 12 → Bytes → Bytes × Octets 16
  aes128Encrypt : Octets 16 → Octets 16 → Octets 16
  aes256Encrypt : Octets 32 → Octets 16 → Octets 16
  cbc128Decrypt : (key iv : Octets 16) → InPlace
  cbc128Encrypt : (key iv : Octets 16) → InPlace
  cbc256Decrypt : (key : Octets 32) → (iv : Octets 16) → InPlace
  cbc256Encrypt : (key : Octets 32) → (iv : Octets 16) → InPlace
  xts128Decrypt : (data tweak : Octets 16) → (sectorTweak : Octets 16) → InPlace
  xts128Encrypt : (data tweak : Octets 16) → (sectorTweak : Octets 16) → InPlace
  xts256Decrypt : (data tweak : Octets 32) → (sectorTweak : Octets 16) → InPlace
  xts256Encrypt : (data tweak : Octets 32) → (sectorTweak : Octets 16) → InPlace
  getTweakDefault : (sectorIndex : ℕ) → Octets 16
  diffuserDecrypt : (sectorKey : Octets 32) → InPlace
  diffuserEncrypt : (sectorKey : Octets 32) → InPlace

variable (P : Crates)

/-! ## Credential hashes -/

def utf16Units (c : Char) : List ℕ :=
  if c.toNat < 0x10000 then [c.toNat]
  else [0xd800 + (c.toNat - 0x10000) / 0x400, 0xdc00 + (c.toNat - 0x10000) % 0x400]

def passwordHash (password : String) : Octets 32 :=
  let utf16 := (password.toList.flatMap utf16Units).flatMap (leBytes 2)
  P.sha256 (P.sha256 utf16).toList

def stretchIterations : ℕ := 0x100000

def stretchLoop : ℕ → ℕ → List UInt8 → Eval (List UInt8)
  | 0, _, buf => .ok buf
  | remaining + 1, count, buf => do
      let buf ← copyInto buf 80 88 (leBytes 8 count)
      let digest := P.sha256 buf
      let buf ← copyInto buf 0 32 digest.toList
      stretchLoop remaining (count + 1) buf

/-- `last[32] | initial[32] | salt[16] | count`, hashed `iterations` times. -/
def stretchKeyN (hash : Octets 32) (salt : Octets 16) (iterations : ℕ) : Eval (Octets 32) := do
  let buf := (zeros 88).toList
  let buf ← copyInto buf 32 64 hash.toList
  let buf ← copyInto buf 64 80 salt.toList
  let buf ← stretchLoop P iterations 0 buf
  toOctets 32 (← slice buf 0 32)

def stretchKey (hash : Octets 32) (salt : Octets 16) : Eval (Octets 32) :=
  stretchKeyN P hash salt stretchIterations

def isAsciiDigit (b : UInt8) : Bool := 0x30 ≤ b ∧ b ≤ 0x39

/-- `str::parse::<u32>` on a text of a few ASCII digits. -/
def parseU32 (digits : List UInt8) : Option ℕ :=
  if digits ≠ [] ∧ digits.all isAsciiDigit then
    some (digits.foldl (fun n b ↦ 10 * n + (b.toNat - 0x30)) 0)
  else none

/-- The loop of `recovery_key_hash` over the groups from index `i` on. -/
def recoveryLoop : List (List Char) → ℕ → List UInt8 → ℕ → Res String (List UInt8 × ℕ)
  | [], _, key, groups => .ok (key, groups)
  | group :: rest, i, key, _ => do
      if i ≥ 8 then throw (.err "recovery password must be exactly 8 groups")
      let bytes := group.flatMap String.utf8EncodeChar
      if bytes.length ≠ 6 ∨ ¬ bytes.all isAsciiDigit then
        throw (.err "each recovery group must be 6 digits")
      let value ← okOr (parseU32 bytes) "invalid recovery digits"
      if value % 11 ≠ 0 then
        throw (.err "recovery group failed the divisible-by-11 checksum")
      let word := value / 11
      if word > 0xffff then
        throw (.err "recovery group out of range (value / 11 exceeds 16 bits)")
      let key ← copyInto key (i * 2) (i * 2 + 2) (leBytes 2 word)
      recoveryLoop rest (i + 1) key (i + 1)

def recoveryKeyHash (recovery : String) : Res String (Octets 32) := do
  let (key, groups) ← recoveryLoop (recovery.toList.splitOn '-') 0 (zeros 16).toList 0
  if groups ≠ 8 then throw (.err "recovery password must be exactly 8 groups")
  return P.sha256 key

/-! ## AES-CCM key wrapping -/

/-- Unwrap `nonce(12) | MAC(16) | ciphertext`; `none` when the value is too
short or its tag does not verify. -/
def aesCcmUnwrap (key : Octets 32) (valueData : Bytes) : Eval (Option Bytes) :=
  match valueData.get 0 12, valueData.get 12 28, valueData.getFrom 28 with
  | some nonce, some tag, some buffer => do
      let nonce ← toOctets 12 nonce.toList
      let tag ← toOctets 16 tag.toList
      pure (P.ccmDecrypt key nonce buffer tag)
  | _, _, _ => pure none

/-- The inverse layout, used by the repository to build synthetic volumes. -/
def aesCcmWrap (key : Octets 32) (nonce : Octets 12) (plaintext : Bytes) : List UInt8 :=
  let (buffer, tag) := P.ccmEncrypt key nonce plaintext
  nonce.toList ++ tag.toList ++ buffer.toList

/-! ## The sector cipher -/

/-- The key material of each transform; an expanded AES key is its key. -/
inductive SectorTransform where
  | cbc128 (fvek : Octets 16) (fvekEcb : Octets 16) (tweak : Option (Octets 16))
  | cbc256 (fvek : Octets 32) (fvekEcb : Octets 32)
  | xts128 (data tweak : Octets 16)
  | xts256 (data tweak : Octets 32)
  deriving DecidableEq

structure SectorCipher (P : Crates) where
  transform : SectorTransform
  deriving DecidableEq

namespace SectorCipher

variable {P}

def new (fvek tweak : Octets 16) : SectorCipher P := ⟨.cbc128 fvek fvek (some tweak)⟩

def newCbc (fvek : Octets 16) : SectorCipher P := ⟨.cbc128 fvek fvek none⟩

def newCbc256 (fvek : Octets 32) : SectorCipher P := ⟨.cbc256 fvek fvek⟩

def newXts128 (fvek : Octets 32) : Eval (SectorCipher P) := do
  let data ← toOctets 16 (← slice fvek.toList 0 16)
  let tweak ← toOctets 16 (← slice fvek.toList 16 32)
  pure ⟨.xts128 data tweak⟩

def newXts256 (fvek : Octets 64) : Eval (SectorCipher P) := do
  let data ← toOctets 32 (← slice fvek.toList 0 32)
  let tweak ← toOctets 32 (← slice fvek.toList 32 64)
  pure ⟨.xts256 data tweak⟩

def le128 (byteOffset : UInt64) : Octets 16 where
  toList := leBytes 8 byteOffset.toNat ++ List.replicate 8 0
  length_eq := by simp

variable (P) in
/-- The diffuser's key: the tweak cipher on `LE128(off)`, then on the same with
byte 15 set to `0x80`. -/
def sectorKey (tweak : Octets 16) (byteOffset : UInt64) : Octets 32 where
  toList :=
    (P.aes128Encrypt tweak (le128 byteOffset)).toList ++
      (P.aes128Encrypt tweak
        ⟨(le128 byteOffset).toList.set 15 0x80, by simp [(le128 byteOffset).length_eq]⟩).toList
  length_eq := by simp [FixedArray.length_eq]

variable (P) in
def sectorTweak (byteOffset : UInt64) : Octets 16 := P.getTweakDefault (byteOffset / 512).toNat

/-- Apply an operation to the leading whole blocks, as CBC without padding
does; the bytes after them stay. -/
def onWholeBlocks (op : InPlace) (buf : List UInt8) : List UInt8 :=
  let len := buf.length - buf.length % 16
  op.run (buf.take len) ++ buf.drop len

@[simp] theorem length_onWholeBlocks (op : InPlace) (buf : List UInt8) :
    (onWholeBlocks op buf).length = buf.length := by
  simp only [onWholeBlocks, List.length_append, InPlace.length_run, List.length_take,
    List.length_drop]
  omega

theorem onWholeBlocks_of_dvd (op : InPlace) {buf : List UInt8} (h : buf.length % 16 = 0) :
    onWholeBlocks op buf = op.run buf := by
  simp only [onWholeBlocks, h, Nat.sub_zero, List.take_length, List.drop_length, List.append_nil]

variable (P) in
def xtsDecryptSector (op : Octets 16 → InPlace) (buf : List UInt8) (byteOffset : UInt64) :
    List UInt8 :=
  if buf.length ≥ 16 then (op (sectorTweak P byteOffset)).run buf else buf

def decryptSector (cipher : SectorCipher P) (ct : List UInt8) (byteOffset : UInt64) : List UInt8 :=
  let iv := le128 byteOffset
  match cipher.transform with
  | .cbc128 fvek fvekEcb tweak =>
      let buf := onWholeBlocks (P.cbc128Decrypt fvek (P.aes128Encrypt fvekEcb iv)) ct
      match tweak with
      | some tweak => onWholeBlocks (P.diffuserDecrypt (sectorKey P tweak byteOffset)) buf
      | none => buf
  | .cbc256 fvek fvekEcb =>
      onWholeBlocks (P.cbc256Decrypt fvek (P.aes256Encrypt fvekEcb iv)) ct
  | .xts128 data tweak => xtsDecryptSector P (P.xts128Decrypt data tweak) ct byteOffset
  | .xts256 data tweak => xtsDecryptSector P (P.xts256Decrypt data tweak) ct byteOffset

/-- Encrypt one sector, as the repository's synthetic volumes do. -/
def encryptSector (cipher : SectorCipher P) (plain : List UInt8) (byteOffset : UInt64) :
    List UInt8 :=
  let iv := le128 byteOffset
  match cipher.transform with
  | .cbc128 fvek fvekEcb tweak =>
      let buf := match tweak with
        | some tweak => (P.diffuserEncrypt (sectorKey P tweak byteOffset)).run plain
        | none => plain
      onWholeBlocks (P.cbc128Encrypt fvek (P.aes128Encrypt fvekEcb iv)) buf
  | .cbc256 fvek fvekEcb =>
      onWholeBlocks (P.cbc256Encrypt fvek (P.aes256Encrypt fvekEcb iv)) plain
  | .xts128 data tweak => (P.xts128Encrypt data tweak (sectorTweak P byteOffset)).run plain
  | .xts256 data tweak => (P.xts256Encrypt data tweak (sectorTweak P byteOffset)).run plain

@[simp] theorem length_decryptSector (cipher : SectorCipher P) (ct : List UInt8)
    (byteOffset : UInt64) : (cipher.decryptSector ct byteOffset).length = ct.length := by
  obtain ⟨transform⟩ := cipher
  cases transform with
  | cbc128 fvek fvekEcb tweak => cases tweak <;> simp [decryptSector]
  | cbc256 fvek fvekEcb => simp [decryptSector]
  | xts128 data tweak =>
      simp only [decryptSector, xtsDecryptSector]
      split <;> simp
  | xts256 data tweak =>
      simp only [decryptSector, xtsDecryptSector]
      split <;> simp

end SectorCipher

end Bitlocker
