import Mathlib.Data.List.Nodup
import BitlockerForensic.Std.Sha256
import BitlockerForensic.Core.EncodedVolume
import BitlockerForensic.Core.SectorInverse

/-!
# Keys of synthetic volumes

Protectors of every kind as the repository's tests write them, and the keys of its
synthetic volumes.  SHA-256 is the hash itself; AES and AES-CCM are given by their
values at the blocks and keys that the volumes use.
-/

namespace Bitlocker

open RustStd

/-! ## Protectors -/

/-- A VMK entry of the given type with the given properties. -/
def vmkEntry (protectorType : UInt16) (props : List MetadataEntry) : MetadataEntry :=
  ⟨entryTypeVmk, valueTypeVmk, 1, Bytes.ofList ((zeros 26).toList ++
    (leBytes 2 protectorType.toNat ++ MetadataEntry.encodeAll props))⟩

/-- A property whose value follows the four bytes of a method. -/
def valueProperty {n : ℕ} (valueType : UInt16) (value : Octets n) : MetadataEntry :=
  ⟨0, valueType, 1, Bytes.ofList ((zeros 4).toList ++ value.toList)⟩

def keyProperty (key : Octets 32) : MetadataEntry := valueProperty valueTypeKey key

def stretchProperty (salt : Octets 16) : MetadataEntry := valueProperty valueTypeStretch salt

def ccmProperty (blob : Bytes) : MetadataEntry := ⟨0, valueTypeAesCcm, 1, blob⟩

def clearKeyVmk (key : Octets 32) (blob : Bytes) : MetadataEntry :=
  vmkEntry protectionClear [keyProperty key, ccmProperty blob]

def fvekOf (blob : Bytes) : MetadataEntry := ⟨entryTypeFvek, valueTypeAesCcm, 1, blob⟩

theorem length_encodeAll_le {props : List MetadataEntry} (h : ∀ q ∈ props, q.Encodable) :
    (MetadataEntry.encodeAll props).length ≤ 65535 * props.length := by
  induction props with
  | nil => exact Nat.zero_le _
  | cons q props ih =>
      have hq : q.data.length ≤ 65527 := h q List.mem_cons_self
      have hrest := ih fun q' hq' ↦ h q' (List.mem_cons_of_mem q hq')
      rw [MetadataEntry.encodeAll_cons, List.length_append, MetadataEntry.length_encode,
        MetadataEntry.size, List.length_cons]
      omega

theorem vmkLayout_vmkEntry (protectorType : UInt16) {props : List MetadataEntry}
    (h : ∀ q ∈ props, q.Encodable) (hcount : props.length < 2 ^ 16) :
    MetadataEntry.VmkLayout (vmkEntry protectorType props) protectorType props := by
  have hlen := length_encodeAll_le h
  refine ⟨by rfl, h, zeros 26, Bytes.ofList_toList ?_⟩
  rw [List.length_append, List.length_append, FixedArray.length_eq, length_leBytes]
  omega

theorem valueProperty_data {n : ℕ} (hn : n ≤ 65523) (valueType : UInt16) (value : Octets n) :
    (valueProperty valueType value).data.toList = (zeros 4).toList ++ value.toList := by
  apply Bytes.ofList_toList
  rw [List.length_append, (zeros 4).length_eq, value.length_eq]
  omega

theorem length_valueProperty {n : ℕ} (hn : n ≤ 65523) (valueType : UInt16) (value : Octets n) :
    (valueProperty valueType value).data.length = 4 + n := by
  rw [Bytes.length, valueProperty_data hn, List.length_append, (zeros 4).length_eq,
    value.length_eq]

theorem holds_valueProperty {n : ℕ} (hn : n ≤ 65523) (valueType : UInt16) (value : Octets n) :
    Holds (valueProperty valueType value).data 4 value := by
  refine ⟨(zeros 4).toList, [], (zeros 4).length_eq, ?_⟩
  rw [valueProperty_data hn, List.append_nil]

theorem encodable_valueProperty {n : ℕ} (hn : n ≤ 65523) (valueType : UInt16)
    (value : Octets n) : (valueProperty valueType value).Encodable := by
  rw [MetadataEntry.Encodable, length_valueProperty hn]
  omega

theorem holds_keyProperty (key : Octets 32) : Holds (keyProperty key).data 4 key :=
  holds_valueProperty (by decide) valueTypeKey key

theorem holds_stretchProperty (salt : Octets 16) : Holds (stretchProperty salt).data 4 salt :=
  holds_valueProperty (by decide) valueTypeStretch salt

/-- An entry protects the VMK for the credential that gives the key its container is
wrapped under. -/
theorem protects_vmkEntry {P : Crates} {cred : Credential} {props : List MetadataEntry}
    {key vmk : Octets 32} {blob container : Bytes} (hprops : ∀ q ∈ props, q.Encodable)
    (hcount : props.length < 2 ^ 16) (hsource : KeySource P props cred key)
    (hblob : property props valueTypeAesCcm = some (ccmProperty blob))
    (hwraps : WrapsKey P key container blob) (hvmk : Holds container 12 vmk) :
    Protects P cred vmk (vmkEntry cred.protectorType props) :=
  ⟨props, key, ccmProperty blob, container, vmkLayout_vmkEntry cred.protectorType hprops hcount,
    hsource, hblob, hwraps, hvmk⟩

/-! ## The kinds of protectors -/

def stretchVmk (protectorType : UInt16) (salt : Octets 16) (blob : Bytes) : MetadataEntry :=
  vmkEntry protectorType [stretchProperty salt, ccmProperty blob]

def startupVmk (blob : Bytes) : MetadataEntry := vmkEntry protectionStartupKey [ccmProperty blob]

def externalKey (key : Octets 32) : MetadataEntry :=
  ⟨6, valueTypeExternalKey, 1, Bytes.ofList ((zeros 24).toList ++
    MetadataEntry.encodeAll [keyProperty key])⟩

/-- A `.BEK` file whose one entry holds the key. -/
def bekFile (header : Octets 48) (key : Octets 32) : Bytes :=
  Bytes.ofList (header.toList ++ MetadataEntry.encodeAll [externalKey key])

theorem length_keyProperty (key : Octets 32) : (keyProperty key).data.length = 36 :=
  length_valueProperty (by decide) valueTypeKey key

theorem externalKey_data (key : Octets 32) :
    (externalKey key).data.toList =
      (zeros 24).toList ++ MetadataEntry.encodeAll [keyProperty key] := by
  apply Bytes.ofList_toList
  simp [MetadataEntry.size, length_keyProperty]

theorem length_externalKey (key : Octets 32) : (externalKey key).data.length = 68 := by
  rw [Bytes.length, externalKey_data]
  simp [MetadataEntry.size, length_keyProperty]

theorem bekLayout_bekFile (header : Octets 48) (key : Octets 32) :
    BekLayout (bekFile header key) key [externalKey key] [keyProperty key] (externalKey key)
      (keyProperty key) where
  file := by
    refine ⟨header, Bytes.ofList_toList ?_⟩
    simp [MetadataEntry.size, length_externalKey]
  encodable := by
    simp [MetadataEntry.Encodable, length_externalKey]
  find_external := rfl
  nested := ⟨zeros 24, externalKey_data key⟩
  encodableNested := by
    simp [MetadataEntry.Encodable, length_keyProperty]
  find_key := rfl
  holds := holds_keyProperty key

section Protects

variable {P : Crates} {key vmk : Octets 32} {blob container : Bytes}

theorem protects_clearKeyVmk (hblob : (ccmProperty blob).Encodable)
    (hwraps : WrapsKey P key container blob) (hvmk : Holds container 12 vmk) :
    Protects P .clearKey vmk (clearKeyVmk key blob) := by
  refine protects_vmkEntry ?_ (by simp) (.clear rfl (holds_keyProperty key)) rfl hwraps hvmk
  intro q hq
  rcases List.mem_pair.mp hq with rfl | rfl
  · exact encodable_valueProperty (by decide) valueTypeKey key
  · exact hblob

theorem protects_startupVmk (header : Octets 48) (hblob : (ccmProperty blob).Encodable)
    (hwraps : WrapsKey P key container blob) (hvmk : Holds container 12 vmk) :
    Protects P (.startupKey (bekFile header key)) vmk (startupVmk blob) := by
  refine protects_vmkEntry ?_ (by simp) (.startup (bekLayout_bekFile header key)) rfl hwraps hvmk
  intro q hq
  cases List.mem_singleton.mp hq
  exact hblob

theorem protects_stretchVmk {cred : Credential} {salt : Octets 16}
    (hblob : (ccmProperty blob).Encodable)
    (hsource : KeySource P [stretchProperty salt, ccmProperty blob] cred key)
    (hwraps : WrapsKey P key container blob) (hvmk : Holds container 12 vmk) :
    Protects P cred vmk (stretchVmk cred.protectorType salt blob) := by
  refine protects_vmkEntry ?_ (by simp) hsource rfl hwraps hvmk
  intro q hq
  rcases List.mem_pair.mp hq with rfl | rfl
  · exact encodable_valueProperty (by decide) valueTypeStretch salt
  · exact hblob

end Protects

/-! ## AES-CCM on given keys -/

/-- What AES-CCM makes of a container under a key and a nonce, small enough for an entry. -/
structure WrappedKey where
  key : Octets 32
  nonce : Octets 12
  container : Bytes
  ciphertext : Bytes
  tag : Octets 16
  length_eq : ciphertext.length = container.length
  size_le : container.length ≤ 65499
  tag_ne : tag ≠ zeros 16

namespace WrappedKey

def blob (w : WrappedKey) : Bytes :=
  Bytes.ofList (w.nonce.toList ++ w.tag.toList ++ w.ciphertext.toList)

theorem length_parts (w : WrappedKey) :
    (w.nonce.toList ++ w.tag.toList ++ w.ciphertext.toList).length ≤ 65527 := by
  have hsize := w.size_le
  rw [← w.length_eq, Bytes.length] at hsize
  rw [List.length_append, List.length_append, w.nonce.length_eq, w.tag.length_eq]
  omega

theorem blob_toList (w : WrappedKey) :
    w.blob.toList = w.nonce.toList ++ w.tag.toList ++ w.ciphertext.toList :=
  Bytes.ofList_toList (w.length_parts.trans_lt (by decide))

theorem encodable_blob (w : WrappedKey) : (ccmProperty w.blob).Encodable := by
  have hblob : w.blob.length ≤ 65527 := by
    rw [Bytes.length, w.blob_toList]
    exact w.length_parts
  exact hblob

/-- AES-CCM on the wrapped keys of a table, which is searched by nonce; any other value
passes through under a zero tag. -/
def decrypt (table : List WrappedKey) (key : Octets 32) (nonce : Octets 12) (buffer : Bytes)
    (tag : Octets 16) : Option Bytes :=
  match (table.find? (·.nonce = nonce)).filter
      (fun w ↦ w.ciphertext = buffer ∧ w.tag = tag ∧ w.key = key) with
  | some w => some w.container
  | none => if tag = zeros 16 then some buffer else none

def encrypt (table : List WrappedKey) (key : Octets 32) (nonce : Octets 12) (plaintext : Bytes) :
    Bytes × Octets 16 :=
  match (table.find? (·.nonce = nonce)).filter (fun w ↦ w.container = plaintext ∧ w.key = key) with
  | some w => (w.ciphertext, w.tag)
  | none => (plaintext, zeros 16)

theorem encrypt_of_mem {table : List WrappedKey} (hnonces : (table.map nonce).Nodup)
    {w : WrappedKey} (hw : w ∈ table) :
    encrypt table w.key w.nonce w.container = (w.ciphertext, w.tag) := by
  have hfind : table.find? (·.nonce = w.nonce) = some w := by
    apply find?_eq_some_of_unique hw (decide_eq_true rfl)
    intro w' hw' hnonce
    exact List.inj_on_of_nodup_map hnonces hw' hw (of_decide_eq_true hnonce)
  have hmatch : (table.find? (·.nonce = w.nonce)).filter
      (fun w' ↦ w'.container = w.container ∧ w'.key = w.key) = some w :=
    Option.filter_eq_some_iff.mpr ⟨hfind, decide_eq_true ⟨rfl, rfl⟩⟩
  rw [encrypt, hmatch]

theorem encrypt_cases (table : List WrappedKey) (key : Octets 32) (nonce : Octets 12)
    (plaintext : Bytes) :
    (∃ w, table.find? (·.nonce = nonce) = some w ∧ w.container = plaintext ∧ w.key = key ∧
      encrypt table key nonce plaintext = (w.ciphertext, w.tag)) ∨
    encrypt table key nonce plaintext = (plaintext, zeros 16) := by
  unfold encrypt
  split
  · rename_i w hw
    obtain ⟨hfind, hmatch⟩ := Option.filter_eq_some_iff.mp hw
    obtain ⟨hcontainer, hkey⟩ := of_decide_eq_true hmatch
    exact Or.inl ⟨w, hfind, hcontainer, hkey, rfl⟩
  · exact Or.inr rfl

theorem length_encrypt (table : List WrappedKey) (key : Octets 32) (nonce : Octets 12)
    (plaintext : Bytes) : (encrypt table key nonce plaintext).1.length = plaintext.length := by
  rcases encrypt_cases table key nonce plaintext with ⟨w, -, rfl, -, hwrap⟩ | hpass
  · rw [hwrap, w.length_eq]
  · rw [hpass]

theorem decrypt_encrypt (table : List WrappedKey) (key : Octets 32) (nonce : Octets 12)
    (plaintext : Bytes) :
    decrypt table key nonce (encrypt table key nonce plaintext).1
      (encrypt table key nonce plaintext).2 = some plaintext := by
  rcases encrypt_cases table key nonce plaintext with ⟨w, hfind, rfl, rfl, hwrap⟩ | hpass
  · have hmatch : (table.find? (·.nonce = nonce)).filter
        (fun w' ↦ w'.ciphertext = w.ciphertext ∧ w'.tag = w.tag ∧ w'.key = w.key) = some w :=
      Option.filter_eq_some_iff.mpr ⟨hfind, decide_eq_true ⟨rfl, rfl, rfl⟩⟩
    rw [hwrap, decrypt, hmatch]
  · have hother : (table.find? (·.nonce = nonce)).filter
        (fun w ↦ w.ciphertext = plaintext ∧ w.tag = zeros 16 ∧ w.key = key) = none := by
      apply Option.filter_eq_none_iff.mpr
      intro w _ hmatch
      exact w.tag_ne (of_decide_eq_true hmatch).2.1
    rw [hpass, decrypt, hother, if_pos rfl]

end WrappedKey

/-! ## Sample keys

The keys of the repository's synthetic volumes, with the AES-CCM and AES values
that the crates compute for them. -/

def octets {n : ℕ} (b : UInt8) : Octets n := ⟨List.replicate n b, List.length_replicate⟩

def sampleClearKey : Octets 32 := octets 0x77

def sampleFvek : Octets 16 := octets 0x11

def sampleTweak : Octets 16 := octets 0x22

def samplePassword : String := "test-pw"

def sampleWords : FixedArray UInt16 8 := ⟨List.replicate 8 10101, List.length_replicate⟩

def sampleSalt : Octets 16 := octets 0x33

/-- The crates as far as a stretched key depends on them. -/
def hashCrates : Crates :=
  Crates.standard Sha256.digest (WrappedKey.decrypt []) (WrappedKey.encrypt [])
    (fun _ ↦ Equiv.refl _) (fun _ ↦ Equiv.refl _)

def sampleVmkContainer : Bytes :=
  Bytes.ofList ((zeros 12).toList ++ (octets 0x44 : Octets 32).toList)

/-- The VMK under the clear key, which is also the external key of `.BEK` files. -/
def sampleVmk : WrappedKey where
  key := sampleClearKey
  nonce := octets 0x55
  container := sampleVmkContainer
  ciphertext := Bytes.ofList [0x82, 0x4a, 0xaf, 0x14, 0x36, 0x95, 0x97, 0x12, 0x6e, 0xa4, 0xce,
    0x0f, 0x69, 0x4b, 0x69, 0xae, 0xf7, 0x68, 0x57, 0x8d, 0xbf, 0x3a, 0x7a, 0x96, 0x95, 0xba, 0xfb,
    0xdc, 0x30, 0x03, 0xc6, 0xe0, 0xc6, 0x68, 0xbf, 0xcf, 0x89, 0xa4, 0x1a, 0xa1, 0x9b, 0x81, 0x8c,
    0xd1]
  tag := ⟨[0xb1, 0x5f, 0x58, 0x0a, 0x97, 0x80, 0xc6, 0x58, 0xe8, 0x1b, 0xf0, 0x9a, 0xca, 0x38,
    0x6b, 0xc9], rfl⟩
  length_eq := by decide +kernel
  size_le := by decide +kernel
  tag_ne := by decide

def passwordKey : Octets 32 :=
  stretched hashCrates (Sha256.digest (Sha256.digest (utf16Le samplePassword)).toList) sampleSalt

/-- The VMK under the stretched password. -/
def passwordVmk : WrappedKey where
  key := passwordKey
  nonce := octets 0x56
  container := sampleVmkContainer
  ciphertext := Bytes.ofList [0x03, 0x1f, 0x7b, 0xa9, 0xd9, 0xcb, 0x40, 0xbd, 0xd4, 0xa1, 0xb6,
    0x45, 0x21, 0x4d, 0xe5, 0xcd, 0x0b, 0x7b, 0xef, 0x46, 0x2e, 0xc2, 0xdd, 0x86, 0x9e, 0xdc, 0x4d,
    0x4a, 0xd2, 0xc9, 0x03, 0x62, 0xcc, 0xb6, 0x28, 0x32, 0x3d, 0x97, 0x87, 0x3b, 0x05, 0xb3, 0xce,
    0xc1]
  tag := ⟨[0x74, 0x1f, 0x89, 0xd4, 0x32, 0xae, 0x3e, 0xf2, 0x1d, 0x17, 0x64, 0x7f, 0x71, 0x87,
    0xa0, 0xed], rfl⟩
  length_eq := by decide +kernel
  size_le := by decide +kernel
  tag_ne := by decide

def recoveryPasswordKey : Octets 32 :=
  stretched hashCrates (Sha256.digest (recoveryKey sampleWords.toList)) sampleSalt

/-- The VMK under the stretched recovery password. -/
def recoveryVmk : WrappedKey where
  key := recoveryPasswordKey
  nonce := octets 0x57
  container := sampleVmkContainer
  ciphertext := Bytes.ofList [0x19, 0x0d, 0x0a, 0xb6, 0x9c, 0xc3, 0xd7, 0xaa, 0x4e, 0xec, 0xdb,
    0x95, 0xe3, 0x6f, 0xde, 0x37, 0x23, 0xbf, 0xf9, 0xec, 0xce, 0x6e, 0xe9, 0xeb, 0x6f, 0x40, 0x26,
    0x75, 0xdb, 0xad, 0x56, 0xa4, 0xf5, 0xe1, 0x2b, 0x65, 0xf9, 0x88, 0x30, 0xfb, 0x89, 0x74, 0x22,
    0xcc]
  tag := ⟨[0x07, 0x71, 0xec, 0x54, 0x00, 0xe2, 0x89, 0x22, 0x30, 0x3e, 0xd6, 0xae, 0x78, 0x27,
    0x2f, 0xef], rfl⟩
  length_eq := by decide +kernel
  size_le := by decide +kernel
  tag_ne := by decide

/-- The FVEK of AES-CBC-128 under the VMK. -/
def cbcFvek : WrappedKey where
  key := octets 0x44
  nonce := octets 0x66
  container := Bytes.ofList ((zeros 12).toList ++ sampleFvek.toList)
  ciphertext := Bytes.ofList [0x75, 0x2b, 0xa0, 0x68, 0x7c, 0x43, 0xe8, 0x82, 0x1d, 0x31, 0x0a,
    0x11, 0x63, 0x5c, 0x7d, 0x1e, 0xe6, 0x5f, 0x39, 0x8e, 0xb8, 0xfd, 0x51, 0x0f, 0x77, 0x98, 0x05,
    0x10]
  tag := ⟨[0xd2, 0xec, 0xff, 0x40, 0x2b, 0xc4, 0x91, 0x8e, 0x1a, 0xd9, 0x6d, 0xf1, 0x8a, 0x41,
    0x8d, 0x6d], rfl⟩
  length_eq := by decide +kernel
  size_le := by decide +kernel
  tag_ne := by decide

/-- The two keys of XTS-AES-128 under the VMK. -/
def xtsFvek : WrappedKey where
  key := octets 0x44
  nonce := octets 0x67
  container := Bytes.ofList ((zeros 12).toList ++ (sampleFvek.toList ++ sampleTweak.toList))
  ciphertext := Bytes.ofList [0xe7, 0x88, 0xda, 0xb1, 0x4c, 0xec, 0x44, 0xc3, 0x8e, 0xb0, 0x20,
    0x63, 0xd5, 0x71, 0xf7, 0xfa, 0xd3, 0xae, 0xbf, 0x49, 0xac, 0x13, 0x0e, 0xcc, 0x30, 0x27, 0x0c,
    0xa3, 0x43, 0x65, 0x8a, 0x2f, 0x76, 0x15, 0x85, 0x29, 0x25, 0x38, 0x62, 0xde, 0xcd, 0xaa, 0x38,
    0xc1]
  tag := ⟨[0x7e, 0xa7, 0xad, 0xbd, 0x99, 0xd4, 0x71, 0x02, 0xb2, 0x29, 0xbe, 0xaa, 0x6b, 0x7e,
    0xa7, 0xe1], rfl⟩
  length_eq := by decide +kernel
  size_le := by decide +kernel
  tag_ne := by decide

def sampleKeys : List WrappedKey := [sampleVmk, passwordVmk, recoveryVmk, cbcFvek, xtsFvek]

/-- The block that AES-128 under the FVEK maps to zero. -/
def sampleZeroPreimage : Octets 16 :=
  ⟨[0x5e, 0x74, 0x9c, 0x2d, 0x64, 0xe5, 0xef, 0x78, 0x27, 0x93, 0x37, 0x67, 0x02, 0x23, 0xfc,
    0x08], rfl⟩

/-- AES-128 under the FVEK on the byte offset 1024. -/
def sampleIv : Octets 16 :=
  ⟨[0x09, 0xae, 0xad, 0x80, 0xec, 0x9e, 0xbd, 0x15, 0xa7, 0x56, 0x0c, 0x32, 0x74, 0x2b, 0x89,
    0x16], rfl⟩

/-- AES-128 under the FVEK on the byte offset 1536. -/
def keyringIv : Octets 16 :=
  ⟨[0x82, 0x4d, 0x1f, 0x23, 0x6f, 0x3b, 0x7f, 0xdb, 0x56, 0xf8, 0x8e, 0x06, 0xdf, 0x41, 0xdd,
    0x20], rfl⟩

/-- AES-128 under the tweak key on the sector number 3. -/
def keyringTweak : Octets 16 :=
  ⟨[0x4f, 0x61, 0x33, 0x18, 0xda, 0xbf, 0xee, 0xf9, 0xfc, 0x53, 0x1b, 0xec, 0x2d, 0x53, 0x24,
    0xae], rfl⟩

def sampleAes (key : Octets 16) : Equiv.Perm (Octets 16) :=
  if key = sampleFvek then
    (Equiv.swap (SectorCipher.le128 1024) sampleIv).trans
      ((Equiv.swap (SectorCipher.le128 1536) keyringIv).trans
        (Equiv.swap sampleZeroPreimage (zeros 16)))
  else if key = sampleTweak then Equiv.swap (SectorCipher.le128 3) keyringTweak
  else Equiv.refl _

def sampleCrates : Crates :=
  Crates.standard Sha256.digest (WrappedKey.decrypt sampleKeys) (WrappedKey.encrypt sampleKeys)
    sampleAes (fun _ ↦ Equiv.refl _)

def sampleInverses : CipherInverses sampleCrates := Crates.standardInverses _ _ _ _ _

theorem sampleCcmLaws : CcmLaws sampleCrates where
  length_encrypt := WrappedKey.length_encrypt sampleKeys
  decrypt_encrypt key nonce plaintext _ := WrappedKey.decrypt_encrypt sampleKeys key nonce plaintext

theorem wrapsKey_sampleKeys (w : WrappedKey) (hw : w ∈ sampleKeys) :
    WrapsKey sampleCrates w.key w.container w.blob := by
  have hnonces : (sampleKeys.map WrappedKey.nonce).Nodup := by decide +kernel
  have hwrap : sampleCrates.ccmEncrypt w.key w.nonce w.container = (w.ciphertext, w.tag) :=
    WrappedKey.encrypt_of_mem hnonces hw
  refine ⟨w.nonce, ?_⟩
  rw [aesCcmWrap, hwrap, w.blob_toList]

/-! ## The sample keys open the VMK -/

theorem stretchRounds_congr {P Q : Crates} (h : P.sha256 = Q.sha256) (hash : Octets 32)
    (salt : Octets 16) (count i : ℕ) (last : Octets 32) :
    stretchRounds P hash salt count i last = stretchRounds Q hash salt count i last := by
  induction count generalizing i last with
  | zero => rfl
  | succ count ih => rw [stretchRounds, stretchRounds, h, ih]

theorem stretched_congr {P Q : Crates} (h : P.sha256 = Q.sha256) (hash : Octets 32)
    (salt : Octets 16) : stretched P hash salt = stretched Q hash salt := by
  rw [stretched, stretched, stretchRounds_congr h]

/-- The stretched keys of the table are those that its crates compute. -/
theorem stretchKey_sampleCrates (hash : Octets 32) (salt : Octets 16) :
    stretchKey sampleCrates hash salt = .ok (stretched hashCrates hash salt) := by
  rw [stretchKey_eq, stretched_congr (show sampleCrates.sha256 = hashCrates.sha256 from rfl)]

theorem holds_sampleVmkContainer : Holds sampleVmkContainer 12 (octets 0x44 : Octets 32) :=
  ⟨(zeros 12).toList, [], (zeros 12).length_eq, by decide +kernel⟩

theorem sampleProtects :
    Protects sampleCrates .clearKey (octets 0x44) (clearKeyVmk sampleClearKey sampleVmk.blob) :=
  protects_clearKeyVmk sampleVmk.encodable_blob
    (wrapsKey_sampleKeys sampleVmk (by simp [sampleKeys])) holds_sampleVmkContainer

theorem startupProtects (header : Octets 48) :
    Protects sampleCrates (.startupKey (bekFile header sampleClearKey)) (octets 0x44)
      (startupVmk sampleVmk.blob) :=
  protects_startupVmk header sampleVmk.encodable_blob
    (wrapsKey_sampleKeys sampleVmk (by simp [sampleKeys])) holds_sampleVmkContainer

theorem passwordProtects :
    Protects sampleCrates (.password samplePassword) (octets 0x44)
      (stretchVmk protectionPassword sampleSalt passwordVmk.blob) := by
  have hkey : passwordKey = passwordVmk.key := by rw [passwordVmk]
  have hsource : KeySource sampleCrates [stretchProperty sampleSalt, ccmProperty passwordVmk.blob]
      (.password samplePassword) passwordKey :=
    .password rfl (holds_stretchProperty sampleSalt) (stretchKey_sampleCrates _ sampleSalt)
  rw [hkey] at hsource
  exact protects_stretchVmk passwordVmk.encodable_blob hsource
    (wrapsKey_sampleKeys passwordVmk (by simp [sampleKeys])) holds_sampleVmkContainer

theorem recoveryProtects :
    Protects sampleCrates (.recoveryPassword (recoveryText sampleWords)) (octets 0x44)
      (stretchVmk protectionRecovery sampleSalt recoveryVmk.blob) := by
  have hkey : recoveryPasswordKey = recoveryVmk.key := by rw [recoveryVmk]
  have hsource : KeySource sampleCrates [stretchProperty sampleSalt, ccmProperty recoveryVmk.blob]
      (.recoveryPassword (recoveryText sampleWords)) recoveryPasswordKey :=
    .recovery rfl (holds_stretchProperty sampleSalt) (stretchKey_sampleCrates _ sampleSalt)
  rw [hkey] at hsource
  exact protects_stretchVmk recoveryVmk.encodable_blob hsource
    (wrapsKey_sampleKeys recoveryVmk (by simp [sampleKeys])) holds_sampleVmkContainer

end Bitlocker
