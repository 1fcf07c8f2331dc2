import BitlockerForensic.Core.ClearKey

/-!
# Volumes with a protector of every kind

A synthetic volume whose VMK is stored beside a clear key, under a startup key, under a
password and under a recovery password, and whose first sector is relocated past the
metadata.  Each of the four credentials opens it, whatever the method of its volume key.
-/

namespace Bitlocker

open RustStd

def keyring : List MetadataEntry :=
  [clearKeyVmk sampleClearKey sampleVmk.blob, startupVmk sampleVmk.blob,
    stretchVmk protectionPassword sampleSalt passwordVmk.blob,
    stretchVmk protectionRecovery sampleSalt recoveryVmk.blob]

/-- The credentials of the keyring, each with its protector. -/
inductive InKeyring : Credential → MetadataEntry → Prop where
  | clear : InKeyring .clearKey (clearKeyVmk sampleClearKey sampleVmk.blob)
  | startup (header : Octets 48) :
      InKeyring (.startupKey (bekFile header sampleClearKey)) (startupVmk sampleVmk.blob)
  | password : InKeyring (.password samplePassword)
      (stretchVmk protectionPassword sampleSalt passwordVmk.blob)
  | recovery : InKeyring (.recoveryPassword (recoveryText sampleWords))
      (stretchVmk protectionRecovery sampleSalt recoveryVmk.blob)

theorem encodable_keyring : ∀ e ∈ keyring, e.Encodable := by
  decide +kernel

theorem length_keyring : (MetadataEntry.encodeAll keyring).length = 564 := by
  decide +kernel

namespace InKeyring

variable {cred : Credential} {e : MetadataEntry}

theorem protects (h : InKeyring cred e) : Protects sampleCrates cred (octets 0x44) e := by
  cases h with
  | clear => exact sampleProtects
  | startup header => exact startupProtects header
  | password => exact passwordProtects
  | recovery => exact recoveryProtects

theorem mem_keyring (h : InKeyring cred e) : e ∈ keyring := by
  cases h <;> simp [keyring]

theorem only (h : InKeyring cred e) :
    ∀ e' ∈ keyring, e'.typeField = cred.protectorType → e' = e := by
  have hsame : ∀ e₁ ∈ keyring, ∀ e₂ ∈ keyring, e₁.typeField = e₂.typeField → e₁ = e₂ := by
    decide +kernel
  obtain ⟨props, -, -, -, hlayout, -⟩ := h.protects
  intro e' he' htype
  exact hsame e' he' e h.mem_keyring (htype.trans hlayout.typeField_eq.symm)

end InKeyring

/-! ## The volumes -/

/-- A volume key of the sample keys, wrapped under the sample VMK. -/
structure SampleVolumeKey where
  material : KeyMaterial
  fvek : WrappedKey
  mem : fvek ∈ sampleKeys
  key_eq : fvek.key = octets 0x44
  held : material.HeldBy fvek.container

theorem SampleVolumeKey.length_blob (k : SampleVolumeKey) : k.fvek.blob.length ≤ 72 := by
  have hall : ∀ w ∈ sampleKeys, w.blob.length ≤ 72 := by decide +kernel
  exact hall k.fvek k.mem

def cbcVolumeKey : SampleVolumeKey where
  material := .cbc128 sampleFvek
  fvek := cbcFvek
  mem := by simp [sampleKeys]
  key_eq := rfl
  held := holds_cbcFvek

def xtsVolumeKey : SampleVolumeKey where
  material := .xts128 sampleFvek sampleTweak
  fvek := xtsFvek
  mem := by simp [sampleKeys]
  key_eq := rfl
  held :=
    ⟨⟨(zeros 12).toList, sampleTweak.toList, (zeros 12).length_eq, by decide +kernel⟩,
      (zeros 12).toList ++ sampleFvek.toList, [], by decide +kernel, by decide +kernel⟩

namespace SampleVolumeKey

variable (k : SampleVolumeKey)

def entries : List MetadataEntry := keyring ++ [fvekOf k.fvek.blob]

theorem length_entries :
    (MetadataEntry.encodeAll k.entries).length = 572 + k.fvek.blob.length := by
  have hsplit : MetadataEntry.encodeAll k.entries =
      MetadataEntry.encodeAll keyring ++ (fvekOf k.fvek.blob).encode := by
    rw [entries, MetadataEntry.encodeAll, List.flatMap_append, List.flatMap_singleton]
    rfl
  have hfvek : (fvekOf k.fvek.blob).size = 8 + k.fvek.blob.length := rfl
  rw [hsplit, List.length_append, length_keyring, MetadataEntry.length_encode, hfvek]
  omega

def block : BlockLayout :=
  { sampleBlock 1 1536 with
    encryptionMethod := k.material.kind.method
    entries := k.entries
    encodable := by
      intro e he
      rcases List.mem_append.mp he with hkeys | hfvek
      · exact encodable_keyring e hkeys
      · cases List.mem_singleton.mp hfvek
        exact k.fvek.encodable_blob
    size_lt := by
      have hblob := k.length_blob
      rw [k.length_entries]
      omega }

theorem metadataSize_block : k.block.metadataSize = 620 + k.fvek.blob.length := by
  rw [BlockLayout.metadataSize, block, k.length_entries]
  omega

/-- The keyring, the volume key and one stored sector at byte 1536. -/
def image (sector : List UInt8) : Image :=
  toGoImage k.block (Bytes.ofList
    (List.replicate (960 - k.block.metadataSize) 0 ++ sector))

theorem volume (tail : Bytes) :
    EncodedVolume sampleCrates (toGoImage k.block tail) 512 k.block (octets 0x44) k.material := by
  have hwraps := wrapsKey_sampleKeys k.fvek k.mem
  rw [k.key_eq] at hwraps
  refine ⟨located_toGoImage k.block tail, ?_, rfl, fvekOf k.fvek.blob,
    List.mem_append_right keyring (List.mem_singleton.mpr rfl), ⟨rfl, rfl⟩, ?_,
    k.fvek.container, hwraps, k.held⟩
  · have hblob := k.length_blob
    rw [BlockLayout.length_encode, k.metadataSize_block, metadataReadLen]
    omega
  · intro e he hfvek
    have hkeys : ∀ e ∈ keyring, ¬ e.IsFvek := by decide +kernel
    rcases List.mem_append.mp he with hkey | hlast
    · exact absurd hfvek (hkeys e hkey)
    · exact List.mem_singleton.mp hlast

variable {k}

theorem mem_block {cred : Credential} {e : MetadataEntry} (h : InKeyring cred e) :
    e ∈ k.block.entries :=
  List.mem_append_left _ h.mem_keyring

theorem only_block {cred : Credential} {e : MetadataEntry} (h : InKeyring cred e) :
    ∀ e' ∈ k.block.entries, e'.isVmk = true → e'.typeField = cred.protectorType → e' = e := by
  intro e' he' hisVmk htype
  rcases List.mem_append.mp he' with hkeys | hfvek
  · exact h.only e' hkeys htype
  · cases List.mem_singleton.mp hfvek
    cases hisVmk

theorem vmkFor_block {cred : Credential} {e : MetadataEntry} (h : InKeyring cred e) :
    vmkFor (k.block.metadata 512) cred.protectorType = some e :=
  h.protects.vmkFor_eq (mem_block h) (only_block h) 512

/-- Each credential of the keyring opens the volume. -/
theorem unlocks {cred : Credential} {e : MetadataEntry} (h : InKeyring cred e) (p : Profile)
    {tail : Bytes} {r : Reader} (hfree : r.ErrorFree) (himage : r.image = toGoImage k.block tail) :
    ∃ v, cred.unlock sampleCrates p r = .ok v ∧ Reader.Later r v.reader ∧
      v.cipher = k.material.cipher sampleCrates ∧ v.metadata = k.block.metadata 512 ∧
      v.totalSize.toNat = r.image.length := by
  have hvolume := k.volume tail
  rw [← himage] at hvolume
  exact unlock_of_layout sampleCcmLaws hfree hvolume (mem_block h) h.protects (only_block h)

end SampleVolumeKey

/-! ## Two images -/

def cbcImage : Image := cbcVolumeKey.image (List.replicate 512 0)

theorem cbcVolume :
    EncodedVolume sampleCrates cbcImage 512 cbcVolumeKey.block (octets 0x44)
      cbcVolumeKey.material :=
  cbcVolumeKey.volume _

def xtsImage : Image :=
  xtsVolumeKey.image
    ((List.range 32).flatMap fun i ↦ (BlockModes.gfDouble^[i] keyringTweak).toList)

theorem xtsVolume :
    EncodedVolume sampleCrates xtsImage 512 xtsVolumeKey.block (octets 0x44)
      xtsVolumeKey.material :=
  xtsVolumeKey.volume _

end Bitlocker
