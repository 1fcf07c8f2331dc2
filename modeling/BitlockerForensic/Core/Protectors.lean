import BitlockerForensic.Core.ClearKey

/-!
# Which protector decides an unlock

A volume may carry several protectors of one type.  `derive_cipher` commits to
the first of them, so a correct credential opens the volume exactly when that
first entry is the one it belongs to.
-/

namespace Bitlocker

open RustStd

variable (P : Crates)

/-- A VMK entry of the credential's type that the credential unwraps, and whose
VMK opens a long enough FVEK container. -/
def Matches (md : FveMetadata) (kind : SectorCipherKind) (cred : Credential)
    (unwrap : VmkUnwrap) (e : MetadataEntry) : Prop :=
  e ∈ md.vmkEntries ∧ e.protectionType = .ok (some cred.protectorType) ∧
    Usable P md kind unwrap e

theorem vmkFor_eq_some {md : FveMetadata} {protectorType : UInt16} {e : MetadataEntry}
    (h : vmkFor md protectorType = some e) :
    e ∈ md.vmkEntries ∧ e.protectionType = .ok (some protectorType) := by
  have hmem : e ∈ md.vmkEntries := List.mem_of_find?_eq_some h
  have htype : e.typeField = protectorType := by simpa using List.find?_some h
  refine ⟨hmem, ?_⟩
  rw [MetadataEntry.protectionType_eq, if_pos (FveMetadata.mem_vmkEntries.mp hmem).2, htype]

theorem Credential.exists_unlock_eq_ok {p : Profile} {cred : Credential} {unwrap : VmkUnwrap}
    {r : Reader} {md : FveMetadata} {kind : SectorCipherKind} (hfree : r.ErrorFree)
    (hmd : metadataIn r.image = .ok md) (hkind : gatedKind md.encryptionMethod = some kind)
    (hcred : cred.unwrap P p = .ok unwrap) :
    (∃ v, cred.unlock P p r = .ok v) ↔
      ∃ e, vmkFor md cred.protectorType = some e ∧ Usable P md kind unwrap e := by
  rw [Credential.unlock_eq, hcred, ok_bind, Bitlocker.exists_unlock_eq_ok P hfree]
  constructor
  · rintro ⟨md', kind', e, hmd', hkind', he, husable⟩
    rw [hmd] at hmd'
    cases hmd'
    rw [hkind] at hkind'
    cases hkind'
    exact ⟨e, he, husable⟩
  · rintro ⟨e, he, husable⟩
    exact ⟨md, kind, e, hmd, hkind, he, husable⟩

/-- A matching protector anywhere in the metadata opens the volume exactly when
none matches, or the first entry of the credential's type does. -/
theorem matching_protector_opens_iff {p : Profile} {cred : Credential} {unwrap : VmkUnwrap}
    {r : Reader} {md : FveMetadata} {kind : SectorCipherKind} (hfree : r.ErrorFree)
    (hmd : metadataIn r.image = .ok md) (hkind : gatedKind md.encryptionMethod = some kind)
    (hcred : cred.unwrap P p = .ok unwrap) :
    ((∃ e, Matches P md kind cred unwrap e) → ∃ v, cred.unlock P p r = .ok v) ↔
      (∀ e, ¬ Matches P md kind cred unwrap e) ∨
        ∃ first, md.vmkEntries.find? (fun e ↦ e.typeField = cred.protectorType) = some first ∧
          Matches P md kind cred unwrap first := by
  rw [Credential.exists_unlock_eq_ok P hfree hmd hkind hcred]
  constructor
  · intro hopens
    by_cases hany : ∃ e, Matches P md kind cred unwrap e
    · obtain ⟨first, hfirst, husable⟩ := hopens hany
      obtain ⟨hmem, htype⟩ := vmkFor_eq_some hfirst
      exact Or.inr ⟨first, hfirst, hmem, htype, husable⟩
    · exact Or.inl (not_exists.mp hany)
  · rintro (hnone | ⟨first, hfirst, -, -, husable⟩) hany
    · exact absurd hany (not_exists.mpr hnone)
    · exact ⟨first, hfirst, husable⟩

theorem matching_protector_opens_sample :
    (∃ e, Matches sampleCrates ((sampleBlock 0 0).metadata 512) .cbc128 .clearKey .clear e) ∧
      ∃ v, Credential.clearKey.unlock sampleCrates .release
        (Reader.ofImage (sampleImage 0 0)) = .ok v := by
  have hfree := Reader.errorFree_ofImage (sampleImage 0 0)
  have hmd := metadataIn_sampleImage 0 0
  obtain ⟨first, hfirst, husable⟩ := (Credential.exists_unlock_eq_ok sampleCrates hfree hmd
    (gatedKind_method .cbc128) rfl).mp (sampleImage_unlocks .release 0 0 hfree rfl)
  obtain ⟨hmem, htype⟩ := vmkFor_eq_some hfirst
  have hmatch : Matches sampleCrates ((sampleBlock 0 0).metadata 512) .cbc128 .clearKey .clear
      first := ⟨hmem, htype, husable⟩
  exact ⟨⟨first, hmatch⟩, (matching_protector_opens_iff sampleCrates hfree hmd
    (gatedKind_method .cbc128) rfl).mpr (Or.inr ⟨first, hfirst, hmatch⟩) ⟨first, hmatch⟩⟩

/-! ## Two startup keys

A volume with two startup-key protectors, wrapping the same VMK under different
external keys. -/

/-- The VMK wrapped under the other external key, 32 bytes of `0x99`. -/
def otherVmkBlob : Bytes :=
  Bytes.ofList ((octets 0x55 : Octets 12).toList ++
    [0x30, 0xf8, 0xa8, 0xa5, 0x7b, 0xe7, 0x75, 0xfd, 0x92, 0x9b, 0xb4, 0x4c, 0x82, 0xe7, 0x23,
      0xc8] ++
    [0x48, 0xcf, 0xcb, 0x29, 0xda, 0xb4, 0x41, 0x26, 0x13, 0xdd, 0x78, 0xc1, 0xb8, 0x90, 0xbb,
      0x58, 0x2b, 0xee, 0x3f, 0x1d, 0x83, 0x38, 0xc7, 0xe1, 0x69, 0x5d, 0x8d, 0x0e, 0xf6, 0x2e,
      0x34, 0x04, 0x90, 0x42, 0xd3, 0xa4, 0x93, 0x81, 0x95, 0x67, 0x1e, 0x2f, 0x42, 0x1a])

def twoStartupEntries : List MetadataEntry :=
  [startupVmk otherVmkBlob, startupVmk sampleVmk.blob, fvekOf cbcFvek.blob]

theorem length_twoStartupEntries :
    (MetadataEntry.encodeAll twoStartupEntries).length = 296 := by
  decide +kernel

def twoStartupBlock : BlockLayout :=
  { sampleBlock 0 0 with
    entries := twoStartupEntries
    encodable := by decide +kernel
    size_lt := by
      rw [length_twoStartupEntries]
      decide }

def twoStartupImage : Image := toGoImage twoStartupBlock Bytes.empty

def secondBek : Bytes := bekFile (zeros 48) sampleClearKey

theorem metadataIn_twoStartupImage :
    metadataIn twoStartupImage = .ok (twoStartupBlock.metadata 512) := by
  have hsize : twoStartupBlock.metadataSize = 48 + 296 :=
    congrArg (48 + ·) length_twoStartupEntries
  apply metadataIn_toGoImage
  rw [BlockLayout.length_encode, hsize]
  decide

theorem unwrap_secondBek :
    (Credential.startupKey secondBek).unwrap sampleCrates .release =
      .ok (.external sampleClearKey) := by
  decide +kernel

theorem matches_second :
    Matches sampleCrates (twoStartupBlock.metadata 512) .cbc128 (.startupKey secondBek)
      (.external sampleClearKey) (startupVmk sampleVmk.blob) := by
  have hmem : startupVmk sampleVmk.blob ∈ twoStartupEntries.filter MetadataEntry.isVmk := by
    decide +kernel
  have htype : (startupVmk sampleVmk.blob).protectionType = .ok (some protectionStartupKey) := by
    decide +kernel
  have hvmk : vmkOf sampleCrates (startupVmk sampleVmk.blob) (.external sampleClearKey) =
      .ok (arrayAt 32 sampleVmkContainer 12) := by
    decide +kernel
  have hfvek : twoStartupEntries.find?
      (fun e ↦ e.entryType = entryTypeFvek ∧ e.valueType = valueTypeAesCcm) =
        some (fvekOf cbcFvek.blob) := by
    decide +kernel
  have hcontainer : fvekContainer sampleCrates (twoStartupBlock.metadata 512)
      (arrayAt 32 sampleVmkContainer 12) = .ok cbcFvek.container :=
    (fvekContainer_eq_ok sampleCrates).mpr ⟨_, hfvek, by decide +kernel⟩
  exact ⟨hmem, htype, _, _, hvmk, hcontainer, by decide +kernel⟩

/-- The second protector matches its `.BEK`, yet the unlock reports that the
key is wrong: it only tried the first. -/
theorem second_startup_key_rejected :
    metadataIn (Reader.ofImage twoStartupImage).image = .ok (twoStartupBlock.metadata 512) ∧
      gatedKind (twoStartupBlock.metadata 512).encryptionMethod = some .cbc128 ∧
      Matches sampleCrates (twoStartupBlock.metadata 512) .cbc128 (.startupKey secondBek)
        (.external sampleClearKey) (startupVmk sampleVmk.blob) ∧
      (Credential.startupKey secondBek).unlock sampleCrates .release
          (Reader.ofImage twoStartupImage) =
        .error (.err (.authenticationFailed "volume master key")) := by
  have hkind : gatedKind (twoStartupBlock.metadata 512).encryptionMethod = some .cbc128 :=
    gatedKind_method .cbc128
  refine ⟨metadataIn_twoStartupImage, hkind, matches_second, ?_⟩
  have hfirst : vmkFor (twoStartupBlock.metadata 512) protectionStartupKey =
      some (startupVmk otherVmkBlob) := by
    have hfind : (twoStartupEntries.filter MetadataEntry.isVmk).find?
        (fun e ↦ e.typeField = protectionStartupKey) = some (startupVmk otherVmkBlob) := by
      decide +kernel
    exact hfind
  have hvmk : vmkOf sampleCrates (startupVmk otherVmkBlob) (.external sampleClearKey) =
      .error (.err (.authenticationFailed "volume master key")) := by
    decide +kernel
  obtain ⟨r', -, hunlock⟩ := unlock_of_errorFree sampleCrates .release protectionStartupKey
    "startup key" (.external sampleClearKey) (Reader.errorFree_ofImage twoStartupImage)
  rw [Credential.unlock_eq, unwrap_secondBek, ok_bind]
  rw [show (Credential.startupKey secondBek).protectorType = protectionStartupKey from rfl,
    show (Credential.startupKey secondBek).protectorName = "startup key" from rfl, hunlock,
    unlockIn, Reader.ofImage_image, metadataIn_twoStartupImage, ok_bind, gate_eq_ok.mpr hkind,
    ok_bind, deriveCipher_eq, hfirst, okOr_some, ok_bind, hvmk]
  rfl

end Bitlocker
