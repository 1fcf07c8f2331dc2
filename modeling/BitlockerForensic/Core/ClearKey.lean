import BitlockerForensic.Core.Synthetic

/-!
# Volumes that carry a clear key

The smallest volume that opens: a To Go header, one block, a VMK wrapped under
a key stored beside it, and the FVEK wrapped under the VMK.  Such a volume opens
without a credential, so it is what a hostile image can always be.
-/

namespace Bitlocker

open RustStd

/-! ## To Go images -/

def toGoHeader (offset : UInt64) : List UInt8 :=
  bootWin7 ++ (sigToGo ++ (leBytes 2 512 ++ (List.replicate 427 0 ++
    (leBytes 8 offset.toNat ++ List.replicate 64 0))))

@[simp] theorem length_toGoHeader (offset : UInt64) : (toGoHeader offset).length = 512 := by
  simp only [toGoHeader, List.length_append, length_leBytes, List.length_replicate]
  decide

theorem toGoImage_fits (b : BlockLayout) (tail : Bytes) :
    (toGoHeader 512 ++ (b.encode ++ tail.toList)).length < 2 ^ 64 := by
  have hblock := b.size_lt
  have htail := tail.fits
  rw [List.length_append, length_toGoHeader, List.length_append, b.length_encode,
    BlockLayout.metadataSize]
  omega

def toGoImage (b : BlockLayout) (tail : Bytes) : Image where
  bytes := toGoHeader 512 ++ (b.encode ++ tail.toList)
  fits := toGoImage_fits b tail

theorem length_toGoImage (b : BlockLayout) (tail : Bytes) :
    (toGoImage b tail).length = 576 + b.metadataSize + tail.length := by
  rw [Image.length, toGoImage, List.length_append, length_toGoHeader, List.length_append,
    b.length_encode, Bytes.length]
  omega

theorem headerLayout_toGoImage (b : BlockLayout) (tail : Bytes) :
    HeaderLayout (toGoImage b tail) 512 ⟨[512, 0, 0], rfl⟩ := by
  have hfield : ∀ off w, off + w ≤ 512 →
      leAt (toGoImage b tail).bytes off w = leAt (toGoHeader 512) off w := by
    intro off w hoff
    have hhead : (toGoImage b tail).bytes.take 512 = toGoHeader 512 :=
      List.take_left' (length_toGoHeader 512)
    rw [← leAt_take hoff (by rw [← Image.length, length_toGoImage]; omega), hhead]
  refine ⟨by rw [length_toGoImage, sectorSize]; omega, ?_, Or.inl ⟨?_, ?_⟩⟩
  · rw [sectorBytes, hfield 11 2 (by omega)]
    decide +kernel
  · rw [toGoImage, List.take_append_of_le_length (by simp)]
    decide +kernel
  · have hvalue : offsetsAt (toGoHeader 512) 440 = ⟨[512, 0, 0], rfl⟩ := by decide +kernel
    rw [← hvalue]
    simp only [offsetsAt, hfield 440 8 (by omega), hfield 448 8 (by omega),
      hfield 456 8 (by omega)]

theorem encode_toGoImage (b : BlockLayout) (tail : Bytes) :
    b.encode <+: (toGoImage b tail).bytes.drop (512 : UInt64).toNat :=
  ⟨tail.toList, (List.drop_left' (length_toGoHeader 512)).symm⟩

theorem located_toGoImage (b : BlockLayout) (tail : Bytes) :
    ∃ offsets offset, HeaderLayout (toGoImage b tail) 512 offsets ∧
      (offsets.toList.filter (· ≠ 0)).head? = some offset ∧
      b.encode <+: (toGoImage b tail).bytes.drop offset.toNat :=
  ⟨_, 512, headerLayout_toGoImage b tail, by decide, encode_toGoImage b tail⟩

theorem metadataIn_toGoImage (b : BlockLayout) (tail : Bytes)
    (hsize : b.encode.length ≤ metadataReadLen) :
    metadataIn (toGoImage b tail) = .ok (b.metadata 512) :=
  metadataIn_of_layout (headerLayout_toGoImage b tail) (by decide) (encode_toGoImage b tail) hsize

/-! ## One such volume -/

def sampleEntries : List MetadataEntry :=
  [clearKeyVmk sampleClearKey sampleVmk.blob, fvekOf cbcFvek.blob]

theorem encodable_sampleEntries : ∀ e ∈ sampleEntries, e.Encodable := by
  decide +kernel

theorem length_sampleEntries : (MetadataEntry.encodeAll sampleEntries).length = 224 := by
  decide +kernel

def sampleBlock (sectors : UInt32) (headerOffset : UInt64) : BlockLayout where
  encryptedVolumeSize := 0
  volumeHeaderSectors := sectors
  metadataOffsets := (512, 0, 0)
  volumeHeaderOffset := headerOffset
  volumeGuid := zeros 16
  encryptionMethod := 0x8002
  creationTime := 0
  entries := sampleEntries
  skipped8 := zeros 8
  skipped24 := zeros 4
  skipped68 := zeros 12
  skipped96 := zeros 4
  skipped102 := zeros 2
  encodable := encodable_sampleEntries
  size_lt := by
    rw [length_sampleEntries]
    decide

def sampleImage (sectors : UInt32) (headerOffset : UInt64) : Image :=
  toGoImage (sampleBlock sectors headerOffset) (Bytes.ofList (List.replicate 688 0))

theorem length_sampleImage (sectors : UInt32) (headerOffset : UInt64) :
    (sampleImage sectors headerOffset).length = 1536 := by
  have hsize : (sampleBlock sectors headerOffset).metadataSize = 48 + 224 :=
    congrArg (48 + ·) length_sampleEntries
  have htail : (Bytes.ofList (List.replicate 688 0)).length = 688 := by
    rw [Bytes.length, Bytes.ofList_toList (by rw [List.length_replicate]; decide),
      List.length_replicate]
  rw [sampleImage, length_toGoImage, hsize, htail]

/-! ## Its keys open -/

/-- The block carries the sample keys, and no key entry besides them. -/
structure CarriesSampleKeys (b : BlockLayout) : Prop where
  entries : ∃ extra, b.entries = sampleEntries ++ extra ∧
    ∀ e ∈ extra, ¬ e.IsFvek ∧ e.isVmk = false
  method : b.encryptionMethod = 0x8002
  size_le : b.encode.length ≤ metadataReadLen

theorem wrapsKey_cbcFvek :
    WrapsKey sampleCrates (octets 0x44) cbcFvek.container (fvekOf cbcFvek.blob).data :=
  wrapsKey_sampleKeys cbcFvek (by simp [sampleKeys])

theorem holds_cbcFvek : Holds cbcFvek.container 12 sampleFvek :=
  ⟨(zeros 12).toList, [], (zeros 12).length_eq, by decide +kernel⟩

theorem CarriesSampleKeys.volume {b : BlockLayout} (h : CarriesSampleKeys b) (tail : Bytes) :
    EncodedVolume sampleCrates (toGoImage b tail) 512 b (octets 0x44) (.cbc128 sampleFvek) := by
  obtain ⟨extra, hentries, hextra⟩ := h.entries
  refine ⟨located_toGoImage b tail, h.size_le, h.method, fvekOf cbcFvek.blob, ?_,
    by decide +kernel, ?_, _, wrapsKey_cbcFvek, holds_cbcFvek⟩
  · rw [hentries]
    exact List.mem_append_left extra (List.mem_cons_of_mem _ List.mem_cons_self)
  · intro e he hfvek
    have hsample : ∀ e' ∈ sampleEntries, e'.IsFvek → e' = fvekOf cbcFvek.blob := by
      decide +kernel
    rw [hentries] at he
    rcases List.mem_append.mp he with hkeys | hother
    · exact hsample e hkeys hfvek
    · exact absurd hfvek (hextra e hother).1

theorem carriesSampleKeys_sampleBlock (sectors : UInt32) (headerOffset : UInt64) :
    CarriesSampleKeys (sampleBlock sectors headerOffset) where
  entries := ⟨[], (List.append_nil _).symm, fun _ he ↦ absurd he List.not_mem_nil⟩
  method := rfl
  size_le := by
    have hsize : (sampleBlock sectors headerOffset).metadataSize = 48 + 224 :=
      congrArg (48 + ·) length_sampleEntries
    rw [BlockLayout.length_encode, hsize]
    decide

theorem sampleVolume (sectors : UInt32) (headerOffset : UInt64) (tail : Bytes) :
    EncodedVolume sampleCrates (toGoImage (sampleBlock sectors headerOffset) tail) 512
      (sampleBlock sectors headerOffset) (octets 0x44) (.cbc128 sampleFvek) :=
  (carriesSampleKeys_sampleBlock sectors headerOffset).volume tail

theorem metadataIn_sampleImage (sectors : UInt32) (headerOffset : UInt64) :
    metadataIn (sampleImage sectors headerOffset) =
      .ok ((sampleBlock sectors headerOffset).metadata 512) :=
  (sampleVolume sectors headerOffset _).metadataIn_eq

theorem sampleOnly : ∀ e ∈ sampleEntries, e.isVmk = true →
    e.typeField = Credential.clearKey.protectorType →
      e = clearKeyVmk sampleClearKey sampleVmk.blob := by
  decide +kernel

theorem CarriesSampleKeys.unlocks {b : BlockLayout} (h : CarriesSampleKeys b) (p : Profile)
    {tail : Bytes} {r : Reader} (hfree : r.ErrorFree) (himage : r.image = toGoImage b tail) :
    ∃ v, Credential.clearKey.unlock sampleCrates p r = .ok v ∧ Reader.Later r v.reader ∧
      v.cipher = SectorCipher.newCbc sampleFvek ∧ v.metadata = b.metadata 512 ∧
      v.totalSize.toNat = r.image.length := by
  have hvolume := h.volume tail
  rw [← himage] at hvolume
  obtain ⟨extra, hentries, hextra⟩ := h.entries
  have hvmk : clearKeyVmk sampleClearKey sampleVmk.blob ∈ b.entries := by
    rw [hentries]
    exact List.mem_append_left extra List.mem_cons_self
  have honly : ∀ e ∈ b.entries, e.isVmk = true →
      e.typeField = Credential.clearKey.protectorType →
        e = clearKeyVmk sampleClearKey sampleVmk.blob := by
    intro e he hisVmk htype
    rw [hentries] at he
    rcases List.mem_append.mp he with hkeys | hother
    · exact sampleOnly e hkeys hisVmk htype
    · rw [(hextra e hother).2] at hisVmk
      cases hisVmk
  exact unlock_of_layout sampleCcmLaws hfree hvolume hvmk sampleProtects honly

/-- The volume opens without a credential, whatever its relocated region and
whatever follows the metadata. -/
theorem sampleBlock_unlocks (p : Profile) (sectors : UInt32) (headerOffset : UInt64)
    {tail : Bytes} {r : Reader} (hfree : r.ErrorFree)
    (himage : r.image = toGoImage (sampleBlock sectors headerOffset) tail) :
    ∃ v, Credential.clearKey.unlock sampleCrates p r = .ok v ∧ Reader.Later r v.reader ∧
      v.cipher = SectorCipher.newCbc sampleFvek ∧
      v.metadata = (sampleBlock sectors headerOffset).metadata 512 ∧
      v.totalSize.toNat = r.image.length :=
  (carriesSampleKeys_sampleBlock sectors headerOffset).unlocks p hfree himage

theorem sampleImage_unlocks (p : Profile) (sectors : UInt32) (headerOffset : UInt64) {r : Reader}
    (hfree : r.ErrorFree) (himage : r.image = sampleImage sectors headerOffset) :
    ∃ v, Credential.clearKey.unlock sampleCrates p r = .ok v := by
  obtain ⟨v, hunlock, -⟩ := sampleBlock_unlocks p sectors headerOffset hfree himage
  exact ⟨v, hunlock⟩

end Bitlocker
