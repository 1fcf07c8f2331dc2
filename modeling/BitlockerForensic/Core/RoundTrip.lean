import BitlockerForensic.Core.Keyring
import BitlockerForensic.Core.ReadLimits

/-!
# The format round trip

Each sector cipher is a bijection of its sectors.  A volume of the documented
layout opens with each matching credential, and a sector stored encrypted under
its volume key reads back as its plaintext.
-/

namespace Bitlocker

open RustStd
open RustStd.Reader
open BlockModes

variable {P : Crates}

/-! ## Ciphers -/

/-- On every non-empty sequence of whole blocks, at every byte offset, the two
directions cancel and keep the length. -/
def SectorCipher.MutuallyInverse (cipher : SectorCipher P) : Prop :=
  ∀ (byteOffset : UInt64) (x : List UInt8), x.length % 16 = 0 → x.length ≠ 0 →
    cipher.decryptSector (cipher.encryptSector x byteOffset) byteOffset = x ∧
    cipher.encryptSector (cipher.decryptSector x byteOffset) byteOffset = x ∧
    (cipher.encryptSector x byteOffset).length = x.length ∧
    (cipher.decryptSector x byteOffset).length = x.length

theorem SectorCipher.mutuallyInverse (laws : CipherInverses P) (cipher : SectorCipher P) :
    cipher.MutuallyInverse := by
  intro byteOffset x hblocks hne
  have hpos : 16 ≤ x.length := by omega
  exact ⟨cipher.decryptSector_encryptSector laws.toCipherLaws hblocks hpos byteOffset,
    cipher.encryptSector_decryptSector laws hblocks hpos byteOffset,
    cipher.length_encryptSector x byteOffset, cipher.length_decryptSector x byteOffset⟩

/-- Each of the five constructors yields a cipher, from any keys, and it is
mutually inverse. -/
theorem sector_ciphers_mutually_inverse (laws : CipherInverses P) :
    (∀ fvek tweak, (SectorCipher.new fvek tweak : SectorCipher P).MutuallyInverse) ∧
    (∀ fvek, (SectorCipher.newCbc fvek : SectorCipher P).MutuallyInverse) ∧
    (∀ fvek, (SectorCipher.newCbc256 fvek : SectorCipher P).MutuallyInverse) ∧
    (∀ fvek, ∃ cipher : SectorCipher P,
      SectorCipher.newXts128 fvek = .ok cipher ∧ cipher.MutuallyInverse) ∧
    (∀ fvek, ∃ cipher : SectorCipher P,
      SectorCipher.newXts256 fvek = .ok cipher ∧ cipher.MutuallyInverse) := by
  have hall := SectorCipher.mutuallyInverse laws
  refine ⟨fun _ _ ↦ hall _, fun _ ↦ hall _, fun _ ↦ hall _, ?_, ?_⟩
  · intro fvek
    obtain ⟨cipher, hcipher⟩ := SectorCipher.exists_newXts128 (P := P) fvek
    exact ⟨cipher, hcipher, hall cipher⟩
  · intro fvek
    obtain ⟨cipher, hcipher⟩ := SectorCipher.exists_newXts256 (P := P) fvek
    exact ⟨cipher, hcipher, hall cipher⟩

/-- At the keys of the sample volume, on the block that AES maps to zero under
the IV of byte offset 1024. -/
theorem sector_ciphers_mutually_inverse_sample :
    let cipher : SectorCipher sampleCrates := SectorCipher.newCbc sampleFvek
    let zero : List UInt8 := List.replicate 16 0
    cipher.encryptSector (cipher.decryptSector zero 1024) 1024 = zero ∧
      cipher.decryptSector (cipher.encryptSector (cipher.decryptSector zero 1024) 1024) 1024 =
        cipher.decryptSector zero 1024 := by
  have hinverse := (sector_ciphers_mutually_inverse sampleInverses).2.1 sampleFvek
  obtain ⟨-, hzero, -, hlen⟩ := hinverse 1024 (List.replicate 16 0) (by decide) (by decide)
  refine ⟨hzero, (hinverse 1024 _ ?_ ?_).1⟩
  · rw [hlen]
    decide
  · rw [hlen]
    decide

/-! ## Sectors -/

def FveMetadata.storedAt (md : FveMetadata) (s : UInt64) : ℕ :=
  if s < md.volumeHeaderSize then md.volumeHeaderOffset.toNat + s.toNat else s.toNat

variable (P) in
/-- The image stores the sector `x` encrypted: outside every metadata block,
inside the image and inside the region that is still encrypted. -/
structure StoresSector (image : Image) (md : FveMetadata) (cipher : SectorCipher P) (s : UInt64)
    (x : List UInt8) : Prop where
  aligned : s.toNat % 512 = 0
  length_eq : x.length = sectorSize
  outside : ∀ m ∈ md.metadataOffsets.toList, m ≠ 0 →
    ¬ (m.toNat ≤ s.toNat ∧ s.toNat < m.toNat + md.metadataSize.toNat)
  within : md.storedAt s + 512 ≤ image.length
  encrypted : md.encryptedVolumeSize = 0 ∨ md.storedAt s < md.encryptedVolumeSize.toNat
  stored : (image.bytes.drop (md.storedAt s)).take 512 =
    cipher.encryptSector x (UInt64.ofNat (md.storedAt s))

theorem VolumeView.physical_eq {C : Type} (w : VolumeView C) (s : UInt64) :
    w.physical s = UInt64.ofNat (w.metadata.storedAt s) := by
  unfold VolumeView.physical FveMetadata.storedAt
  split
  · rw [UInt64.ofNat_add, UInt64.ofNat_toNat, UInt64.ofNat_toNat]
  · rw [UInt64.ofNat_toNat]

theorem storedSector_eq {image : Image} {physical : UInt64}
    (h : physical.toNat + 512 ≤ image.length) :
    storedSector image physical = (image.bytes.drop physical.toNat).take sectorSize := by
  have hlen : ((image.bytes.drop physical.toNat).take sectorSize).length = sectorSize := by
    rw [List.length_take, List.length_drop, sectorSize]
    rw [Image.length] at h
    omega
  rw [storedSector, padded, hlen, Nat.sub_self, List.replicate_zero, List.append_nil]

theorem StoresSector.uncovered {image : Image} {md : FveMetadata} {cipher : SectorCipher P}
    {s : UInt64} {x : List UInt8} (h : StoresSector P image md cipher s x) :
    md.metadataOffsets.toList.find? (covers md.metadataSize.toUInt64 s) = none := by
  refine List.find?_eq_none.mpr fun m hm hcovers ↦ ?_
  obtain ⟨hzero, hle, hlt⟩ := covers_eq_true.mp hcovers
  exact h.outside m hm hzero ⟨UInt64.le_iff_toNat_le.mp hle, hlt⟩

theorem StoresSector.sector_eq (laws : CipherLaws P) (p : Profile) {w : VolumeView (SectorCipher P)}
    {s : UInt64} {x : List UInt8} (hmethod : w.metadata.encryptionMethod ≠ methodNone)
    (h : StoresSector P w.image w.metadata w.cipher s x) : w.sector p s = .ok x := by
  have hwithin := h.within
  have hlen := w.image.length_lt
  have hphysical := w.physical_eq s
  have hnat : (w.physical s).toNat = w.metadata.storedAt s := by
    rw [hphysical]
    exact UInt64.toNat_ofNat_of_lt (show w.metadata.storedAt s < 2 ^ 64 by omega)
  have haddressable : w.metadata.Addressable s := by
    rw [FveMetadata.Addressable, h.uncovered]
    intro hs
    rw [FveMetadata.storedAt, if_pos hs] at hwithin
    omega
  have hblanked : ¬ w.blanked s = true := by
    rw [VolumeView.blanked_of_uncovered h.uncovered]
    exact Bool.false_ne_true
  have hplain : ¬ w.storedPlain (w.physical s) = true := by
    rw [VolumeView.storedPlain, decide_eq_true_eq]
    rintro (hnone | ⟨hnonzero, hpast⟩)
    · exact hmethod hnone
    · have hge := UInt64.le_iff_toNat_le.mp hpast
      have := h.encrypted.resolve_left hnonzero
      omega
  have hstored : storedSector w.image (w.physical s) = w.cipher.encryptSector x (w.physical s) := by
    rw [storedSector_eq (by omega), hnat, sectorSize, h.stored, hphysical]
  rw [VolumeView.sector, if_pos (Or.inr ((w.sumsFit_iff s).mpr haddressable)),
    VolumeView.plainSector, if_neg hblanked]
  dsimp only
  rw [if_neg hplain, hstored]
  have hinverse : SectorDecrypt.decryptSector w.cipher
      (w.cipher.encryptSector x (w.physical s)) (w.physical s) = x :=
    SectorCipher.decryptSector_encryptSector laws w.cipher (by rw [h.length_eq]; rfl)
      (by rw [h.length_eq]; decide) (w.physical s)
  rw [hinverse, fitSector_eq h.length_eq]

theorem readAt_sector {C : Type} [SectorDecrypt C] {p : Profile} {v : DecryptedVolume C}
    (hfree : v.reader.ErrorFree) {s : UInt64} {x : List UInt8} {buf : Bytes}
    (haligned : s.toNat % 512 = 0) (hbuf : buf.length = 512) (hsector : v.view.sector p s = .ok x) :
    (DecryptedVolume.readAt p s buf v).1 = .ok x := by
  obtain ⟨r, -, hread⟩ := (DecryptedVolume.yields_readAt p s buf v).of_errorFree hfree
  have hstart : s - s % 512 = s := by
    have hzero : s % 512 = 0 := UInt64.toNat_inj.mp (by rw [UInt64.toNat_mod]; exact haligned)
    rw [hzero, UInt64.sub_zero]
  have hpos : p.addU64 s (UInt64.ofNat 0) = .ok s := by
    rw [p.addU64_ok (show s.toNat + 0 < 2 ^ 64 from s.toNat_lt)]
    exact congrArg Except.ok (UInt64.add_zero s)
  have hlen : x.length ≤ 512 := le_of_eq (VolumeView.length_of_sector hsector)
  have hbytes : v.view.bytesFrom p s 0 512 = .ok x := by
    rw [VolumeView.bytesFrom_within hpos (by decide) (by omega) (by decide), hstart, hsector,
      ok_bind, haligned, List.drop_zero, List.take_of_length_le hlen]
    rfl
  rw [hread, hbuf, hbytes]
  rfl

/-- The round trip of the whole format.  Whatever the method, the keys, the
VMK, the salts and nonces, and the other entries and their order, an image of
the documented layout opens with a credential that the only VMK entry of its type
protects the VMK for; and every sector it stores encrypted under the volume key reads
back as its plaintext. -/
theorem format_round_trip (laws : CipherLaws P) (ccm : CcmLaws P) {p : Profile} {r : Reader}
    (hfree : r.ErrorFree) {bytesPerSector : UInt16} {b : BlockLayout} {vmk : Octets 32}
    {key : KeyMaterial} (hvolume : EncodedVolume P r.image bytesPerSector b vmk key)
    {cred : Credential} {e : MetadataEntry} (he : e ∈ b.entries)
    (hprotects : Protects P cred vmk e)
    (honly : ∀ e' ∈ b.entries, e'.isVmk = true → e'.typeField = cred.protectorType → e' = e) :
    ∃ v, cred.unlock P p r = .ok v ∧ v.metadata = b.metadata bytesPerSector ∧
      ∀ (s : UInt64) (x : List UInt8) (buf : Bytes),
        StoresSector P r.image (b.metadata bytesPerSector) (key.cipher P) s x →
        buf.length = 512 → (DecryptedVolume.readAt p s buf v).1 = .ok x := by
  obtain ⟨v, hunlock, hlater, hcipher, hmd, -⟩ :=
    unlock_of_layout ccm hfree hvolume he hprotects honly
  refine ⟨v, hunlock, hmd, fun s x buf hstores hbuf ↦ ?_⟩
  have hmethod : v.view.metadata.encryptionMethod ≠ methodNone := by
    rw [show v.view.metadata = v.metadata from rfl, hmd,
      show (b.metadata bytesPerSector).encryptionMethod = b.encryptionMethod from rfl,
      hvolume.method]
    cases key.kind <;> decide
  have hview : StoresSector P v.view.image v.view.metadata v.view.cipher s x := by
    simp only [DecryptedVolume.view, hlater.image, hcipher, hmd]
    exact hstores
  exact readAt_sector (hlater.errorFree hfree) hstores.aligned hbuf
    (hview.sector_eq laws p hmethod)

/-! ## The volumes of the keyring -/

namespace SampleVolumeKey

theorem region_block (k : SampleVolumeKey) :
    (k.block.metadata 512).volumeHeaderOffset = 1536 ∧
      (k.block.metadata 512).volumeHeaderSize = 512 := by
  have hkeys : ∀ e ∈ keyring, e.entryType ≠ entryTypeVolumeHeader := by decide +kernel
  have hfind : k.entries.find? (fun e ↦ e.entryType = entryTypeVolumeHeader) = none := by
    apply List.find?_eq_none.mpr
    intro e he
    rw [decide_eq_true_eq]
    rcases List.mem_append.mp he with hkey | hfvek
    · exact hkeys e hkey
    · cases List.mem_singleton.mp hfvek
      exact show entryTypeFvek ≠ entryTypeVolumeHeader by decide
  have hentries : k.block.entries = k.entries := rfl
  have hsize : (1 : UInt32).toUInt64 * (512 : UInt16).toUInt64 = 512 := by decide
  have hregion : relocatedRegion k.block.entries k.block.volumeHeaderOffset
      (k.block.volumeHeaderSectors.toUInt64 * (512 : UInt16).toUInt64) = (1536, 512) := by
    rw [hentries, relocatedRegion, hfind]
    exact congrArg (Prod.mk 1536) hsize
  simp only [BlockLayout.metadata, hregion, and_self]

theorem length_image (k : SampleVolumeKey) {sector : List UInt8} (hsector : sector.length = 512) :
    (k.image sector).length = 2048 := by
  have hblob := k.length_blob
  have hsize := k.metadataSize_block
  rw [image, length_toGoImage, Bytes.length, Bytes.ofList_toList, List.length_append,
    List.length_replicate, hsector]
  · omega
  · rw [List.length_append, List.length_replicate, hsector]
    omega

theorem sector_image (k : SampleVolumeKey) {sector : List UInt8} (hsector : sector.length = 512) :
    ((k.image sector).bytes.drop 1536).take 512 = sector := by
  have hblob := k.length_blob
  have hsize := k.metadataSize_block
  have hfits : (List.replicate (960 - k.block.metadataSize) 0 ++ sector).length < 2 ^ 63 := by
    rw [List.length_append, List.length_replicate, hsector]
    omega
  have hlead : (toGoHeader 512 ++ (k.block.encode ++
      List.replicate (960 - k.block.metadataSize) 0)).length = 1536 := by
    rw [List.length_append, length_toGoHeader, List.length_append, BlockLayout.length_encode,
      List.length_replicate]
    omega
  have hbytes : (k.image sector).bytes = toGoHeader 512 ++ (k.block.encode ++
      List.replicate (960 - k.block.metadataSize) 0) ++ sector := by
    rw [List.append_assoc, List.append_assoc, ← Bytes.ofList_toList hfits]
    rfl
  rw [hbytes, List.drop_left' hlead, List.take_of_length_le hsector.le]

/-- The first sector of the volume, relocated to byte 1536. -/
theorem storesSector (k : SampleVolumeKey) {sector x : List UInt8} (hx : x.length = 512)
    (hstored : (k.material.cipher sampleCrates).encryptSector x 1536 = sector) :
    StoresSector sampleCrates (k.image sector) (k.block.metadata 512)
      (k.material.cipher sampleCrates) 0 x := by
  have hblob := k.length_blob
  obtain ⟨hoffset, hregion⟩ := k.region_block
  have hplace : (k.block.metadata 512).storedAt 0 = 1536 := by
    rw [FveMetadata.storedAt, hoffset, hregion]
    decide
  have hsector : sector.length = 512 := by
    rw [← hstored, SectorCipher.length_encryptSector, hx]
  refine ⟨by decide, hx, ?_, ?_, Or.inl rfl, ?_⟩
  · intro m hm hzero hcovered
    have hoffsets : m ∈ [512, 0, 0] := hm
    rcases List.mem_cons.mp hoffsets with rfl | hrest
    · exact absurd hcovered.1 (by decide)
    · exact hzero (List.eq_of_mem_replicate (show m ∈ List.replicate 2 0 from hrest))
  · rw [hplace, k.length_image hsector]
  · rw [hplace, k.sector_image hsector, ← hstored]
    rfl

end SampleVolumeKey

/-- A sector that AES-CBC-128 stores as zeros. -/
def cbcPlaintext : List UInt8 :=
  (xorBlock sampleZeroPreimage keyringIv).toList ++
    (List.replicate 31 sampleZeroPreimage.toList).flatten

/-- A sector that XTS-AES-128 stores as the tweaks of its blocks. -/
def xtsPlaintext : List UInt8 :=
  (List.range 32).flatMap fun i ↦ (xorBlock sampleZeroPreimage (gfDouble^[i] keyringTweak)).toList

theorem storesSector_cbcImage :
    StoresSector sampleCrates cbcImage (cbcVolumeKey.block.metadata 512)
      (cbcVolumeKey.material.cipher sampleCrates) 0 cbcPlaintext :=
  cbcVolumeKey.storesSector (by decide +kernel) (by decide +kernel)

theorem storesSector_xtsImage :
    StoresSector sampleCrates xtsImage (xtsVolumeKey.block.metadata 512)
      (xtsVolumeKey.material.cipher sampleCrates) 0 xtsPlaintext :=
  xtsVolumeKey.storesSector (by decide +kernel) (by decide +kernel)

/-- Each credential of the keyring reads the relocated first sector back, in an
AES-CBC-128 volume and in an XTS-AES-128 one. -/
theorem format_round_trip_sample :
    (∀ cred e, InKeyring cred e →
      ∃ v, cred.unlock sampleCrates .release (Reader.ofImage cbcImage) = .ok v ∧
        (DecryptedVolume.readAt .release 0 (Bytes.ofList (List.replicate 512 0)) v).1 =
          .ok cbcPlaintext) ∧
    ∀ cred e, InKeyring cred e →
      ∃ v, cred.unlock sampleCrates .release (Reader.ofImage xtsImage) = .ok v ∧
        (DecryptedVolume.readAt .release 0 (Bytes.ofList (List.replicate 512 0)) v).1 =
          .ok xtsPlaintext := by
  have hbuf : (Bytes.ofList (List.replicate 512 0)).length = 512 := by decide +kernel
  constructor
  · intro cred e h
    obtain ⟨v, hunlock, -, hread⟩ := format_round_trip sampleInverses.toCipherLaws sampleCcmLaws
      (Reader.errorFree_ofImage cbcImage) cbcVolume
      (SampleVolumeKey.mem_block h) h.protects (SampleVolumeKey.only_block h)
    exact ⟨v, hunlock, hread 0 cbcPlaintext _ storesSector_cbcImage hbuf⟩
  · intro cred e h
    obtain ⟨v, hunlock, -, hread⟩ := format_round_trip sampleInverses.toCipherLaws sampleCcmLaws
      (Reader.errorFree_ofImage xtsImage) xtsVolume
      (SampleVolumeKey.mem_block h) h.protects (SampleVolumeKey.only_block h)
    exact ⟨v, hunlock, hread 0 xtsPlaintext _ storesSector_xtsImage hbuf⟩

end Bitlocker
