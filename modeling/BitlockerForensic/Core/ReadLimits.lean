import Mathlib.Data.List.GetD
import BitlockerForensic.Core.ClearKey
import BitlockerForensic.Core.View

/-!
# Reads at the limits

Two limits of the read path: sums over unauthenticated 64-bit metadata fields,
and bytes past the end of the volume.  For each, exactly when a read keeps to
what is documented.
-/

namespace Bitlocker

open RustStd
open RustStd.Reader

def sectorStart (pos : UInt64) : UInt64 := pos - pos % 512

/-! ## Sums of metadata fields -/

def covers (metaSize s m : UInt64) : Bool :=
  m ≠ 0 ∧ m ≤ s ∧ s.toNat < m.toNat + metaSize.toNat

theorem covers_eq_true {metaSize s m : UInt64} :
    covers metaSize s m = true ↔ m ≠ 0 ∧ m ≤ s ∧ s.toNat < m.toNat + metaSize.toNat :=
  decide_eq_true_iff

/-- The first metadata block that covers the sector ends below `2 ^ 64`; if none
does and the sector is relocated, its relocated address is below `2 ^ 64`. -/
def FveMetadata.Addressable (md : FveMetadata) (s : UInt64) : Prop :=
  match md.metadataOffsets.toList.find? (covers md.metadataSize.toUInt64 s) with
  | some m => m.toNat + md.metadataSize.toUInt64.toNat < 2 ^ 64
  | none => s < md.volumeHeaderSize → md.volumeHeaderOffset.toNat + s.toNat < 2 ^ 64

theorem lt_add_iff {m metaSize s : UInt64} (hfit : m.toNat + metaSize.toNat < 2 ^ 64) :
    s < m + metaSize ↔ s.toNat < m.toNat + metaSize.toNat := by
  rw [UInt64.lt_iff_toNat_lt, UInt64.toNat_add, Nat.mod_eq_of_lt hfit]

theorem fits_of_not_covers {m metaSize s : UInt64} (hstart : m ≠ 0 ∧ m ≤ s)
    (h : covers metaSize s m = false) : m.toNat + metaSize.toNat < 2 ^ 64 := by
  have hs := s.toNat_lt
  have hend : ¬ s.toNat < m.toNat + metaSize.toNat := by
    intro hlt
    rw [covers, decide_eq_false_iff_not] at h
    exact h ⟨hstart.1, hstart.2, hlt⟩
  omega

/-- Only the first covering block can have a sum that does not fit. -/
theorem regionSumsFit_iff {metaSize s : UInt64} {offsets : List UInt64} :
    VolumeView.regionSumsFit metaSize s offsets = true ↔
      ∀ m, offsets.find? (covers metaSize s) = some m → m.toNat + metaSize.toNat < 2 ^ 64 := by
  induction offsets with
  | nil => simp [VolumeView.regionSumsFit]
  | cons m ms ih =>
      rw [VolumeView.regionSumsFit, List.find?_cons]
      by_cases hstart : m ≠ 0 ∧ m ≤ s
      · rw [if_pos hstart, decide_eq_true_eq]
        cases hcovers : covers metaSize s m with
        | true =>
            have hlt : s.toNat < m.toNat + metaSize.toNat :=
              (covers_eq_true.mp hcovers).2.2
            constructor
            · rintro ⟨hfit, -⟩ m' h
              cases h
              exact hfit
            · intro h
              have hfit := h m rfl
              exact ⟨hfit, Or.inl ((lt_add_iff hfit).mpr hlt)⟩
        | false =>
            have hfit := fits_of_not_covers hstart hcovers
            have hend : ¬ s < m + metaSize := by
              rw [lt_add_iff hfit]
              exact fun hlt ↦ decide_eq_false_iff_not.mp hcovers ⟨hstart.1, hstart.2, hlt⟩
            rw [← ih]
            exact ⟨fun h ↦ h.2.resolve_left hend, fun h ↦ ⟨hfit, Or.inr h⟩⟩
      · have hcovers : covers metaSize s m = false :=
          decide_eq_false fun h ↦ hstart ⟨h.1, h.2.1⟩
        rw [if_neg hstart, hcovers, ih]

namespace VolumeView

variable {C : Type}

theorem blanked_of_uncovered {w : VolumeView C} {s : UInt64}
    (h : w.metadata.metadataOffsets.toList.find? (covers w.metadata.metadataSize.toUInt64 s) =
      none) : w.blanked s = false := by
  refine List.any_eq_false.mpr fun m hm hblank ↦ ?_
  obtain ⟨hzero, hle, hlt⟩ := decide_eq_true_iff.mp hblank
  have hcovers : covers w.metadata.metadataSize.toUInt64 s m = false :=
    Bool.eq_false_of_not_eq_true (List.find?_eq_none.mp h m hm)
  have hfit := fits_of_not_covers ⟨hzero, hle⟩ hcovers
  exact decide_eq_false_iff_not.mp hcovers ⟨hzero, hle, (lt_add_iff hfit).mp hlt⟩

theorem blanked_of_covers {w : VolumeView C} {s m : UInt64}
    (hm : m ∈ w.metadata.metadataOffsets.toList)
    (hcovers : covers w.metadata.metadataSize.toUInt64 s m = true)
    (hfit : m.toNat + w.metadata.metadataSize.toUInt64.toNat < 2 ^ 64) : w.blanked s = true := by
  obtain ⟨hzero, hle, hlt⟩ := covers_eq_true.mp hcovers
  apply List.any_eq_true.mpr
  exact ⟨m, hm, decide_eq_true ⟨hzero, hle, (lt_add_iff hfit).mpr hlt⟩⟩

theorem sumsFit_iff (w : VolumeView C) (s : UInt64) :
    w.SumsFit s ↔ w.metadata.Addressable s := by
  rw [SumsFit, regionSumsFit_iff, FveMetadata.Addressable]
  cases hfind : w.metadata.metadataOffsets.toList.find?
      (covers w.metadata.metadataSize.toUInt64 s) with
  | some m =>
      constructor
      · rintro ⟨hfit, -⟩
        exact hfit m rfl
      · intro hfit
        have hblanked : w.blanked s = true :=
          blanked_of_covers (List.mem_of_find?_eq_some hfind) (List.find?_some hfind) hfit
        refine ⟨fun m' h ↦ ?_, fun h ↦ ?_⟩
        · cases h
          exact hfit
        · rw [hblanked] at h
          cases h
  | none =>
      have hblanked := blanked_of_uncovered hfind
      constructor
      · rintro ⟨-, hheader⟩
        exact hheader hblanked
      · intro hheader
        exact ⟨fun m h ↦ (by cases h), fun _ ↦ hheader⟩

variable [SectorDecrypt C]

theorem exists_byteAt_eq_ok {p : Profile} {w : VolumeView C} {q : UInt64} :
    (∃ b, w.byteAt p q = .ok b) ↔ p = .release ∨ w.metadata.Addressable (sectorStart q) := by
  rw [← sumsFit_iff, byteAt, sector, sectorStart]
  by_cases hfit : p = .release ∨ w.SumsFit (q - q % 512)
  · rw [if_pos hfit, ok_bind]
    exact ⟨fun _ ↦ hfit, fun _ ↦ ⟨_, rfl⟩⟩
  · rw [if_neg hfit, error_bind]
    constructor
    · rintro ⟨b, h⟩
      cases h
    · intro h
      exact absurd h hfit

theorem exists_bytesFrom_eq_ok {p : Profile} {w : VolumeView C} {offset : UInt64} {count : ℕ}
    (hrange : offset.toNat + count ≤ 2 ^ 64) :
    (∃ bytes, w.bytesFrom p offset 0 count = .ok bytes) ↔
      ∀ i < count, p = .release ∨
        w.metadata.Addressable (sectorStart (offset + UInt64.ofNat i)) := by
  rw [bytesFrom, exists_mapM_eq_ok]
  simp only [List.mem_range'_1, Nat.zero_le, true_and, Nat.zero_add]
  refine forall_congr' fun i ↦ imp_congr_right fun hi ↦ ?_
  have hindex : (UInt64.ofNat i).toNat = i :=
    UInt64.toNat_ofNat_of_lt (show i < 2 ^ 64 by omega)
  rw [p.addU64_ok (by omega), ok_bind, exists_byteAt_eq_ok]

end VolumeView

namespace DecryptedVolume

variable {C : Type} [SectorDecrypt C]

/-- A read inside the volume neither overflows in a checked build nor differs in
a wrapping one, over a device without errors, if and only if every sector it
touches is addressable; over any device this is enough for it not to panic. -/
theorem read_within_volume_fits_iff (v : DecryptedVolume C) {offset : UInt64} {buf : Bytes}
    (hrange : offset.toNat + buf.length ≤ v.totalSize.toNat) :
    (v.reader.ErrorFree →
      ((NoPanic (readAt .debug offset buf v).1 ∧
          (readAt .release offset buf v).1 = (readAt .debug offset buf v).1) ↔
        ∀ i < buf.length, v.metadata.Addressable (sectorStart (offset + UInt64.ofNat i)))) ∧
      ((∀ i < buf.length, v.metadata.Addressable (sectorStart (offset + UInt64.ofNat i))) →
        NoPanic (readAt .debug offset buf v).1) := by
  have hsize := v.totalSize.toNat_lt
  have hbytes : (∃ bytes, v.view.bytesFrom .debug offset 0 buf.length = .ok bytes) ↔
      ∀ i < buf.length, v.metadata.Addressable (sectorStart (offset + UInt64.ofNat i)) := by
    rw [VolumeView.exists_bytesFrom_eq_ok (by omega)]
    simp only [reduceCtorEq, false_or]
    rfl
  rw [← hbytes]
  constructor
  · intro hfree
    obtain ⟨r, -, hdebug⟩ := (yields_readAt .debug offset buf v).of_errorFree hfree
    obtain ⟨r', -, hrelease⟩ := (yields_readAt .release offset buf v).of_errorFree hfree
    rw [hdebug, hrelease, VolumeView.bytesFrom_release]
    constructor
    · rintro ⟨-, hsame⟩
      cases hview : v.view.bytesFrom .debug offset 0 buf.length with
      | ok bytes => exact ⟨bytes, rfl⟩
      | error cause =>
          rw [hview] at hsame
          cases hsame
    · rintro ⟨bytes, hview⟩
      rw [hview, VolumeView.bytesFrom_eq_of_ok hview]
      exact ⟨failsOnly_ok _, rfl⟩
  · rintro ⟨bytes, hview⟩
    refine (yields_readAt .debug offset buf v).noPanic ?_
    rw [hview]
    exact failsOnly_ok _

theorem addressable_sample (sectors : UInt32) (headerOffset : UInt64) :
    ((sampleBlock sectors headerOffset).metadata 512).Addressable 1024 ↔
      (1024 < sectors.toUInt64 * 512 → headerOffset.toNat + 1024 < 2 ^ 64) := by
  have hnone : ((sampleBlock sectors headerOffset).metadata 512).metadataOffsets.toList.find?
      (covers ((sampleBlock sectors headerOffset).metadata 512).metadataSize.toUInt64 1024) =
        none := by
    have hfind : [512, 0, 0].find? (covers (UInt32.ofNat (48 +
        (MetadataEntry.encodeAll sampleEntries).length)).toUInt64 1024) = none := by
      rw [length_sampleEntries]
      decide
    exact hfind
  have hregion : relocatedRegion sampleEntries headerOffset (sectors.toUInt64 * 512) =
      (headerOffset, sectors.toUInt64 * 512) := by
    have hfind : sampleEntries.find? (fun e ↦ e.entryType = entryTypeVolumeHeader) = none := by
      decide +kernel
    rw [relocatedRegion, hfind]
  rw [FveMetadata.Addressable, hnone]
  have hsize : ((sampleBlock sectors headerOffset).metadata 512).volumeHeaderSize =
      sectors.toUInt64 * 512 := congrArg Prod.snd hregion
  have hoffset : ((sampleBlock sectors headerOffset).metadata 512).volumeHeaderOffset =
      headerOffset := congrArg Prod.fst hregion
  rw [hsize, hoffset]
  rfl

theorem sectorStart_sample : sectorStart (1024 + UInt64.ofNat 0) = 1024 := by decide

theorem read_within_volume_fits_sample :
    ∃ v, Credential.clearKey.unlock sampleCrates .debug (Reader.ofImage (sampleImage 0 0)) =
        .ok v ∧
      (1024 : UInt64).toNat + (Bytes.ofList [0]).length ≤ v.totalSize.toNat ∧
      NoPanic (readAt .debug 1024 (Bytes.ofList [0]) v).1 := by
  obtain ⟨v, hunlock, -, -, hmd, hsize⟩ := sampleBlock_unlocks .debug 0 0
    (Reader.errorFree_ofImage (sampleImage 0 0)) rfl
  have hrange : (1024 : UInt64).toNat + (Bytes.ofList [0]).length ≤ v.totalSize.toNat := by
    rw [hsize.trans (length_sampleImage 0 0)]
    decide
  refine ⟨v, hunlock, hrange, (read_within_volume_fits_iff v hrange).2 fun i hi ↦ ?_⟩
  obtain rfl : i = 0 := Nat.lt_one_iff.mp hi
  rw [hmd, sectorStart_sample, addressable_sample]
  exact fun h ↦ absurd h (by decide)

/-- A relocated header whose addresses wrap: a one-byte read inside the volume
panics in a checked build. -/
theorem read_within_volume_overflows :
    ∃ v cause, Credential.clearKey.unlock sampleCrates .debug
        (Reader.ofImage (sampleImage 3 0xfffffffffffffe00)) = .ok v ∧
      (1024 : UInt64).toNat + (Bytes.ofList [0]).length ≤ v.totalSize.toNat ∧
      (readAt .debug 1024 (Bytes.ofList [0]) v).1 = .error (.panic cause) := by
  have hfree := Reader.errorFree_ofImage (sampleImage 3 0xfffffffffffffe00)
  obtain ⟨v, hunlock, hlater, -, hmd, hsize⟩ :=
    sampleBlock_unlocks .debug 3 0xfffffffffffffe00 hfree rfl
  have hrange : (1024 : UInt64).toNat + (Bytes.ofList [0]).length ≤ v.totalSize.toNat := by
    rw [hsize.trans (length_sampleImage 3 0xfffffffffffffe00)]
    decide
  obtain ⟨r, -, hread⟩ :=
    (yields_readAt .debug 1024 (Bytes.ofList [0]) v).of_errorFree (hlater.errorFree hfree)
  cases hview : v.view.bytesFrom .debug 1024 0 (Bytes.ofList [0]).length with
  | error cause =>
      refine ⟨v, cause, hunlock, hrange, ?_⟩
      rw [hread, hview]
      rfl
  | ok bytes =>
      have hfits := (VolumeView.exists_bytesFrom_eq_ok (by decide)).mp ⟨bytes, hview⟩ 0 (by decide)
      rw [sectorStart_sample] at hfits
      change _ ∨ v.metadata.Addressable 1024 at hfits
      rw [hmd, addressable_sample] at hfits
      exact absurd hfits (by decide +kernel)

end DecryptedVolume

/-! ## Past the end of the volume -/

/-- Any length-preserving function of the sector bytes and their byte offset. -/
structure LengthPreserving where
  run : List UInt8 → UInt64 → List UInt8
  length_run : ∀ ct offset, (run ct offset).length = ct.length

instance : SectorDecrypt LengthPreserving where
  decryptSector := LengthPreserving.run

def LengthPreserving.ones : LengthPreserving where
  run ct _ := List.replicate ct.length 0xff
  length_run _ _ := List.length_replicate

def DecryptedVolume.withCipher {C D : Type} (v : DecryptedVolume C) (cipher : D) :
    DecryptedVolume D :=
  ⟨v.reader, cipher, v.metadata, v.totalSize, v.position⟩

theorem getD_storedSector (image : Image) (physical : UInt64) {j : ℕ} (hj : j < sectorSize) :
    (storedSector image physical).getD j 0 = image.bytes.getD (physical.toNat + j) 0 := by
  have hget : ((image.bytes.drop physical.toNat).take sectorSize)[j]? =
      image.bytes[physical.toNat + j]? := by
    rw [List.getElem?_take_of_lt hj, List.getElem?_drop]
  simp only [storedSector, padded, List.getD_eq_getElem?_getD]
  by_cases hin : j < ((image.bytes.drop physical.toNat).take sectorSize).length
  · rw [List.getElem?_append_left hin, hget]
  · have hnone : image.bytes[physical.toNat + j]? = none := by
      rw [← hget]
      exact List.getElem?_eq_none (Nat.le_of_not_lt hin)
    rw [List.getElem?_append_right (Nat.le_of_not_lt hin), hnone]
    exact List.getElem?_getD_replicate_default_eq _ _ _

namespace VolumeView

variable {C : Type}

/-- The byte at `q` is zero whatever the cipher: its sector is blanked, or it is
returned as stored and the image holds no other byte there. -/
def ZeroAt (w : VolumeView C) (q : UInt64) : Prop :=
  w.blanked (sectorStart q) = true ∨
    (w.storedPlain (w.physical (sectorStart q)) = true ∧
      w.image.bytes.getD ((w.physical (sectorStart q)).toNat + (q % 512).toNat) 0 = 0)

theorem getElem?_plainBytes [SectorDecrypt C] {w : VolumeView C} {offset : UInt64} {count i : ℕ}
    (hi : i < count) :
    (w.plainBytes offset count)[i]? = some (w.plainByte (offset + UInt64.ofNat i)) := by
  rw [plainBytes, List.getElem?_map, List.getElem?_range hi]
  rfl

theorem within_lt (q : UInt64) : (q % 512).toNat < sectorSize := by
  rw [toNat_within]
  exact Nat.mod_lt _ (by decide)

variable [SectorDecrypt C]

theorem plainByte_of_zeroAt {w : VolumeView C} {q : UInt64} (h : w.ZeroAt q) :
    w.plainByte q = 0 := by
  have hwithin := within_lt q
  change (w.plainSector (sectorStart q)).getD _ _ = _
  rw [plainSector]
  rcases h with hblanked | ⟨hplain, hzero⟩
  · rw [if_pos hblanked, List.getD_replicate _ hwithin]
  · by_cases hblanked : w.blanked (sectorStart q) = true
    · rw [if_pos hblanked, List.getD_replicate _ hwithin]
    · rw [if_neg hblanked]
      dsimp only
      rw [if_pos hplain, getD_storedSector _ _ hwithin, hzero]

theorem zeroAt_of_ones {w : VolumeView LengthPreserving} {q : UInt64}
    (hcipher : w.cipher = .ones) (h : w.plainByte q = 0) : w.ZeroAt q := by
  have hwithin := within_lt q
  change (w.plainSector (sectorStart q)).getD _ _ = _ at h
  rw [plainSector] at h
  by_cases hblanked : w.blanked (sectorStart q) = true
  · exact Or.inl hblanked
  · rw [if_neg hblanked] at h
    dsimp only at h
    by_cases hplain : w.storedPlain (w.physical (sectorStart q)) = true
    · rw [if_pos hplain, getD_storedSector _ _ hwithin] at h
      exact Or.inr ⟨hplain, h⟩
    · have hones : SectorDecrypt.decryptSector w.cipher
          (storedSector w.image (w.physical (sectorStart q))) (w.physical (sectorStart q)) =
            List.replicate sectorSize 0xff := by
        rw [hcipher, ← length_storedSector w.image (w.physical (sectorStart q))]
        rfl
      rw [if_neg hplain, hones, fitSector_eq List.length_replicate,
        List.getD_replicate _ hwithin] at h
      exact absurd h (by decide)

end VolumeView

namespace DecryptedVolume

variable {C : Type}

/-- Whatever the cipher, the bytes of a successful read at or past the end of
the volume are zero. -/
def ZeroPastEnd (p : Profile) (v : DecryptedVolume C) (offset : UInt64) (buf : Bytes) : Prop :=
  ∀ (cipher : LengthPreserving) (bytes : List UInt8) (v' : DecryptedVolume LengthPreserving),
    readAt p offset buf (v.withCipher cipher) = (.ok bytes, v') →
      ∀ i < buf.length, v.totalSize.toNat ≤ offset.toNat + i → bytes[i]? = some 0

/-- Unless a checked build panics first, every byte of the range at or past the
end of the volume is zero whatever the cipher. -/
def ZerosStored (p : Profile) (v : DecryptedVolume C) (offset : UInt64) (buf : Bytes) : Prop :=
  (∀ i < buf.length, p = .release ∨
      v.metadata.Addressable (sectorStart (offset + UInt64.ofNat i))) →
    ∀ i < buf.length, v.totalSize.toNat ≤ offset.toNat + i →
      v.view.ZeroAt (offset + UInt64.ofNat i)

/-- Reads past the end are zero exactly when the zeros are those of blanked
sectors or of sectors returned as stored: zeros that are decrypted are not zero
for every cipher.  The converse needs a device without errors. -/
theorem past_end_reads_zero_iff (p : Profile) (v : DecryptedVolume C) {offset : UInt64}
    {buf : Bytes} (hrange : offset.toNat + buf.length < 2 ^ 64) :
    (v.reader.ErrorFree → (v.ZeroPastEnd p offset buf ↔ v.ZerosStored p offset buf)) ∧
      (v.ZerosStored p offset buf → v.ZeroPastEnd p offset buf) := by
  have hpast : v.ZerosStored p offset buf → v.ZeroPastEnd p offset buf := by
    intro hstored cipher bytes v' hread i hi hend
    obtain ⟨hout, -⟩ := (yields_readAt p offset buf (v.withCipher cipher)).of_ok hread
    have hview := Eval.toRes_eq_ok.mp hout
    have hfits := (VolumeView.exists_bytesFrom_eq_ok (le_of_lt hrange)).mp ⟨bytes, hview⟩
    have hzero : (v.withCipher cipher).view.ZeroAt (offset + UInt64.ofNat i) :=
      hstored hfits i hi hend
    rw [VolumeView.bytesFrom_eq_of_ok hview, VolumeView.getElem?_plainBytes hi,
      VolumeView.plainByte_of_zeroAt hzero]
  refine ⟨fun hfree ↦ ⟨fun hzero hfits i hi hend ↦ ?_, hpast⟩, hpast⟩
  obtain ⟨bytes, hview⟩ := (VolumeView.exists_bytesFrom_eq_ok
    (w := (v.withCipher LengthPreserving.ones).view) (le_of_lt hrange)).mpr hfits
  obtain ⟨r, -, hread⟩ :=
    (yields_readAt p offset buf (v.withCipher LengthPreserving.ones)).of_errorFree hfree
  rw [hview] at hread
  have hbyte := hzero .ones bytes _ hread i hi hend
  rw [VolumeView.bytesFrom_eq_of_ok hview, VolumeView.getElem?_plainBytes hi] at hbyte
  exact VolumeView.zeroAt_of_ones (w := (v.withCipher LengthPreserving.ones).view) rfl
    (Option.some.inj hbyte)

theorem past_end_reads_zero_sample :
    ∃ v, Credential.clearKey.unlock sampleCrates .release
        (Reader.ofImage (sampleImage 0 0)) = .ok v ∧
      (v.ZeroPastEnd .release 1535 (Bytes.ofList [0, 0]) ↔
        v.ZerosStored .release 1535 (Bytes.ofList [0, 0])) := by
  have hfree := Reader.errorFree_ofImage (sampleImage 0 0)
  obtain ⟨v, hunlock, hlater, -⟩ :=
    sampleBlock_unlocks .release 0 0 hfree rfl
  exact ⟨v, hunlock, (past_end_reads_zero_iff .release v (by decide)).1 (hlater.errorFree hfree)⟩

def shortImage : Image :=
  toGoImage (sampleBlock 0 0) (Bytes.ofList (List.replicate 192 0))

theorem plainByte_shortImage :
    (⟨shortImage, SectorCipher.newCbc sampleFvek,
      (sampleBlock 0 0).metadata 512⟩ : VolumeView (SectorCipher sampleCrates)).plainByte 1040 =
        0x5e := by
  decide +kernel

/-- The first byte past its end comes back as `0x5e`: the missing ciphertext is
taken as zero and then decrypted. -/
theorem past_end_reads_decrypted_zeros :
    ∃ v v', Credential.clearKey.unlock sampleCrates .release (Reader.ofImage shortImage) = .ok v ∧
      v.totalSize.toNat = 1040 ∧
      readAt .release 1040 (Bytes.ofList [0]) v = (.ok [0x5e], v') := by
  have hfree := Reader.errorFree_ofImage shortImage
  obtain ⟨v, hunlock, hlater, hcipher, hmd, hsize⟩ := sampleBlock_unlocks .release 0 0 hfree
    rfl
  have hview : v.view = ⟨shortImage, SectorCipher.newCbc sampleFvek,
      (sampleBlock 0 0).metadata 512⟩ := view_eq hlater.image hcipher hmd
  obtain ⟨r, -, hread⟩ := (yields_readAt .release 1040 (Bytes.ofList [0]) v).of_errorFree
    (hlater.errorFree hfree)
  have hbytes : v.view.plainBytes 1040 (Bytes.ofList [0]).length = [v.view.plainByte 1040] := rfl
  refine ⟨v, HoldsReader.withReader v r, hunlock, ?_, ?_⟩
  · rw [hsize]
    decide +kernel
  · rw [hread, VolumeView.bytesFrom_release, hbytes, hview, plainByte_shortImage]
    rfl

end DecryptedVolume

end Bitlocker
