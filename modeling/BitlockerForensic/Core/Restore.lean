import BitlockerForensic.Core.Damage

/-!
# What the view keeps of the image

Every sector that the view does not blank can be put back: encrypted again for its
place, it is the stored sector.  So the view tells two images apart exactly when
they differ in a sector that it shows.
-/

namespace Bitlocker

open RustStd

namespace VolumeView

/-! ## Whole sectors of a read -/

section Sectors

variable {C : Type} [SectorDecrypt C] (w : VolumeView C) {offset : UInt64}

theorem aligned_add (haligned : offset.toNat % 512 = 0) (j : ℕ) :
    (offset + UInt64.ofNat (512 * j)).toNat % 512 = 0 := by
  rw [UInt64.toNat_add, UInt64.toNat_ofNat']
  omega

theorem plainBytes_sectors (haligned : offset.toNat % 512 = 0) (count : ℕ) :
    w.plainBytes offset (512 * count) =
      (List.range count).flatMap fun j ↦ w.plainSector (offset + UInt64.ofNat (512 * j)) := by
  induction count with
  | zero => rfl
  | succ count ih =>
      rw [Nat.mul_succ, plainBytes_append, ih, plainBytes_sector w (aligned_add haligned count),
        List.range_succ, List.flatMap_append, List.flatMap_singleton]

theorem sector_of_plainBytes (haligned : offset.toNat % 512 = 0) {count j : ℕ} (hj : j < count) :
    ((w.plainBytes offset (512 * count)).drop (512 * j)).take 512 =
      w.plainSector (offset + UInt64.ofNat (512 * j)) := by
  have hsplit : 512 * count = 512 * j + (512 + 512 * (count - j - 1)) := by omega
  rw [hsplit, plainBytes_append, plainBytes_append, List.drop_left' (length_plainBytes _ _ _),
    List.take_left' (length_plainBytes _ _ _), plainBytes_sector w (aligned_add haligned j)]

end Sectors

variable {P : Crates}

/-- The stored sector for a sector of the view, from the source's own encryption. -/
def restoredSector (w : VolumeView (SectorCipher P)) (physical : UInt64) (plain : List UInt8) :
    List UInt8 :=
  if w.storedPlain physical then plain else w.cipher.encryptSector plain physical

theorem restoredSector_plainSector (laws : CipherInverses P) (w : VolumeView (SectorCipher P))
    {s : UInt64} (hshown : w.blanked s = false) :
    w.restoredSector (w.physical s) (w.plainSector s) = storedSector w.image (w.physical s) := by
  have hlen := length_storedSector w.image (w.physical s)
  rw [sectorSize] at hlen
  rw [restoredSector]
  cases hstored : w.storedPlain (w.physical s) with
  | true =>
      rw [if_pos rfl, plainSector, if_neg (by rw [hshown]; decide)]
      dsimp only
      rw [if_pos hstored]
  | false =>
      rw [if_neg (by decide), plainSector_encrypted hshown hstored,
        SectorCipher.encryptSector_decryptSector laws _ (by omega) (by omega)]

/-- Two sectors of the view differ only where the stored ones do. -/
theorem plainSector_inj (laws : CipherInverses P) {w w' : VolumeView (SectorCipher P)}
    (hmd : w'.metadata = w.metadata) (hcipher : w'.cipher = w.cipher) {s : UInt64} :
    w'.plainSector s = w.plainSector s ↔
      (w.blanked s = false →
        storedSector w'.image (w.physical s) = storedSector w.image (w.physical s)) := by
  obtain ⟨hblanked, hphysical, hstored⟩ := layout_congr hmd
  constructor
  · intro heq hshown
    have hrestored : w'.restoredSector = w.restoredSector := by
      funext physical plain
      rw [restoredSector, restoredSector, hstored, hcipher]
    rw [← restoredSector_plainSector laws w hshown, ← heq, ← hrestored, ← hphysical]
    exact (restoredSector_plainSector laws w' (by rw [hblanked, hshown])).symm
  · intro hsame
    rw [plainSector, plainSector, hblanked, hphysical, hstored, hcipher]
    by_cases hzero : w.blanked s = true
    · rw [if_pos hzero, if_pos hzero]
    · rw [if_neg hzero, if_neg hzero, hsame (Bool.eq_false_of_not_eq_true hzero)]

end VolumeView

namespace DecryptedVolume

variable {P : Crates}

/-- A read of whole sectors, after any calls, keeps all of the image that it shows:
its sectors encrypted again are the stored ones.  The same read of another image
under the same keys returns the same bytes if and only if the images agree on every
sector that is shown. -/
theorem view_restores_image (laws : CipherInverses P) {p : Profile}
    {v₀ v v' : DecryptedVolume (SectorCipher P)} {ls : List (Call × Outcome)}
    (hv : Lts.Run (Step p) v₀ ls v) {offset : UInt64} (haligned : offset.toNat % 512 = 0)
    {buf : Bytes} {count : ℕ} (hbuf : buf.length = 512 * count) {bytes : List UInt8}
    (hread : readAt p offset buf v = (.ok bytes, v')) :
    (∀ j < count, v₀.view.blanked (offset + UInt64.ofNat (512 * j)) = false →
      v₀.view.restoredSector (v₀.view.physical (offset + UInt64.ofNat (512 * j)))
          ((bytes.drop (512 * j)).take 512) =
        storedSector v₀.reader.image (v₀.view.physical (offset + UInt64.ofNat (512 * j)))) ∧
    ∀ {p' : Profile} {u₀ u u' : DecryptedVolume (SectorCipher P)} {ls' : List (Call × Outcome)}
      {buf' : Bytes} {bytes' : List UInt8}, u₀.metadata = v₀.metadata → u₀.cipher = v₀.cipher →
      Lts.Run (Step p') u₀ ls' u → buf'.length = buf.length →
      readAt p' offset buf' u = (.ok bytes', u') →
      (bytes' = bytes ↔ ∀ j < count, v₀.view.blanked (offset + UInt64.ofNat (512 * j)) = false →
        storedSector u₀.reader.image (v₀.view.physical (offset + UInt64.ofNat (512 * j))) =
          storedSector v₀.reader.image
            (v₀.view.physical (offset + UInt64.ofNat (512 * j)))) := by
  have hbytes := bytes_of_readAt hread
  rw [(Run.frame hv).view, hbuf] at hbytes
  subst hbytes
  constructor
  · intro j hj hshown
    rw [VolumeView.sector_of_plainBytes v₀.view haligned hj]
    exact VolumeView.restoredSector_plainSector laws v₀.view hshown
  · intro p' u₀ u u' ls' buf' bytes' hmd hcipher hu hlen hread'
    have hbytes' := bytes_of_readAt hread'
    rw [(Run.frame hu).view, hlen, hbuf] at hbytes'
    subst hbytes'
    have hsector : ∀ s, u₀.view.plainSector s = v₀.view.plainSector s ↔ _ :=
      fun s ↦ VolumeView.plainSector_inj laws hmd hcipher
    constructor
    · intro heq j hj
      apply (hsector _).mp
      rw [← VolumeView.sector_of_plainBytes u₀.view haligned hj, heq,
        VolumeView.sector_of_plainBytes v₀.view haligned hj]
    · intro hsame
      rw [VolumeView.plainBytes_sectors _ haligned, VolumeView.plainBytes_sectors _ haligned]
      apply List.flatMap_congr
      intro j hj
      exact (hsector _).mpr (hsame j (List.mem_range.mp hj))

/-- The sector of the sample is put back, and the read of the damaged image differs. -/
theorem view_restores_sample :
    ∃ (v v' u u' : DecryptedVolume (SectorCipher sampleCrates)) (bytes bytes' : List UInt8),
      Credential.clearKey.unlock sampleCrates .release (Reader.ofImage (sampleImage 0 0)) = .ok v ∧
      Credential.clearKey.unlock sampleCrates .release (Reader.ofImage damagedImage) = .ok u ∧
      readAt .release 1024 (Bytes.ofList (List.replicate 512 0)) v = (.ok bytes, v') ∧
      readAt .release 1024 (Bytes.ofList (List.replicate 512 0)) u = (.ok bytes', u') ∧
      v.view.restoredSector 1024 (bytes.take 512) = storedSector (sampleImage 0 0) 1024 ∧
      bytes' ≠ bytes := by
  obtain ⟨v, u, hv, hu, hfree, hfree', hview, hview'⟩ := unlock_damagedImage
  obtain ⟨v', hread⟩ := readAt_release hfree 1024 (Bytes.ofList (List.replicate 512 0))
  obtain ⟨u', hread'⟩ := readAt_release hfree' 1024 (Bytes.ofList (List.replicate 512 0))
  refine ⟨v, v', u, u', _, _, hv, hu, hread, hread', ?_⟩
  obtain ⟨hmd, hcipher, himage, himage', hphysical, hshown, -⟩ :=
    damagedImage_layout hview hview'
  have hbuf : (Bytes.ofList (List.replicate 512 0)).length = 512 * 1 := by decide +kernel
  obtain ⟨hrestore, hsame⟩ := view_restores_image sampleInverses (.nil v) (by decide) hbuf hread
  have hrestored := hrestore 0 (by decide) hshown
  have hdiffer := hsame hmd hcipher (.nil u) rfl hread'
  have hstored : storedSector damagedImage 1024 ≠ storedSector (sampleImage 0 0) 1024 := by
    decide +kernel
  have hfirst : (1024 : UInt64) + UInt64.ofNat (512 * 0) = 1024 := by decide
  rw [hfirst, hphysical, himage] at hrestored
  refine ⟨hrestored, ?_⟩
  intro heq
  have hagree := hdiffer.mp heq 0 (by decide) hshown
  rw [hfirst, hphysical, himage, himage'] at hagree
  exact hstored hagree

end DecryptedVolume

end Bitlocker
