import BitlockerForensic.Core.Reading
import BitlockerForensic.Core.Decrypted

/-!
# The plaintext a volume presents

What every read of an unlocked volume is about: the image, the cipher and the
metadata determine each logical sector, and `read_at` is the byte-by-byte
traversal of these sectors.  None of the three ever changes.
-/

namespace Bitlocker

open RustStd
open RustStd.Reader

/-- The parts of a volume that its reads depend on. -/
structure VolumeView (C : Type) where
  image : Image
  cipher : C
  metadata : FveMetadata

def DecryptedVolume.view {C : Type} (v : DecryptedVolume C) : VolumeView C :=
  ⟨v.reader.image, v.cipher, v.metadata⟩

def storedSector (image : Image) (physical : UInt64) : List UInt8 :=
  (padded sectorSize ((image.bytes.drop physical.toNat).take sectorSize)).2

def fitSector (plain : List UInt8) : List UInt8 :=
  plain.take sectorSize ++ List.replicate (sectorSize - plain.length) 0

@[simp] theorem length_storedSector (image : Image) (physical : UInt64) :
    (storedSector image physical).length = sectorSize := by
  simp only [storedSector, padded, List.length_append, List.length_replicate, List.length_take]
  omega

@[simp] theorem length_fitSector (plain : List UInt8) :
    (fitSector plain).length = sectorSize := by
  simp only [fitSector, List.length_append, List.length_replicate, List.length_take]
  omega

theorem fitSector_eq {plain : List UInt8} (h : plain.length = sectorSize) :
    fitSector plain = plain := by
  rw [fitSector, h, Nat.sub_self, List.replicate_zero, List.append_nil,
    List.take_of_length_le (le_of_eq h)]

theorem copyInto_fitSector (plain : List UInt8) :
    copyInto (List.replicate sectorSize 0) 0 (min plain.length sectorSize)
      ((plain.take (min plain.length sectorSize)).drop 0) = .ok (fitSector plain) := by
  have hlen : (plain.take (min plain.length sectorSize)).length =
      min plain.length sectorSize := by
    rw [List.length_take]
    omega
  have htake : plain.take (min plain.length sectorSize) = plain.take sectorSize := by
    rw [Nat.min_comm, ← List.take_take, List.take_length]
  rw [List.drop_zero, copyInto_ok (Nat.zero_le _) (by simp) (by rw [hlen, Nat.sub_zero]),
    List.take_zero, List.nil_append, List.drop_replicate, htake, fitSector]
  congr 3
  omega

namespace VolumeView

variable {C : Type}

/-! ## The arithmetic of a sector -/

def blanked (w : VolumeView C) (s : UInt64) : Bool :=
  w.metadata.metadataOffsets.toList.any fun m ↦
    m ≠ 0 ∧ m ≤ s ∧ s < m + w.metadata.metadataSize.toUInt64

def physical (w : VolumeView C) (s : UInt64) : UInt64 :=
  if s < w.metadata.volumeHeaderSize then w.metadata.volumeHeaderOffset + s else s

/-- The ends of the metadata blocks that are computed for the sector: those
starting at or before it, up to the first that covers it. -/
def regionSumsFit (metaSize s : UInt64) : List UInt64 → Bool
  | [] => true
  | m :: ms =>
      if m ≠ 0 ∧ m ≤ s then
        m.toNat + metaSize.toNat < 2 ^ 64 ∧ (s < m + metaSize ∨ regionSumsFit metaSize s ms)
      else regionSumsFit metaSize s ms

def SumsFit (w : VolumeView C) (s : UInt64) : Prop :=
  regionSumsFit w.metadata.metadataSize.toUInt64 s w.metadata.metadataOffsets.toList ∧
    (w.blanked s = false → s < w.metadata.volumeHeaderSize →
      w.metadata.volumeHeaderOffset.toNat + s.toNat < 2 ^ 64)

instance (w : VolumeView C) (s : UInt64) : Decidable (w.SumsFit s) :=
  inferInstanceAs (Decidable (_ ∧ _))

def storedPlain (w : VolumeView C) (physical : UInt64) : Bool :=
  w.metadata.encryptionMethod = methodNone ∨
    (w.metadata.encryptedVolumeSize ≠ 0 ∧ physical ≥ w.metadata.encryptedVolumeSize)

theorem inMetadataRegion_eq {p : Profile} {metaSize s : UInt64} {offsets : List UInt64}
    (h : p = .release ∨ regionSumsFit metaSize s offsets = true) :
    DecryptedVolume.inMetadataRegion p metaSize s offsets =
      .ok (offsets.any fun m ↦ m ≠ 0 ∧ m ≤ s ∧ s < m + metaSize) := by
  induction offsets with
  | nil => rfl
  | cons m ms ih =>
      rw [DecryptedVolume.inMetadataRegion, List.any_cons]
      by_cases hstart : m ≠ 0 ∧ s ≥ m
      · have hend : p.addU64 m metaSize = .ok (m + metaSize) := by
          rcases h with rfl | h
          · exact Profile.addU64_release m metaSize
          · rw [regionSumsFit, if_pos hstart] at h
            exact p.addU64_ok (decide_eq_true_iff.mp h).1
        rw [if_pos hstart, hend, ok_bind]
        by_cases hcover : s < m + metaSize
        · simp [hcover, hstart.1, show m ≤ s from hstart.2, pure, Except.pure]
        · have hrest : p = .release ∨ regionSumsFit metaSize s ms = true := by
            rcases h with rfl | h
            · exact Or.inl rfl
            · rw [regionSumsFit, if_pos hstart] at h
              exact Or.inr ((decide_eq_true_iff.mp h).2.resolve_left hcover)
          simp only [if_neg hcover, ih hrest]
          simp [hcover]
      · have hrest : p = .release ∨ regionSumsFit metaSize s ms = true := by
          rcases h with rfl | h
          · exact Or.inl rfl
          · rw [regionSumsFit, if_neg hstart] at h
            exact Or.inr h
        have hskip : ¬ (m ≠ 0 ∧ m ≤ s ∧ s < m + metaSize) :=
          fun hm ↦ hstart ⟨hm.1, hm.2.1⟩
        rw [if_neg hstart, ih hrest, decide_eq_false hskip, Bool.false_or]

theorem inMetadataRegion_overflow {metaSize s : UInt64} {offsets : List UInt64}
    (h : regionSumsFit metaSize s offsets = false) :
    DecryptedVolume.inMetadataRegion .debug metaSize s offsets = .error .overflow := by
  induction offsets with
  | nil => cases h
  | cons m ms ih =>
      rw [DecryptedVolume.inMetadataRegion]
      rw [regionSumsFit] at h
      by_cases hstart : m ≠ 0 ∧ s ≥ m
      · rw [if_pos hstart] at h
        rw [if_pos hstart]
        by_cases hfit : m.toNat + metaSize.toNat < 2 ^ 64
        · have hrest := not_or.mp (not_and.mp (decide_eq_false_iff_not.mp h) hfit)
          simp only [Profile.addU64_ok .debug hfit, ok_bind, if_neg hrest.1,
            ih (Bool.eq_false_of_not_eq_true hrest.2)]
        · rw [Profile.addU64_debug_overflow hfit, error_bind]
      · rw [if_neg hstart] at h
        rw [if_neg hstart, ih h]

theorem physicalAddress_eq {p : Profile} {w : VolumeView C} {s : UInt64}
    (h : p = .release ∨ (s < w.metadata.volumeHeaderSize →
      w.metadata.volumeHeaderOffset.toNat + s.toNat < 2 ^ 64)) :
    DecryptedVolume.physicalAddress p w.metadata s = .ok (w.physical s) := by
  unfold DecryptedVolume.physicalAddress physical
  by_cases hs : s < w.metadata.volumeHeaderSize
  · rw [if_pos hs, if_pos hs]
    rcases h with rfl | h
    · exact Profile.addU64_release _ _
    · exact p.addU64_ok (h hs)
  · rw [if_neg hs, if_neg hs]
    rfl

theorem physicalAddress_overflow {w : VolumeView C} {s : UInt64}
    (hs : s < w.metadata.volumeHeaderSize)
    (h : ¬ w.metadata.volumeHeaderOffset.toNat + s.toNat < 2 ^ 64) :
    DecryptedVolume.physicalAddress .debug w.metadata s = .error .overflow := by
  rw [DecryptedVolume.physicalAddress, if_pos hs, Profile.addU64_debug_overflow h]

/-! ## Sectors -/

variable [SectorDecrypt C]

def plainSector (w : VolumeView C) (s : UInt64) : List UInt8 :=
  if w.blanked s then List.replicate sectorSize 0
  else
    let ct := storedSector w.image (w.physical s)
    if w.storedPlain (w.physical s) then ct
    else fitSector (SectorDecrypt.decryptSector w.cipher ct (w.physical s))

@[simp] theorem length_plainSector (w : VolumeView C) (s : UInt64) :
    (w.plainSector s).length = sectorSize := by
  unfold plainSector
  split
  · exact List.length_replicate
  · dsimp only
    split
    · exact length_storedSector _ _
    · exact length_fitSector _

/-- The logical sector as the code of either profile computes it. -/
def sector (p : Profile) (w : VolumeView C) (s : UInt64) : Eval (List UInt8) :=
  if p = .release ∨ w.SumsFit s then .ok (w.plainSector s) else .error .overflow

end VolumeView

namespace DecryptedVolume

variable {C : Type}

theorem view_eq {v : DecryptedVolume C} {image : Image} {cipher : C} {md : FveMetadata}
    (himage : v.reader.image = image) (hcipher : v.cipher = cipher) (hmd : v.metadata = md) :
    v.view = ⟨image, cipher, md⟩ := by
  simp only [view, himage, hcipher, hmd]

@[simp] theorem view_withReader {v : DecryptedVolume C} {r : Reader} (h : Later v.reader r) :
    (HoldsReader.withReader v r : DecryptedVolume C).view = v.view :=
  view_eq h.image rfl rfl

variable [SectorDecrypt C]

/-- Where the sums that place a sector fit, or wrap, it is read and decrypted. -/
theorem yields_plainSector {p : Profile} {s : UInt64} {v : DecryptedVolume C}
    (hfit : p = .release ∨ v.view.SumsFit s) :
    Yields .io (decryptLogicalSector p s) v (.ok (v.view.plainSector s)) := by
  refine Yields.eval_ok (VolumeView.inMetadataRegion_eq (hfit.imp_right And.left)) ?_
  unfold VolumeView.plainSector
  change Yields _ (if v.view.blanked s = true then _ else _) _ _
  by_cases hblank : v.view.blanked s = true
  · rw [if_pos hblank, if_pos hblank]
    exact Yields.pure _
  · rw [if_neg hblank, if_neg hblank]
    have hphysical : DecryptedVolume.physicalAddress p v.metadata s = .ok (v.view.physical s) :=
      VolumeView.physicalAddress_eq
        (hfit.imp_right fun h ↦ h.2 (Bool.eq_false_of_not_eq_true hblank))
    refine Yields.eval_ok hphysical (Yields.onReader_seek_start fun r₁ hlater hrest ↦ ?_)
    have hsmall : (List.replicate sectorSize (0 : UInt8)).length < 2 ^ 64 := by
      rw [List.length_replicate]
      decide
    have hread := yields_readAvailable p (List.replicate sectorSize 0) hsmall r₁
    rw [hrest, List.length_replicate] at hread
    refine Yields.bind_ok hread.onReader fun r₂ _ ↦ ?_
    change Yields _ (if _ then Pure.pure (storedSector v.view.image _) else _) _ _
    change Yields _ _ _ (.ok (if v.view.storedPlain (v.view.physical s) = true then _ else _))
    have hstored : v.view.storedPlain (v.view.physical s) = true ↔
        v.metadata.encryptionMethod = methodNone ∨
          (v.metadata.encryptedVolumeSize ≠ 0 ∧
            v.view.physical s ≥ v.metadata.encryptedVolumeSize) :=
      decide_eq_true_iff
    by_cases hplain : v.view.storedPlain (v.view.physical s) = true
    · rw [if_pos hplain, if_pos (hstored.mp hplain)]
      exact Yields.pure _
    · rw [if_neg hplain, if_neg (mt hstored.mpr hplain)]
      refine Yields.eval_ok (slice_ok (Nat.zero_le _) (Nat.min_le_left _ _)) ?_
      exact Yields.of_eq (congrArg (fun out ↦ (Eval.toRes out, _)) (copyInto_fitSector _))

theorem yields_sectorOverflow {s : UInt64} {v : DecryptedVolume C} (hsums : ¬ v.view.SumsFit s) :
    Yields .io (decryptLogicalSector .debug s) v (.error (.panic .overflow)) := by
  by_cases hends : VolumeView.regionSumsFit v.metadata.metadataSize.toUInt64 s
      v.metadata.metadataOffsets.toList = true
  · obtain ⟨hblank, hs, hover⟩ : v.view.blanked s = false ∧ s < v.metadata.volumeHeaderSize ∧
        ¬ v.metadata.volumeHeaderOffset.toNat + s.toNat < 2 ^ 64 := by
      have hrest := not_and.mp hsums hends
      rw [Classical.not_imp, Classical.not_imp] at hrest
      exact hrest
    refine Yields.eval_ok (VolumeView.inMetadataRegion_eq (Or.inr hends)) ?_
    change Yields _ (if v.view.blanked s = true then _ else _) _ _
    rw [if_neg (by rw [hblank]; exact Bool.false_ne_true)]
    exact Yields.eval_error (VolumeView.physicalAddress_overflow (w := v.view) hs hover)
  · exact Yields.eval_error
      (VolumeView.inMetadataRegion_overflow (Bool.eq_false_of_not_eq_true hends))

theorem yields_decryptLogicalSector (p : Profile) (s : UInt64) (v : DecryptedVolume C) :
    Yields .io (decryptLogicalSector p s) v (v.view.sector p s).toRes := by
  unfold VolumeView.sector
  by_cases hfit : p = .release ∨ v.view.SumsFit s
  · rw [if_pos hfit]
    exact yields_plainSector hfit
  · rw [if_neg hfit]
    cases p with
    | debug => exact yields_sectorOverflow fun h ↦ hfit (Or.inr h)
    | release => exact absurd (Or.inl rfl) hfit

end DecryptedVolume

/-! ## Byte ranges -/

namespace VolumeView

variable {C : Type} [SectorDecrypt C]

def byteAt (p : Profile) (w : VolumeView C) (q : UInt64) : Eval UInt8 := do
  let sector ← w.sector p (q - q % 512)
  pure (sector.getD (q % 512).toNat 0)

def bytesFrom (p : Profile) (w : VolumeView C) (offset : UInt64) (start count : ℕ) :
    Eval (List UInt8) :=
  (List.range' start count).mapM fun i ↦ do
    w.byteAt p (← p.addU64 offset (UInt64.ofNat i))

theorem length_of_sector {p : Profile} {w : VolumeView C} {s : UInt64} {l : List UInt8}
    (h : w.sector p s = .ok l) : l.length = sectorSize := by
  unfold sector at h
  split at h
  · cases h
    exact w.length_plainSector s
  · cases h

omit [SectorDecrypt C] in
theorem toNat_within (pos : UInt64) : (pos % 512).toNat = pos.toNat % 512 :=
  UInt64.toNat_mod pos 512

omit [SectorDecrypt C] in
theorem toNat_base (pos : UInt64) : (pos - pos % 512).toNat = pos.toNat - pos.toNat % 512 := by
  have hle : pos % 512 ≤ pos := by
    rw [UInt64.le_iff_toNat_le, toNat_within]
    exact Nat.mod_le _ _
  rw [UInt64.toNat_sub_of_le _ _ hle, toNat_within]

omit [SectorDecrypt C] in
theorem position_add {pos : UInt64} {j : ℕ} (h : pos.toNat % 512 + j < 512) :
    ((pos + UInt64.ofNat j) % 512).toNat = pos.toNat % 512 + j ∧
      pos + UInt64.ofNat j - (pos + UInt64.ofNat j) % 512 = pos - pos % 512 := by
  have hpos := pos.toNat_lt
  have hj : (UInt64.ofNat j).toNat = j := UInt64.toNat_ofNat_of_lt (show j < 2 ^ 64 by omega)
  have hsum : (pos + UInt64.ofNat j).toNat = pos.toNat + j := by
    rw [UInt64.toNat_add, hj]
    omega
  constructor
  · rw [toNat_within, hsum]
    omega
  · apply UInt64.toNat_inj.mp
    rw [toNat_base, toNat_base, hsum]
    omega

omit [SectorDecrypt C] in
theorem position_within (pos : UInt64) : (pos - (pos - pos % 512)).toNat = pos.toNat % 512 := by
  have hbase := toNat_base pos
  have hle : pos - pos % 512 ≤ pos := by
    rw [UInt64.le_iff_toNat_le, hbase]
    omega
  rw [UInt64.toNat_sub_of_le _ _ hle, hbase]
  have := Nat.mod_le pos.toNat 512
  omega

omit [SectorDecrypt C] in
theorem addU64_add {p : Profile} {offset pos : UInt64} {start j : ℕ}
    (hpos : p.addU64 offset (UInt64.ofNat start) = .ok pos)
    (hrange : start + j < 2 ^ 64) (hfit : pos.toNat + j < 2 ^ 64) :
    p.addU64 offset (UInt64.ofNat (start + j)) = .ok (pos + UInt64.ofNat j) := by
  have hstart : (UInt64.ofNat start).toNat = start :=
    UInt64.toNat_ofNat_of_lt (show start < 2 ^ 64 by omega)
  have hall : (UInt64.ofNat (start + j)).toNat = start + j :=
    UInt64.toNat_ofNat_of_lt (show start + j < 2 ^ 64 from hrange)
  by_cases hsum : offset.toNat + start < 2 ^ 64
  · rw [p.addU64_ok (by rwa [hstart])] at hpos
    cases hpos
    have hval : (offset + UInt64.ofNat start).toNat = offset.toNat + start := by
      rw [UInt64.toNat_add, hstart]
      omega
    rw [p.addU64_ok (by omega), UInt64.ofNat_add, UInt64.add_assoc]
  · cases p with
    | debug =>
        rw [Profile.addU64_debug_overflow (by rwa [hstart])] at hpos
        cases hpos
    | release =>
        rw [Profile.addU64_release] at hpos ⊢
        cases hpos
        rw [UInt64.ofNat_add, UInt64.add_assoc]

theorem map_getD_range {l : List UInt8} {start count : ℕ} (h : start + count ≤ l.length) :
    (List.range count).map (fun j ↦ l.getD (start + j) 0) = (l.drop start).take count := by
  apply List.ext_getElem
  · rw [List.length_map, List.length_range, List.length_take, List.length_drop]
    omega
  · intro j hj _
    rw [List.length_map, List.length_range] at hj
    simp [List.getD_eq_getElem?_getD, show start + j < l.length by omega]

theorem bytesFrom_within {p : Profile} {w : VolumeView C} {offset pos : UInt64} {start count : ℕ}
    (hpos : p.addU64 offset (UInt64.ofNat start) = .ok pos)
    (hcount : 0 < count) (hsector : pos.toNat % 512 + count ≤ 512)
    (hrange : start + count < 2 ^ 64) :
    w.bytesFrom p offset start count = (do
      let sector ← w.sector p (pos - pos % 512)
      pure ((sector.drop (pos.toNat % 512)).take count)) := by
  have hposlt := pos.toNat_lt
  have hbyte : ∀ j < count, (do w.byteAt p (← p.addU64 offset (UInt64.ofNat (start + j)))) =
      (do
        let sector ← w.sector p (pos - pos % 512)
        pure (sector.getD (pos.toNat % 512 + j) 0)) := by
    intro j hj
    obtain ⟨hmod, hbase⟩ := @position_add pos j (by omega)
    rw [addU64_add hpos (by omega) (by omega), ok_bind, byteAt, hbase, hmod]
  rw [bytesFrom, List.range'_eq_map_range, List.mapM_map]
  cases hview : w.sector p (pos - pos % 512) with
  | error cause =>
      obtain ⟨n, rfl⟩ : ∃ n, count = n + 1 := ⟨count - 1, by omega⟩
      have hfirst := hbyte 0 hcount
      rw [hview, error_bind] at hfirst
      rw [List.range_succ_eq_map, List.mapM_cons]
      simp only [Function.comp_apply, hfirst, error_bind]
  | ok sector =>
      have hlen := length_of_sector hview
      rw [mapM_ok (g := fun j ↦ sector.getD (pos.toNat % 512 + j) 0)]
      · rw [ok_bind, map_getD_range (by rw [hlen, sectorSize]; exact hsector)]
        rfl
      · intro j hj
        have := hbyte j (List.mem_range.mp hj)
        rw [hview, ok_bind] at this
        exact this

theorem bytesFrom_append (p : Profile) (w : VolumeView C) (offset : UInt64) (start m n : ℕ) :
    w.bytesFrom p offset start (m + n) = (do
      let head ← w.bytesFrom p offset start m
      let tail ← w.bytesFrom p offset (start + m) n
      pure (head ++ tail)) := by
  have hrange : List.range' start (m + n) = List.range' start m ++ List.range' (start + m) n := by
    rw [List.range'_append_1]
  rw [bytesFrom, hrange, List.mapM_append]
  rfl

def plainByte (w : VolumeView C) (q : UInt64) : UInt8 :=
  (w.plainSector (q - q % 512)).getD (q % 512).toNat 0

theorem plainByte_ofNat (w : VolumeView C) {q : ℕ} (h : q < 2 ^ 64) :
    w.plainByte (UInt64.ofNat q) =
      (w.plainSector (UInt64.ofNat (q - q % 512))).getD (q % 512) 0 := by
  have hq : (UInt64.ofNat q).toNat = q := UInt64.toNat_ofNat_of_lt h
  have hbase : UInt64.ofNat q - UInt64.ofNat q % 512 = UInt64.ofNat (q - q % 512) := by
    rw [UInt64.ofNat_sub (Nat.mod_le q 512), UInt64.ofNat_mod h (by decide)]
    rfl
  rw [plainByte, toNat_within, hq, hbase]

def plainBytes (w : VolumeView C) (offset : UInt64) (count : ℕ) : List UInt8 :=
  (List.range count).map fun i ↦ w.plainByte (offset + UInt64.ofNat i)

@[simp] theorem length_plainBytes (w : VolumeView C) (offset : UInt64) (count : ℕ) :
    (w.plainBytes offset count).length = count := by
  rw [plainBytes, List.length_map, List.length_range]

theorem byteAt_eq_of_ok {p : Profile} {w : VolumeView C} {q : UInt64} {b : UInt8}
    (h : w.byteAt p q = .ok b) : b = w.plainByte q := by
  obtain ⟨l, hl, hb⟩ := bind_eq_ok.mp h
  unfold sector at hl
  split at hl
  · cases hl
    cases hb
    rfl
  · cases hl

theorem bytesFrom_eq_of_ok {p : Profile} {w : VolumeView C} {offset : UInt64} {count : ℕ}
    {l : List UInt8} (h : w.bytesFrom p offset 0 count = .ok l) :
    l = w.plainBytes offset count := by
  rw [bytesFrom, ← List.range_eq_range'] at h
  refine mapM_eq_ok (fun i _ b hb ↦ ?_) h
  obtain ⟨q, hq, hbyte⟩ := bind_eq_ok.mp hb
  rw [← Profile.addU64_eq_of_ok hq]
  exact byteAt_eq_of_ok hbyte

@[simp] theorem bytesFrom_release (w : VolumeView C) (offset : UInt64) (count : ℕ) :
    w.bytesFrom .release offset 0 count = .ok (w.plainBytes offset count) := by
  rw [bytesFrom, ← List.range_eq_range']
  refine mapM_ok fun i _ ↦ ?_
  rw [Profile.addU64_release, ok_bind, byteAt, sector, if_pos (Or.inl rfl), ok_bind]
  rfl

end VolumeView

namespace DecryptedVolume

variable {C : Type} [SectorDecrypt C]

/-- What the loop leaves in the buffer: the part already filled, then the bytes
of the view. -/
def filledFrom (p : Profile) (w : VolumeView C) (offset : UInt64) (buf : List UInt8) (done : ℕ) :
    Eval (List UInt8) := do
  let tail ← w.bytesFrom p offset done (buf.length - done)
  pure (buf.take done ++ tail)

theorem filledFrom_step {p : Profile} {w : VolumeView C} {offset pos : UInt64}
    {buf sector : List UInt8} {done take : ℕ} (hlen : buf.length < 2 ^ 63)
    (hpos : p.addU64 offset (UInt64.ofNat done) = .ok pos)
    (hsector : w.sector p (pos - pos % 512) = .ok sector)
    (htake : 0 < take) (hwithin : pos.toNat % 512 + take ≤ 512)
    (hdone : done + take ≤ buf.length) :
    filledFrom p w offset buf done =
      filledFrom p w offset
        (buf.take done ++ (sector.drop (pos.toNat % 512)).take take ++ buf.drop (done + take))
        (done + take) := by
  have hslice : ((sector.drop (pos.toNat % 512)).take take).length = take := by
    rw [List.length_take, List.length_drop, VolumeView.length_of_sector hsector, sectorSize]
    omega
  have hhead : (buf.take done ++ (sector.drop (pos.toNat % 512)).take take).length =
      done + take := by
    rw [List.length_append, hslice, List.length_take]
    omega
  have hbuf : (buf.take done ++ (sector.drop (pos.toNat % 512)).take take ++
      buf.drop (done + take)).length = buf.length := by
    rw [List.length_append, hhead, List.length_drop]
    omega
  have hsplit : buf.length - done = take + (buf.length - (done + take)) := by omega
  rw [filledFrom, filledFrom, hbuf, List.take_left' hhead, hsplit,
    VolumeView.bytesFrom_append,
    VolumeView.bytesFrom_within hpos htake hwithin (by omega), hsector, ok_bind]
  cases w.bytesFrom p offset (done + take) (buf.length - (done + take)) with
  | error cause => rfl
  | ok tail => exact congrArg Except.ok (List.append_assoc _ _ _).symm

theorem filledFrom_error {p : Profile} {w : VolumeView C} {offset : UInt64} {buf : List UInt8}
    {done : ℕ} {cause : Panic} (hdone : done < buf.length)
    (h : (do w.byteAt p (← p.addU64 offset (UInt64.ofNat done))) = .error cause) :
    filledFrom p w offset buf done = .error cause := by
  obtain ⟨n, hn⟩ : ∃ n, buf.length - done = n + 1 := ⟨buf.length - done - 1, by omega⟩
  rw [filledFrom, hn, VolumeView.bytesFrom, List.range'_succ, List.mapM_cons, h, error_bind,
    error_bind]

theorem yields_readAtLoop (p : Profile) (offset : UInt64) (fuel : ℕ) (buf : List UInt8)
    (done : ℕ) (v : DecryptedVolume C) (hdone : done ≤ buf.length) (hlen : buf.length < 2 ^ 63)
    (hfuel : buf.length - done < fuel) :
    Yields .io (readAtLoop p offset fuel buf done) v
      (filledFrom p v.view offset buf done).toRes := by
  induction fuel generalizing buf done v with
  | zero => omega
  | succ fuel ih =>
      rw [readAtLoop]
      by_cases hmore : done < buf.length
      · rw [if_pos hmore]
        cases hpos : p.addU64 offset (UInt64.ofNat done) with
        | error cause =>
            rw [filledFrom_error hmore (by rw [hpos, error_bind])]
            exact Yields.eval_error rfl
        | ok pos =>
            refine Yields.eval_ok rfl ?_
            have hposlt := pos.toNat_lt
            have hwithin := VolumeView.position_within pos
            have hin : pos.toNat % 512 < 512 := Nat.mod_lt _ (by decide)
            simp only [hwithin]
            generalize htake : min (sectorSize - pos.toNat % 512) (buf.length - done) = take
            have hsize : sectorSize = 512 := rfl
            cases hsector : v.view.sector p (pos - pos % 512) with
            | error cause =>
                have hread := yields_decryptLogicalSector p (pos - pos % 512) v
                rw [hsector] at hread
                rw [filledFrom_error hmore (by
                  rw [hpos, ok_bind, VolumeView.byteAt, hsector, error_bind])]
                exact hread.bind_error
            | ok sector =>
                have hlensector := VolumeView.length_of_sector hsector
                have hread := yields_decryptLogicalSector p (pos - pos % 512) v
                rw [hsector] at hread
                refine hread.bind_ok fun r hlater ↦ ?_
                have hsrc : RustStd.slice sector (pos.toNat % 512) (pos.toNat % 512 + take) =
                    .ok ((sector.drop (pos.toNat % 512)).take take) := by
                  rw [slice_ok (by omega) (by omega), List.drop_take, Nat.add_sub_cancel_left]
                have hsrclen : ((sector.drop (pos.toNat % 512)).take take).length = take := by
                  rw [List.length_take, List.length_drop]
                  omega
                have hstop : done + take ≤ buf.length := by omega
                have hrest : buf.length - (done + take) < fuel := by omega
                have hbuf : (buf.take done ++ (sector.drop (pos.toNat % 512)).take take ++
                    buf.drop (done + take)).length = buf.length := by
                  rw [List.length_append, List.length_append, hsrclen, List.length_take,
                    List.length_drop, Nat.min_eq_left hdone, Nat.add_sub_cancel' hstop]
                refine Yields.eval_ok (p.addUsize_ok (by omega)) ?_
                refine Yields.eval_ok (p.addUsize_ok (by omega)) ?_
                refine Yields.eval_ok hsrc ?_
                refine Yields.eval_ok (copyInto_ok (by omega) (by omega) (by omega)) ?_
                rw [filledFrom_step hlen hpos hsector (show 0 < take by omega) (by omega)
                  (by omega), ← view_withReader hlater]
                apply ih
                · rw [hbuf]
                  exact hstop
                · rw [hbuf]
                  exact hlen
                · rw [hbuf]
                  exact hrest
      · rw [if_neg hmore]
        have hnil : buf.length - done = 0 := by omega
        have hall : buf.take done = buf := List.take_of_length_le (by omega)
        have hout : filledFrom p v.view offset buf done = .ok buf := by
          rw [filledFrom, hnil, hall, VolumeView.bytesFrom, List.range'_zero, List.mapM_nil]
          exact congrArg Except.ok (List.append_nil buf)
        rw [hout]
        exact Yields.pure buf

/-- `read_at` fills the buffer with the bytes of the view, or passes on an
error of the device; it moves nothing but the reader. -/
theorem yields_readAt (p : Profile) (offset : UInt64) (buf : Bytes) (v : DecryptedVolume C) :
    Yields .io (readAt p offset buf) v (v.view.bytesFrom p offset 0 buf.length).toRes := by
  have hloop := yields_readAtLoop p offset (buf.length + 1) buf.toList 0 v (Nat.zero_le _)
    buf.fits (Nat.lt_succ_self buf.length)
  have hout : filledFrom p v.view offset buf.toList 0 =
      v.view.bytesFrom p offset 0 buf.length := by
    rw [filledFrom, Nat.sub_zero, List.take_zero]
    cases v.view.bytesFrom p offset 0 buf.length <;> rfl
  rw [hout] at hloop
  exact hloop

end DecryptedVolume

end Bitlocker
