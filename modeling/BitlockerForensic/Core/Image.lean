import BitlockerForensic.Core.Layout
import BitlockerForensic.Core.Unlock

/-!
# Images of the documented layout

An image with a To Go or Windows 7 header whose first non-zero offset points at
an encoded block has exactly the metadata that block stands for.
-/

namespace Bitlocker

open RustStd

def offsetsAt (bytes : List UInt8) (base : ℕ) : FixedArray UInt64 3 :=
  ⟨[UInt64.ofNat (leAt bytes base 8), UInt64.ofNat (leAt bytes (base + 8) 8),
    UInt64.ofNat (leAt bytes (base + 16) 8)], rfl⟩

def sectorBytes (bytes : List UInt8) : UInt16 :=
  if UInt16.ofNat (leAt bytes 11 2) = 0 then 512 else UInt16.ofNat (leAt bytes 11 2)

/-- A To Go or Windows 7 header with the given sector size and candidate
offsets; its other bytes are free. -/
structure HeaderLayout (image : Image) (bytesPerSector : UInt16)
    (offsets : FixedArray UInt64 3) : Prop where
  length_ge : sectorSize ≤ image.length
  bytesPerSector_eq : bytesPerSector = sectorBytes image.bytes
  variant :
    ((image.bytes.take 11).drop 3 = sigToGo ∧ offsets = offsetsAt image.bytes 440) ∨
      ((image.bytes.take 11).drop 3 = sigFve ∧ image.bytes.take 3 = bootWin7 ∧
        offsets = offsetsAt image.bytes 176)

theorem leAt_take {l : List UInt8} {n off w : ℕ} (h : off + w ≤ n) (hn : n ≤ l.length) :
    leAt (l.take n) off w = leAt l off w := by
  unfold leAt
  rw [if_pos (by rw [List.length_take]; omega), if_pos (by omega), List.take_take,
    Nat.min_eq_left h]

/-- The candidate offsets that the first sector gives for the metadata block, by
the variant its signature and boot code announce. -/
def candidates (bytes : List UInt8) : Option (FixedArray UInt64 3) :=
  if (bytes.take 11).drop 3 = sigToGo then some (offsetsAt bytes 440)
  else if (bytes.take 11).drop 3 = sigFve then
    if bytes.take 3 = bootWin7 then some (offsetsAt bytes 176)
    else
      let product := leAt bytes 56 8 * (sectorBytes bytes).toNat * max (bytes.getD 13 0).toNat 1
      some ⟨[UInt64.ofNat (min product (2 ^ 64 - 1)), 0, 0], FixedArray.length_triple _ _ _⟩
  else none

theorem toNat_max_one (a : UInt8) : (max a 1).toNat = max a.toNat 1 := by
  have hmax : max a 1 = if a ≤ 1 then 1 else a := rfl
  have hone : (1 : UInt8).toNat = 1 := rfl
  rw [hmax]
  by_cases h : a ≤ 1
  · have hle : a.toNat ≤ 1 := UInt8.le_iff_toNat_le.mp h
    rw [if_pos h, hone, max_eq_right hle]
  · have hlt : 1 < a.toNat := UInt8.lt_iff_toNat_lt.mp (UInt8.not_le.mp h)
    rw [if_neg h, max_eq_left (le_of_lt hlt)]

theorem firstCluster_eq {value : ℕ} (hvalue : value < 2 ^ 64) (bytesPerSector : UInt16)
    (sectorsPerCluster : UInt8) :
    saturatingMulU64 (UInt64.ofNat value)
        (bytesPerSector.toUInt64 * (max sectorsPerCluster 1).toUInt64) =
      UInt64.ofNat (min (value * bytesPerSector.toNat * max sectorsPerCluster.toNat 1)
        (2 ^ 64 - 1)) := by
  have hnat : (UInt64.ofNat value).toNat = value := UInt64.toNat_ofNat_of_lt hvalue
  have hcluster : (bytesPerSector.toUInt64 * (max sectorsPerCluster 1).toUInt64).toNat =
      bytesPerSector.toNat * max sectorsPerCluster.toNat 1 := by
    rw [UInt64.toNat_mul, UInt16.toNat_toUInt64, UInt8.toNat_toUInt64, toNat_max_one]
    apply Nat.mod_eq_of_lt
    rw [← toNat_max_one]
    exact mul_fits bytesPerSector.toNat_lt (max sectorsPerCluster 1).toNat_lt (by decide)
  rw [saturatingMulU64, hnat, hcluster, Nat.mul_assoc]

/-- The header of an image of at least one sector: none without a signature,
else one that lists the candidates. -/
theorem headerIn_cases {image : Image} (hlen : sectorSize ≤ image.length) :
    (candidates image.bytes = none ∧ ∃ signature : Octets 8,
        signature.toList = (image.bytes.take 11).drop 3 ∧
        headerIn image = .error (.err (.notBitLocker signature))) ∨
      ∃ vh, headerIn image = .ok vh ∧ vh.bytesPerSector = sectorBytes image.bytes ∧
        candidates image.bytes = some vh.fveMetadataOffsets := by
  have hlong : 512 ≤ image.bytes.length := hlen
  have hsmall : (image.bytes.take sectorSize).length < 2 ^ 63 := by
    rw [List.length_take, sectorSize]
    omega
  have hsector : (Bytes.ofList (image.bytes.take sectorSize)).toList = image.bytes.take 512 :=
    Bytes.ofList_toList hsmall
  rw [headerIn, if_pos hlen]
  generalize Bytes.ofList (image.bytes.take sectorSize) = sector at hsector
  have hsectorlen : sector.length = 512 := by
    rw [Bytes.length, hsector, List.length_take]
    omega
  have hfield : ∀ off w, off + w ≤ 512 → leAt sector.toList off w = leAt image.bytes off w := by
    intro off w hoff
    rw [hsector, leAt_take hoff hlong]
  have hoffsets : ∀ base, base + 24 ≤ 512 →
      (⟨[UInt64.ofNat (leAt sector.toList base 8), UInt64.ofNat (leAt sector.toList (base + 8) 8),
        UInt64.ofNat (leAt sector.toList (base + 16) 8)], rfl⟩ : FixedArray UInt64 3) =
          offsetsAt image.bytes base := by
    intro base hbase
    rw [FixedArray.mk.injEq, hfield base 8 (by omega), hfield (base + 8) 8 (by omega),
      hfield (base + 16) 8 (by omega)]
    rfl
  have hsignature : (arrayAt 8 sector 3).toList = (image.bytes.take 11).drop 3 := by
    rw [arrayAt_toList (by omega), hsector, List.take_take]
    rfl
  have hboot : ((sector.get 0 3).getD Bytes.empty).toList = image.bytes.take 3 := by
    have hget : sector.get 0 3 = some (sector.window 0 3) :=
      Bytes.get_eq_some.mpr ⟨by omega, by omega, rfl⟩
    rw [hget, Option.getD_some, Bytes.window_toList, hsector, List.take_take]
    rfl
  have hcluster : sector.toList[13]?.getD 1 = image.bytes.getD 13 0 := by
    rw [hsector, List.getElem?_take_of_lt (by decide), List.getD_eq_getElem?_getD,
      List.getElem?_eq_getElem (by omega)]
    rfl
  have hbytes := hfield 11 2 (by omega)
  simp only [headerOf, candidates, sectorBytes, hsignature, hboot, hcluster, hbytes,
    hfield 56 8 (by omega)]
  by_cases htogo : (image.bytes.take 11).drop 3 = sigToGo
  · rw [if_pos htogo, if_pos htogo]
    exact Or.inr ⟨_, rfl, rfl, congrArg some (hoffsets 440 (by omega)).symm⟩
  · rw [if_neg htogo, if_neg htogo]
    by_cases hfve : (image.bytes.take 11).drop 3 = sigFve
    · rw [if_pos hfve, if_pos hfve]
      by_cases hwin7 : image.bytes.take 3 = bootWin7
      · rw [if_pos hwin7, if_pos hwin7]
        exact Or.inr ⟨_, rfl, rfl, congrArg some (hoffsets 176 (by omega)).symm⟩
      · rw [if_neg hwin7, if_neg hwin7]
        refine Or.inr ⟨_, rfl, rfl, congrArg some (FixedArray.ext ?_)⟩
        exact congrArg (fun first ↦ [first, 0, 0])
          (firstCluster_eq (leAt_lt image.bytes 56 8) _ _).symm
    · rw [if_neg hfve, if_neg hfve]
      exact Or.inl ⟨rfl, arrayAt 8 sector 3, hsignature, rfl⟩

theorem candidates_of_layout {image : Image} {bytesPerSector : UInt16}
    {offsets : FixedArray UInt64 3} (h : HeaderLayout image bytesPerSector offsets) :
    candidates image.bytes = some offsets := by
  have hother : sigFve ≠ sigToGo := by decide
  rcases h.variant with ⟨hsig, rfl⟩ | ⟨hsig, hwin7, rfl⟩
  · rw [candidates, if_pos hsig]
  · rw [candidates, if_neg (by rw [hsig]; exact hother), if_pos hsig, if_pos hwin7]

/-! ## Copies of the block -/

/-- The bytes read for the copy at `offset`: 64 KiB, less at the end of the
image. -/
def copyAt (image : Image) (offset : UInt64) : Bytes :=
  Bytes.ofList ((image.bytes.take (offset.toNat + metadataReadLen)).drop offset.toNat)

def startsBlock (image : Image) (offset : UInt64) : Bool :=
  offset ≠ 0 ∧ (image.bytes.drop offset.toNat).take 8 = sigFve

theorem copyAt_toList (image : Image) (offset : UInt64) :
    (copyAt image offset).toList = (image.bytes.drop offset.toNat).take metadataReadLen := by
  have hcopy : (image.bytes.take (offset.toNat + metadataReadLen)).drop offset.toNat =
      (image.bytes.drop offset.toNat).take metadataReadLen := by
    rw [List.drop_take, Nat.add_sub_cancel_left]
  rw [copyAt, hcopy, Bytes.ofList_toList]
  rw [List.length_take, metadataReadLen]
  omega

theorem blockAt_eq (image : Image) (bytesPerSector : UInt16) (offset : UInt64) :
    blockAt image bytesPerSector offset = metadataOf (copyAt image offset) bytesPerSector := by
  rw [blockAt, ← copyAt_toList, Bytes.ofList_of_toList]

theorem blockAt_eq_none {image : Image} {bytesPerSector : UInt16} {offset : UInt64} :
    blockAt image bytesPerSector offset = none ↔
      (image.bytes.drop offset.toNat).take 8 ≠ sigFve := by
  rw [blockAt_eq, metadataOf_eq_none, copyAt_toList, List.take_take, metadataReadLen]
  rfl

theorem blockAt_of_startsBlock {image : Image} {offset : UInt64}
    (h : startsBlock image offset = true) (bytesPerSector : UInt16) :
    ∃ md, blockAt image bytesPerSector offset = some md := by
  apply Option.ne_none_iff_exists'.mp
  intro hnone
  exact blockAt_eq_none.mp hnone (decide_eq_true_iff.mp h).2

/-- The search skips zero offsets and copies without the signature. -/
theorem firstBlock_eq (image : Image) (bytesPerSector : UInt16) (offsets : List UInt64) :
    firstBlock image bytesPerSector offsets =
      (offsets.find? (startsBlock image)).bind (blockAt image bytesPerSector) := by
  induction offsets with
  | nil => rfl
  | cons offset rest ih =>
      rw [firstBlock] at ih ⊢
      by_cases hzero : offset = 0
      · have hskip : startsBlock image offset = false := by
          rw [startsBlock, decide_eq_false_iff_not]
          exact fun h ↦ h.1 hzero
        rw [List.filter_cons_of_neg (by simpa using hzero), List.find?_cons, hskip, ih]
      · rw [List.filter_cons_of_pos (by simpa using hzero), List.findSome?_cons, List.find?_cons]
        cases hblock : blockAt image bytesPerSector offset with
        | none =>
            have hskip : startsBlock image offset = false := by
              rw [startsBlock, decide_eq_false_iff_not]
              exact fun h ↦ blockAt_eq_none.mp hblock h.2
            rw [hskip]
            exact ih
        | some md =>
            have hstarts : startsBlock image offset = true := by
              by_contra hskip
              have hnone : blockAt image bytesPerSector offset = none := by
                apply blockAt_eq_none.mpr
                intro hsig
                exact hskip (decide_eq_true ⟨hzero, hsig⟩)
              rw [hblock] at hnone
              cases hnone
            rw [hstarts]
            exact hblock.symm

/-! ## The search over an image -/

theorem metadataIn_of_candidates {image : Image} (hlen : sectorSize ≤ image.length)
    {offsets : FixedArray UInt64 3} (hoffsets : candidates image.bytes = some offsets) :
    metadataIn image =
      okOr (firstBlock image (sectorBytes image.bytes) offsets.toList)
        (.noValidMetadata offsets) := by
  rcases headerIn_cases hlen with ⟨hnone, -⟩ | ⟨vh, hvh, hbytes, hsome⟩
  · rw [hnone] at hoffsets
    cases hoffsets
  · rw [hsome] at hoffsets
    rw [metadataIn, hvh, ok_bind, hbytes, Option.some.inj hoffsets]

theorem blockAt_encode {image : Image} {offset : UInt64} {b : BlockLayout}
    (hblock : b.encode <+: image.bytes.drop offset.toNat)
    (hsize : b.encode.length ≤ metadataReadLen) (bytesPerSector : UInt16) :
    blockAt image bytesPerSector offset = some (b.metadata bytesPerSector) := by
  obtain ⟨rest, hrest⟩ := hblock
  have hsmall : ((image.bytes.drop offset.toNat).take metadataReadLen).length < 2 ^ 63 := by
    rw [List.length_take, metadataReadLen]
    omega
  have htake : (image.bytes.drop offset.toNat).take metadataReadLen =
      b.encode ++ rest.take (metadataReadLen - b.encode.length) := by
    rw [← hrest, List.take_append, List.take_of_length_le hsize]
  rw [blockAt]
  exact b.metadataOf_encode ((Bytes.ofList_toList hsmall).trans htake) bytesPerSector

theorem metadataIn_of_layout {image : Image} {bytesPerSector : UInt16}
    {offsets : FixedArray UInt64 3} {offset : UInt64} {b : BlockLayout}
    (hheader : HeaderLayout image bytesPerSector offsets)
    (hfirst : (offsets.toList.filter (· ≠ 0)).head? = some offset)
    (hblock : b.encode <+: image.bytes.drop offset.toNat)
    (hsize : b.encode.length ≤ metadataReadLen) :
    metadataIn image = .ok (b.metadata bytesPerSector) := by
  obtain ⟨rest, hrest⟩ := List.head?_eq_some_iff.mp hfirst
  rw [metadataIn_of_candidates hheader.length_ge (candidates_of_layout hheader),
    ← hheader.bytesPerSector_eq, firstBlock, hrest, List.findSome?_cons,
    blockAt_encode hblock hsize]
  rfl

end Bitlocker
