import Mathlib.Data.List.Infix
import BitlockerForensic.Core.EntryGrammar

/-!
# Whole blocks and truncated ones

`FveMetadata::parse` inverts the block layout whatever follows the block.  A
block that is cut short parses to a part of what the whole one holds: its
entries are a prefix, and no field is made up.
-/

namespace Bitlocker

open RustStd

/-! ## The layout inverted -/

/-- The 64-bit value that the first 0x000f entry stores at `off`, if it stores
one there that is not zero. -/
def regionOverride (entries : List MetadataEntry) (off : ℕ) : Option UInt64 :=
  (entries.find? fun e ↦ e.entryType = entryTypeVolumeHeader).bind fun e ↦
    if off + 8 ≤ e.data.length ∧ leAt e.data.toList off 8 ≠ 0 then
      some (UInt64.ofNat (leAt e.data.toList off 8))
    else none

theorem override_eq (l : List UInt8) (off : ℕ) (default : UInt64) :
    (if UInt64.ofNat (leAt l off 8) ≠ 0 then UInt64.ofNat (leAt l off 8) else default) =
      (if off + 8 ≤ l.length ∧ leAt l off 8 ≠ 0 then some (UInt64.ofNat (leAt l off 8))
        else none).getD default := by
  have hnat : (UInt64.ofNat (leAt l off 8)).toNat = leAt l off 8 :=
    UInt64.toNat_ofNat_of_lt (leAt_lt l off 8)
  have hzero : UInt64.ofNat (leAt l off 8) = 0 ↔ leAt l off 8 = 0 := by
    rw [← UInt64.toNat_inj, hnat]
    rfl
  by_cases hstored : off + 8 ≤ l.length ∧ leAt l off 8 ≠ 0
  · rw [if_pos hstored, if_pos (mt hzero.mp hstored.2), Option.getD_some]
  · have hnone : leAt l off 8 = 0 := by
      by_contra hvalue
      apply hstored
      refine ⟨?_, hvalue⟩
      by_contra hshort
      apply hvalue
      rw [leAt, if_neg hshort]
    rw [if_neg hstored, if_neg (not_not.mpr (hzero.mpr hnone)), Option.getD_none]

theorem relocatedRegion_eq (entries : List MetadataEntry) (blockOffset blockSize : UInt64) :
    relocatedRegion entries blockOffset blockSize =
      ((regionOverride entries 0).getD blockOffset, (regionOverride entries 8).getD blockSize) := by
  unfold relocatedRegion regionOverride
  cases entries.find? fun e ↦ e.entryType = entryTypeVolumeHeader with
  | none => rfl
  | some e => exact Prod.ext (override_eq e.data.toList 0 _) (override_eq e.data.toList 8 _)

theorem toNat_headerSize (sectors : UInt32) (bytesPerSector : UInt16) :
    (sectors.toUInt64 * bytesPerSector.toUInt64).toNat = sectors.toNat * bytesPerSector.toNat := by
  rw [UInt64.toNat_mul, UInt32.toNat_toUInt64, UInt16.toNat_toUInt64]
  apply Nat.mod_eq_of_lt
  exact mul_fits sectors.toNat_lt bytesPerSector.toNat_lt (by decide)

/-- Parsing an encoded block, with any bytes behind it, returns its fields, its
entries and the region that they relocate. -/
theorem parse_inverts_block_layout (p : Profile) (b : BlockLayout) {block : Bytes}
    {trailing : List UInt8} (hblock : block.toList = b.encode ++ trailing)
    (bytesPerSector : UInt16) :
    ∃ md, FveMetadata.parse p block bytesPerSector = .ok (some md) ∧
      md.encryptedVolumeSize = b.encryptedVolumeSize ∧
      md.metadataOffsets.toList =
        [b.metadataOffsets.1, b.metadataOffsets.2.1, b.metadataOffsets.2.2] ∧
      md.volumeGuid = b.volumeGuid ∧ md.encryptionMethod = b.encryptionMethod ∧
      md.creationTime = b.creationTime ∧
      md.metadataSize.toNat = 48 + (MetadataEntry.encodeAll b.entries).length ∧
      md.entries = b.entries ∧
      md.volumeHeaderOffset = (regionOverride b.entries 0).getD b.volumeHeaderOffset ∧
      md.volumeHeaderSize.toNat = ((regionOverride b.entries 8).map UInt64.toNat).getD
        (b.volumeHeaderSectors.toNat * bytesPerSector.toNat) := by
  have hsize : (UInt32.ofNat b.metadataSize).toNat = b.metadataSize :=
    UInt32.toNat_ofNat_of_lt b.size_lt
  refine ⟨b.metadata bytesPerSector, ?_, rfl, rfl, rfl, rfl, rfl, hsize, rfl, ?_, ?_⟩
  · rw [FveMetadata.parse_eq, b.metadataOf_encode hblock]
  · exact congrArg Prod.fst (relocatedRegion_eq b.entries _ _)
  · have hregion : (b.metadata bytesPerSector).volumeHeaderSize =
        (regionOverride b.entries 8).getD
          (b.volumeHeaderSectors.toUInt64 * bytesPerSector.toUInt64) :=
      congrArg Prod.snd (relocatedRegion_eq b.entries _ _)
    rw [hregion]
    cases regionOverride b.entries 8 with
    | none => exact toNat_headerSize b.volumeHeaderSectors bytesPerSector
    | some size => rfl

/-- A block whose only entry moves the volume header to byte 4096 and leaves its
size to the block header. -/
def relocatingBlock : BlockLayout where
  encryptedVolumeSize := 0x100000
  volumeHeaderSectors := 16
  metadataOffsets := (512, 0, 0)
  volumeHeaderOffset := 2048
  volumeGuid := zeros 16
  encryptionMethod := 0x8004
  creationTime := 7
  entries := [⟨entryTypeVolumeHeader, 0, 1, Bytes.ofList (leBytes 8 4096 ++ leBytes 8 0)⟩]
  skipped8 := zeros 8
  skipped24 := zeros 4
  skipped68 := zeros 12
  skipped96 := zeros 4
  skipped102 := zeros 2
  encodable := by decide +kernel
  size_lt := by decide +kernel

theorem parse_inverts_relocatingBlock :
    ∃ md, FveMetadata.parse .debug (Bytes.ofList (relocatingBlock.encode ++ [0xff, 0xff])) 512 =
        .ok (some md) ∧
      md.entries = relocatingBlock.entries ∧ md.volumeHeaderOffset = 4096 ∧
      md.volumeHeaderSize.toNat = 16 * 512 := by
  have hblock : (Bytes.ofList (relocatingBlock.encode ++ [0xff, 0xff])).toList =
      relocatingBlock.encode ++ [0xff, 0xff] :=
    Bytes.ofList_toList (by decide +kernel)
  obtain ⟨md, hparse, -, -, -, -, -, -, hentries, hoffset, hsize⟩ :=
    parse_inverts_block_layout .debug relocatingBlock hblock 512
  refine ⟨md, hparse, hentries, ?_, ?_⟩
  · rw [hoffset]
    decide +kernel
  · rw [hsize]
    decide +kernel

/-! ## Truncated blocks -/

theorem leAt_of_prefix {a b : List UInt8} (h : a <+: b) {off w : ℕ} (hfit : off + w ≤ a.length) :
    leAt a off w = leAt b off w := by
  obtain ⟨rest, rfl⟩ := h
  rw [leAt_append_left rest hfit]

theorem arrayAt_of_prefix {n : ℕ} {a b : Bytes} (h : a.toList <+: b.toList) {off : ℕ}
    (hfit : off + n ≤ a.length) : arrayAt n a off = arrayAt n b off := by
  have hlen : a.length ≤ b.length := h.length_le
  obtain ⟨rest, hrest⟩ := h
  apply FixedArray.ext
  rw [arrayAt_toList hfit, arrayAt_toList (by omega), ← hrest, List.take_append_of_le_length hfit]

/-- What starts with encoded entries parses to these entries and perhaps more. -/
theorem MetadataEntry.prefix_entriesOf {es : List MetadataEntry} (hes : ∀ e ∈ es, e.Encodable)
    {d : Bytes} {rest : List UInt8} (hd : d.toList = encodeAll es ++ rest) :
    es <+: entriesOf d := by
  induction es generalizing d with
  | nil => exact List.nil_prefix
  | cons e es ih =>
      rw [encodeAll_cons, List.append_assoc] at hd
      have htail : (d.window e.size d.length).toList = encodeAll es ++ rest := by
        rw [window_suffix, hd, List.drop_left' e.length_encode]
      rw [entriesOf_step, front_encode (hes e List.mem_cons_self) hd]
      dsimp only
      rw [List.prefix_cons_inj]
      apply ih
      · intro e' he'
        exact hes e' (List.mem_cons_of_mem e he')
      · exact htail

theorem MetadataEntry.entriesOf_mono {a d : Bytes} (h : a.toList <+: d.toList) :
    entriesOf a <+: entriesOf d := by
  obtain ⟨more, hmore⟩ := h
  obtain ⟨rest, hrest⟩ := decomposes_entriesOf a
  apply prefix_entriesOf hrest.encodable
  rw [← hmore, hrest.bytes_eq, List.append_assoc]

/-- A cut before the end of the size field leaves no entry area at all. -/
theorem entryArea_mono {a b : Bytes} (h : a.toList <+: b.toList) :
    (entryArea a).toList <+: (entryArea b).toList := by
  have hlen : a.length ≤ b.length := h.length_le
  by_cases hsize : 68 ≤ a.length
  · have hfield : leAt a.toList 64 4 = leAt b.toList 64 4 := leAt_of_prefix h hsize
    have hcut : a.toList.take (min (64 + leAt b.toList 64 4) a.length) =
        b.toList.take (min (64 + leAt b.toList 64 4) a.length) := by
      obtain ⟨rest, hrest⟩ := h
      rw [← hrest, List.take_append_of_le_length (Nat.min_le_right _ _)]
    rw [entryArea, entryArea, Bytes.window_toList, Bytes.window_toList, hfield, hcut]
    apply List.IsPrefix.drop
    exact List.take_prefix_take_left (by omega)
  · have hempty : (entryArea a).toList = [] := by
      apply List.eq_nil_of_length_eq_zero
      rw [entryArea, Bytes.window_toList, leAt, if_neg hsize, List.length_drop, List.length_take]
      omega
    rw [hempty]
    exact List.nil_prefix

theorem take_window {b : Bytes} {n : ℕ} :
    (b.window 0 n).toList.take 8 = sigFve ↔ 8 ≤ n ∧ b.toList.take 8 = sigFve := by
  rw [Bytes.window_toList, List.drop_zero, List.take_take]
  constructor
  · intro hsig
    have hlen := congrArg List.length hsig
    rw [List.length_take, BlockLayout.length_sigFve] at hlen
    have hcut : 8 ≤ n := by omega
    rw [Nat.min_eq_left hcut] at hsig
    exact ⟨hcut, hsig⟩
  · rintro ⟨hcut, hsig⟩
    rw [Nat.min_eq_left hcut, hsig]

/-- Cutting a block never invents metadata. -/
theorem parse_of_truncated_block (p : Profile) (b : Bytes) {n : ℕ} (hn : n ≤ b.length)
    (bytesPerSector : UInt16) :
    (FveMetadata.parse p (b.window 0 n) bytesPerSector = .ok none ↔
      n < 8 ∨ b.toList.take 8 ≠ sigFve) ∧
    (¬ (n < 8 ∨ b.toList.take 8 ≠ sigFve) →
      ∃ cut full, FveMetadata.parse p (b.window 0 n) bytesPerSector = .ok (some cut) ∧
        FveMetadata.parse p b bytesPerSector = .ok (some full) ∧
        cut.entries <+: full.entries ∧
        (∃ types types', cut.protectorTypes = .ok types ∧ full.protectorTypes = .ok types' ∧
          types <+: types') ∧
        (∀ e, cut.fvekEntry = some e → full.fvekEntry = some e) ∧
        (112 ≤ n →
          cut.encryptionMethod = full.encryptionMethod ∧ cut.volumeGuid = full.volumeGuid ∧
          cut.creationTime = full.creationTime ∧
          cut.encryptedVolumeSize = full.encryptedVolumeSize ∧
          cut.metadataOffsets = full.metadataOffsets ∧
          cut.metadataSize = full.metadataSize)) := by
  have hlen : (b.window 0 n).length = n := by rw [Bytes.window_length _ hn, Nat.sub_zero]
  have hcut : (b.window 0 n).toList <+: b.toList := by
    rw [Bytes.window_toList, List.drop_zero]
    exact List.take_prefix n b.toList
  have hsigs : ¬ (n < 8 ∨ b.toList.take 8 ≠ sigFve) ↔ (b.window 0 n).toList.take 8 = sigFve := by
    rw [take_window, not_or, Nat.not_lt, not_not]
  simp only [FveMetadata.parse_eq]
  constructor
  · rw [Except.ok.injEq, metadataOf_eq_none, ← not_iff_not, hsigs, not_not]
  · intro hvalid
    have hsig := hsigs.mp hvalid
    have hfull : b.toList.take 8 = sigFve := (take_window.mp hsig).2
    have hentries := MetadataEntry.entriesOf_mono (entryArea_mono hcut)
    rw [metadataOf, metadataOf, if_neg (not_not.mpr hsig), if_neg (not_not.mpr hfull)]
    refine ⟨_, _, rfl, rfl, hentries, ?_, ?_, ?_⟩
    · refine ⟨_, _, FveMetadata.protectorTypes_eq _, FveMetadata.protectorTypes_eq _, ?_⟩
      exact (hentries.filter _).map _
    · intro e he
      exact hentries.find?_eq_some he
    · intro hheader
      have hfield : ∀ off w, off + w ≤ 112 →
          leAt (b.window 0 n).toList off w = leAt b.toList off w := by
        intro off w hoff
        exact leAt_of_prefix hcut (by rw [← Bytes.length]; omega)
      have hguid : arrayAt 16 (b.window 0 n) 80 = arrayAt 16 b 80 :=
        arrayAt_of_prefix hcut (by omega)
      simp only [hfield 100 2 (by omega), hfield 104 8 (by omega), hfield 16 8 (by omega),
        hfield 32 8 (by omega), hfield 40 8 (by omega), hfield 48 8 (by omega),
        hfield 64 4 (by omega), hguid]
      simp

/-- Cut inside its only entry, the block keeps its header fields. -/
theorem parse_of_truncated_relocatingBlock :
    120 ≤ (Bytes.ofList relocatingBlock.encode).length ∧
      ∃ cut full,
        FveMetadata.parse .debug ((Bytes.ofList relocatingBlock.encode).window 0 120) 512 =
          .ok (some cut) ∧
        FveMetadata.parse .debug (Bytes.ofList relocatingBlock.encode) 512 = .ok (some full) ∧
        cut.entries <+: full.entries ∧ cut.metadataSize = full.metadataSize := by
  have hcut : 120 ≤ (Bytes.ofList relocatingBlock.encode).length := by decide +kernel
  have hvalid : ¬ (120 < 8 ∨ (Bytes.ofList relocatingBlock.encode).toList.take 8 ≠ sigFve) := by
    decide +kernel
  obtain ⟨cut, full, hparse, hwhole, hentries, -, -, hfields⟩ :=
    (parse_of_truncated_block .debug _ hcut 512).2 hvalid
  obtain ⟨-, -, -, -, -, hsize⟩ := hfields (by decide)
  exact ⟨hcut, cut, full, hparse, hwhole, hentries, hsize⟩

end Bitlocker
