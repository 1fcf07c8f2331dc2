import BitlockerForensic.Core.Metadata

/-!
# What the parsers compute

Each parser of the volume header, the metadata block and the entry sequence
equals a total function of its bytes, under either build profile.  In
particular none of them panics or runs out of steps.
-/

namespace Bitlocker

open RustStd

/-! ## Entry sequences -/

namespace MetadataEntry

def size (e : MetadataEntry) : ℕ := 8 + e.data.length

def front (d : Bytes) : Option MetadataEntry :=
  let size := leAt d.toList 0 2
  if 8 ≤ d.length ∧ 8 ≤ size ∧ size ≤ d.length then
    some {
      entryType := UInt16.ofNat (leAt d.toList 2 2)
      valueType := UInt16.ofNat (leAt d.toList 4 2)
      version := UInt16.ofNat (leAt d.toList 6 2)
      data := d.window 8 size }
  else none

def entriesUpTo : ℕ → Bytes → List MetadataEntry
  | 0, _ => []
  | n + 1, d =>
      match front d with
      | none => []
      | some e => e :: entriesUpTo n (d.window e.size d.length)

/-- The longest run of complete entries at the front of the bytes. -/
def entriesOf (d : Bytes) : List MetadataEntry := entriesUpTo d.length d

theorem size_of_front {d : Bytes} {e : MetadataEntry} (h : front d = some e) :
    e.size = leAt d.toList 0 2 ∧ 8 ≤ e.size ∧ e.size ≤ d.length := by
  simp only [front] at h
  split at h
  · rename_i hcond
    obtain ⟨hlen, hmin, hmax⟩ := hcond
    cases h
    have hdata : (d.window 8 (leAt d.toList 0 2)).length = leAt d.toList 0 2 - 8 :=
      d.window_length hmax
    simp only [size, hdata]
    omega
  · cases h

theorem entriesUpTo_of_le (d : Bytes) {n : ℕ} (h : d.length ≤ n) :
    entriesUpTo n d = entriesOf d := by
  have hstable : ∀ n m (d : Bytes), d.length ≤ n → d.length ≤ m →
      entriesUpTo n d = entriesUpTo m d := by
    intro n
    induction n with
    | zero =>
        intro m d hn hm
        have hfront : front d = none := by
          unfold front
          rw [if_neg]
          omega
        cases m with
        | zero => rfl
        | succ m => simp [entriesUpTo, hfront]
    | succ n ih =>
        intro m d hn hm
        cases hf : front d with
        | none => cases m <;> simp [entriesUpTo, hf]
        | some e =>
            obtain ⟨-, hmin, hmax⟩ := size_of_front hf
            have hrest : (d.window e.size d.length).length = d.length - e.size :=
              d.window_length (le_refl _)
            cases m with
            | zero => omega
            | succ m =>
                simp only [entriesUpTo, hf]
                rw [ih m _ (by omega) (by omega)]
  exact hstable n d.length d h (le_refl _)

theorem entriesOf_step (d : Bytes) :
    entriesOf d = match front d with
      | none => []
      | some e => e :: entriesOf (d.window e.size d.length) := by
  cases hf : front d with
  | none =>
      unfold entriesOf
      cases d.length <;> simp [entriesUpTo, hf]
  | some e =>
      obtain ⟨-, hmin, hmax⟩ := size_of_front hf
      have hrest : (d.window e.size d.length).length = d.length - e.size :=
        d.window_length (le_refl _)
      obtain ⟨n, hn⟩ : ∃ n, d.length = n + 1 := ⟨d.length - 1, by omega⟩
      have hunfold : entriesOf d = e :: entriesUpTo n (d.window e.size d.length) := by
        rw [entriesOf]
        conv_lhs => rw [hn]
        simp only [entriesUpTo, hf]
      rw [hunfold, entriesUpTo_of_le _ (by omega)]

theorem leAt_drop (l : List UInt8) {n : ℕ} (hn : n ≤ l.length) (off w : ℕ) :
    leAt (l.drop n) off w = leAt l (n + off) w := by
  unfold leAt
  rw [List.length_drop]
  by_cases h : n + off + w ≤ l.length
  · rw [if_pos (by omega), if_pos h, List.take_drop, List.drop_drop, Nat.add_assoc]
  · rw [if_neg (by omega), if_neg h]

theorem window_suffix (d : Bytes) (pos : ℕ) :
    (d.window pos d.length).toList = d.toList.drop pos := by
  rw [Bytes.window_toList, List.take_length]

theorem parseSequenceLoop_succ (p : Profile) (d : Bytes) (fuel pos : ℕ)
    (out : List MetadataEntry) (hpos : pos ≤ d.length) :
    parseSequenceLoop p d (fuel + 1) pos out =
      match front (d.window pos d.length) with
      | none => .ok out
      | some e => parseSequenceLoop p d fuel (pos + e.size) (out ++ [e]) := by
  have hlt := d.length_lt
  have hlen : (d.window pos d.length).length = d.length - pos := d.window_length (le_refl _)
  have hread : ∀ off w, leAt (d.window pos d.length).toList off w =
      leAt d.toList (pos + off) w := by
    intro off w
    rw [window_suffix, leAt_drop _ hpos]
  have hsize : leAt d.toList pos 2 < 2 ^ 16 := leAt_lt d.toList pos 2
  have hnat : (UInt16.ofNat (leAt d.toList pos 2)).toNat = leAt d.toList pos 2 :=
    UInt16.toNat_ofNat_of_lt hsize
  have hfront : front (d.window pos d.length) =
      if pos + 8 ≤ d.length ∧ 8 ≤ leAt d.toList pos 2 ∧ pos + leAt d.toList pos 2 ≤ d.length then
        some {
          entryType := UInt16.ofNat (leAt d.toList (pos + 2) 2)
          valueType := UInt16.ofNat (leAt d.toList (pos + 4) 2)
          version := UInt16.ofNat (leAt d.toList (pos + 6) 2)
          data := (d.window pos d.length).window 8 (leAt d.toList pos 2) }
      else none := by
    simp only [front, hread, Nat.add_zero, hlen]
    by_cases h : pos + 8 ≤ d.length ∧ 8 ≤ leAt d.toList pos 2 ∧
        pos + leAt d.toList pos 2 ≤ d.length
    · rw [if_pos h, if_pos (by omega)]
    · rw [if_neg h, if_neg (by omega)]
  rw [parseSequenceLoop, p.addUsize_ok (by omega), ok_bind]
  by_cases hhead : pos + 8 ≤ d.length
  · rw [if_pos hhead, leU16_eq, ok_bind, hnat]
    generalize hn : leAt d.toList pos 2 = n at *
    by_cases hsmall : n < 8
    · rw [if_pos hsmall, hfront, if_neg (by omega)]
      rfl
    · rw [if_neg hsmall, p.addUsize_ok (by omega), ok_bind]
      by_cases hover : pos + n > d.length
      · rw [if_pos hover, hfront, if_neg (by omega)]
        rfl
      · have hwindow : d.window (pos + 8) (pos + 8 + (n - 8)) =
            (d.window pos d.length).window 8 n := by
          apply Bytes.ext
          rw [Bytes.window_toList, Bytes.window_toList, window_suffix, List.take_drop,
            List.drop_drop]
          congr 2
          omega
        have hdata : 8 + ((d.window pos d.length).window 8 n).length = n := by
          rw [Bytes.window_length _ (by omega)]
          omega
        rw [if_neg hover, hfront, if_pos (by omega)]
        simp (disch := omega) only [p.addUsize_ok, p.subUsize_ok, leU16_eq, ok_bind,
          sliceOwned_eq, hwindow, size, hdata]
  · rw [if_neg hhead, hfront, if_neg (by omega)]
    rfl

theorem parseSequenceLoop_eq (p : Profile) (d : Bytes) (fuel pos : ℕ)
    (out : List MetadataEntry) (hpos : pos ≤ d.length) (hfuel : d.length - pos < fuel) :
    parseSequenceLoop p d fuel pos out =
      .ok (out ++ entriesOf (d.window pos d.length)) := by
  induction fuel generalizing pos out with
  | zero => omega
  | succ fuel ih =>
      rw [parseSequenceLoop_succ p d fuel pos out hpos, entriesOf_step]
      cases hf : front (d.window pos d.length) with
      | none => simp
      | some e =>
          obtain ⟨-, hmin, hmax⟩ := size_of_front hf
          have hlen : (d.window pos d.length).length = d.length - pos :=
            d.window_length (le_refl _)
          have hnext : (d.window pos d.length).window e.size (d.window pos d.length).length =
              d.window (pos + e.size) d.length := by
            apply Bytes.ext
            rw [window_suffix, window_suffix, window_suffix, List.drop_drop]
          simp only [hnext]
          rw [ih (pos + e.size) (out ++ [e]) (by omega) (by omega), List.append_assoc]
          rfl

@[simp] theorem parseSequence_eq (p : Profile) (d : Bytes) :
    parseSequence p d = .ok (entriesOf d) := by
  have hwhole : d.window 0 d.length = d := by
    apply Bytes.ext
    simp
  rw [parseSequence, parseSequenceLoop_eq p d _ 0 [] (by omega) (by omega), hwhole,
    List.nil_append]

def nestedOf (e : MetadataEntry) (offset : ℕ) : List MetadataEntry :=
  entriesOf (e.data.window (min offset e.data.length) e.data.length)

@[simp] theorem nested_eq (p : Profile) (e : MetadataEntry) (offset : ℕ) :
    e.nested p offset = .ok (e.nestedOf offset) := by
  rw [nested, Bytes.slice_ok (by omega) (le_refl _), ok_bind, parseSequence_eq]
  rfl

/-- The value `protection_type` reports for a VMK entry: the stored type, or 0
for an entry too short to store one. -/
def typeField (e : MetadataEntry) : UInt16 := UInt16.ofNat (leAt e.data.toList 26 2)

@[simp] theorem protectionType_eq (e : MetadataEntry) :
    e.protectionType = .ok (if e.isVmk then some e.typeField else none) := by
  unfold protectionType
  split
  · rw [leU16_eq]
    rfl
  · rfl

end MetadataEntry

/-! ## The volume header -/

def headerOf (sector : Bytes) : Option VolumeHeader :=
  let signature := arrayAt 8 sector 3
  let field := UInt16.ofNat (leAt sector.toList 11 2)
  let bytesPerSector := if field = 0 then 512 else field
  let u64At := fun off ↦ UInt64.ofNat (leAt sector.toList off 8)
  if signature.toList = sigToGo then
    some ⟨.bitLockerToGo, bytesPerSector, arrayAt 16 sector 424,
      ⟨[u64At 440, u64At 448, u64At 456], rfl⟩⟩
  else if signature.toList = sigFve then
    if ((sector.get 0 3).getD Bytes.empty).toList = bootWin7 then
      some ⟨.windows7OrLater, bytesPerSector, arrayAt 16 sector 160,
        ⟨[u64At 176, u64At 184, u64At 192], rfl⟩⟩
    else
      let cluster := bytesPerSector.toUInt64 * (max (sector.toList[13]?.getD 1) 1).toUInt64
      some ⟨.windowsVista, bytesPerSector, zeros 16,
        ⟨[saturatingMulU64 (u64At 56) cluster, 0, 0], rfl⟩⟩
  else none

theorem mul_fits {a b m n : ℕ} (ha : a < 2 ^ m) (hb : b < 2 ^ n) (h : m + n ≤ 64) :
    a * b < 2 ^ 64 := by
  calc
    a * b < 2 ^ m * 2 ^ n := Nat.mul_lt_mul'' ha hb
    _ = 2 ^ (m + n) := (pow_add 2 m n).symm
    _ ≤ 2 ^ 64 := Nat.pow_le_pow_right (by decide) h

theorem clusterSize_ok (p : Profile) (a : UInt16) (b : UInt8) :
    p.mulU64 a.toUInt64 b.toUInt64 = .ok (a.toUInt64 * b.toUInt64) := by
  apply p.mulU64_ok
  rw [UInt16.toNat_toUInt64, UInt8.toNat_toUInt64]
  exact mul_fits a.toNat_lt b.toNat_lt (by decide)

theorem VolumeHeader.parse_eq (p : Profile) (sector : Bytes) :
    VolumeHeader.parse p sector =
      okOr (headerOf sector) (.notBitLocker (arrayAt 8 sector 3)) := by
  unfold VolumeHeader.parse headerOf
  simp only [readArray_eq, leU16_eq, leU64_eq, readGuid_eq, clusterSize_ok, monadLift_ok, ok_bind]
  split
  · rfl
  · split
    · split
      · rfl
      · rfl
    · rfl

/-! ## The metadata block -/

def relocatedRegion (entries : List MetadataEntry) (blockOffset blockSize : UInt64) :
    UInt64 × UInt64 :=
  match entries.find? (fun e ↦ e.entryType = entryTypeVolumeHeader) with
  | some e =>
      let bo := UInt64.ofNat (leAt e.data.toList 0 8)
      let bs := UInt64.ofNat (leAt e.data.toList 8 8)
      (if bo ≠ 0 then bo else blockOffset, if bs ≠ 0 then bs else blockSize)
  | none => (blockOffset, blockSize)

/-- The entry area of a block: what `metadata_size` announces and the block
holds, after the two headers. -/
def entryArea (block : Bytes) : Bytes :=
  block.window 112 (min (64 + leAt block.toList 64 4) block.length)

def metadataOf (block : Bytes) (bytesPerSector : UInt16) : Option FveMetadata :=
  if block.toList.take 8 ≠ sigFve then none
  else
    let u64At := fun off ↦ UInt64.ofNat (leAt block.toList off 8)
    let entries := MetadataEntry.entriesOf (entryArea block)
    let sectors := UInt32.ofNat (leAt block.toList 28 4)
    let region := relocatedRegion entries (u64At 56) (sectors.toUInt64 * bytesPerSector.toUInt64)
    some {
      encryptionMethod := UInt16.ofNat (leAt block.toList 100 2)
      volumeGuid := arrayAt 16 block 80
      creationTime := u64At 104
      entries := entries
      encryptedVolumeSize := u64At 16
      volumeHeaderOffset := region.1
      volumeHeaderSize := region.2
      metadataOffsets := ⟨[u64At 32, u64At 40, u64At 48], rfl⟩
      metadataSize := UInt32.ofNat (leAt block.toList 64 4) }

theorem metadataOf_eq_none {block : Bytes} {bytesPerSector : UInt16} :
    metadataOf block bytesPerSector = none ↔ block.toList.take 8 ≠ sigFve := by
  unfold metadataOf
  split
  · rename_i hsig
    exact ⟨fun _ ↦ hsig, fun _ ↦ rfl⟩
  · rename_i hsig
    exact ⟨fun h ↦ (by cases h), fun h ↦ absurd h hsig⟩

theorem headerSize_ok (p : Profile) (a : UInt32) (b : UInt16) :
    p.mulU64 a.toUInt64 b.toUInt64 = .ok (a.toUInt64 * b.toUInt64) := by
  apply p.mulU64_ok
  rw [UInt32.toNat_toUInt64, UInt16.toNat_toUInt64]
  exact mul_fits a.toNat_lt b.toNat_lt (by decide)

theorem signature_test (block : Bytes) :
    (block.get 0 8).map Bytes.toList ≠ some sigFve ↔ block.toList.take 8 ≠ sigFve := by
  by_cases h : 8 ≤ block.toList.length
  · rw [Bytes.get, if_pos ⟨by omega, h⟩]
    simp
  · rw [Bytes.get, if_neg (fun hrange ↦ h hrange.2)]
    simp only [Option.map_none, ne_eq, reduceCtorEq, not_false_eq_true, true_iff]
    intro hsig
    have hlen := congrArg List.length hsig
    rw [List.length_take] at hlen
    have : sigFve.length = 8 := rfl
    omega

namespace FveMetadata

theorem parseEntries_eq (p : Profile) (block : Bytes) :
    parseEntries p block (UInt32.ofNat (leAt block.toList 64 4)) =
      .ok (MetadataEntry.entriesOf (entryArea block)) := by
  have hsize : leAt block.toList 64 4 < 2 ^ 32 := leAt_lt block.toList 64 4
  have hnat : (UInt32.ofNat (leAt block.toList 64 4)).toNat = leAt block.toList 64 4 :=
    UInt32.toNat_ofNat_of_lt hsize
  simp only [parseEntries]
  rw [hnat, p.addUsize_ok (by omega), ok_bind]
  split
  · rename_i h
    rw [Bytes.slice_ok (by omega) (by omega), ok_bind, MetadataEntry.parseSequence_eq]
    rfl
  · rename_i h
    have hempty : (entryArea block).length = 0 := by
      rw [entryArea, Bytes.window_length _ (by omega)]
      omega
    have hnone : MetadataEntry.front (entryArea block) = none := by
      unfold MetadataEntry.front
      rw [if_neg (by omega)]
    rw [MetadataEntry.entriesOf_step, hnone]
    rfl

@[simp] theorem volumeHeaderRegion_eq (entries : List MetadataEntry)
    (blockOffset headerSize : UInt64) :
    volumeHeaderRegion entries blockOffset headerSize =
      .ok (relocatedRegion entries blockOffset headerSize) := by
  unfold volumeHeaderRegion relocatedRegion
  cases entries.find? (fun e ↦ e.entryType = entryTypeVolumeHeader) with
  | none => rfl
  | some e =>
      simp only [leU64_eq, ok_bind]
      rfl

theorem parse_eq (p : Profile) (block : Bytes) (bytesPerSector : UInt16) :
    parse p block bytesPerSector = .ok (metadataOf block bytesPerSector) := by
  unfold parse metadataOf
  by_cases hsig : block.toList.take 8 ≠ sigFve
  · rw [if_pos ((signature_test block).mpr hsig), if_pos hsig]
    rfl
  · rw [if_neg (mt (signature_test block).mp hsig), if_neg hsig]
    simp only [leU64_eq, leU32_eq, leU16_eq, readGuid_eq, ok_bind, headerSize_ok,
      parseEntries_eq, volumeHeaderRegion_eq]
    rfl

theorem mem_vmkEntries {md : FveMetadata} {e : MetadataEntry} :
    e ∈ md.vmkEntries ↔ e ∈ md.entries ∧ e.isVmk = true := by
  rw [vmkEntries, List.mem_filter]

@[simp] theorem protectorTypes_eq (md : FveMetadata) :
    md.protectorTypes = .ok (md.vmkEntries.map MetadataEntry.typeField) := by
  rw [protectorTypes, filterMapM_ok MetadataEntry.protectionType_eq]
  congr 1
  have hvmk : ∀ e ∈ md.vmkEntries, (if e.isVmk then some e.typeField else none) =
      some e.typeField := by
    intro e he
    rw [if_pos (mem_vmkEntries.mp he).2]
  rw [List.filterMap_congr hvmk]
  exact congrFun List.filterMap_eq_map md.vmkEntries

end FveMetadata

end Bitlocker
