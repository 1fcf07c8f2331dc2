import BitlockerForensic.Core.Parsing

/-!
# The layout of a metadata block

The documented encoding of entries and of a metadata block, and that the
parsers invert it.
-/

namespace Bitlocker

open RustStd

/-! ## Entries -/

namespace MetadataEntry

def Encodable (e : MetadataEntry) : Prop := e.data.length ≤ 65527

instance (e : MetadataEntry) : Decidable e.Encodable :=
  inferInstanceAs (Decidable (e.data.length ≤ 65527))

def encode (e : MetadataEntry) : List UInt8 :=
  leBytes 2 e.size ++ (leBytes 2 e.entryType.toNat ++ (leBytes 2 e.valueType.toNat ++
    (leBytes 2 e.version.toNat ++ e.data.toList)))

def encodeAll (es : List MetadataEntry) : List UInt8 := es.flatMap encode

@[simp] theorem length_encode (e : MetadataEntry) : e.encode.length = e.size := by
  simp only [encode, List.length_append, length_leBytes, size, Bytes.length]
  omega

@[simp] theorem encodeAll_nil : encodeAll [] = [] := rfl

@[simp] theorem encodeAll_cons (e : MetadataEntry) (es : List MetadataEntry) :
    encodeAll (e :: es) = e.encode ++ encodeAll es := rfl

theorem front_encode {e : MetadataEntry} (he : e.Encodable) {d : Bytes} {rest : List UInt8}
    (hd : d.toList = e.encode ++ rest) : front d = some e := by
  have hlen : d.length = e.size + rest.length := by
    rw [Bytes.length, hd, List.length_append, length_encode]
  have hsize : e.size = 8 + e.data.length := rfl
  have hsizeField : leAt d.toList 0 2 = e.size := by
    unfold Encodable at he
    rw [hd, encode, List.append_assoc, leAt_leBytes, Nat.mod_eq_of_lt (by omega)]
  have hdata : d.window 8 e.size = e.data := by
    apply Bytes.ext
    rw [Bytes.window_toList, hd, List.take_left' e.length_encode, encode]
    simp only [← List.append_assoc]
    rw [List.drop_left' (by simp)]
  rw [front, hsizeField, if_pos (by omega), hdata, hd, encode]
  simp (disch := simp) only [List.append_assoc, leAt_append, length_leBytes, Nat.reduceSub,
    ofNat_leAt_16]

theorem entriesOf_encodeAll {es : List MetadataEntry} (hes : ∀ e ∈ es, e.Encodable) {d : Bytes}
    {rest : Bytes} (hrest : front rest = none) (hd : d.toList = encodeAll es ++ rest.toList) :
    entriesOf d = es := by
  induction es generalizing d with
  | nil =>
      have heq : d = rest := Bytes.ext hd
      rw [entriesOf_step, heq, hrest]
  | cons e es ih =>
      have he := hes e List.mem_cons_self
      rw [encodeAll_cons, List.append_assoc] at hd
      have htail : (d.window e.size d.length).toList = encodeAll es ++ rest.toList := by
        rw [window_suffix, hd, List.drop_left' e.length_encode]
      rw [entriesOf_step, front_encode he hd]
      simp only
      rw [ih (fun e' he' ↦ hes e' (List.mem_cons_of_mem e he')) htail]

theorem nestedOf_encodeAll {e : MetadataEntry} {es : List MetadataEntry}
    (hes : ∀ q ∈ es, q.Encodable) {lead : List UInt8}
    (hdata : e.data.toList = lead ++ encodeAll es) : e.nestedOf lead.length = es := by
  have hlead : min lead.length e.data.length = lead.length := by
    rw [Bytes.length, hdata, List.length_append]
    omega
  have hwindow : (e.data.window lead.length e.data.length).toList =
      encodeAll es ++ Bytes.empty.toList := by
    rw [window_suffix, hdata, List.drop_left]
    exact (List.append_nil _).symm
  rw [nestedOf, hlead]
  exact entriesOf_encodeAll hes (by decide) hwindow

/-- A VMK entry: 26 bytes, the protection type, then its properties. -/
structure VmkLayout (e : MetadataEntry) (protectorType : UInt16) (props : List MetadataEntry) :
    Prop where
  isVmk : e.isVmk = true
  encodable : ∀ q ∈ props, q.Encodable
  data_eq : ∃ lead : Octets 26,
    e.data.toList = lead.toList ++ (leBytes 2 protectorType.toNat ++ encodeAll props)

namespace VmkLayout

variable {e : MetadataEntry} {protectorType : UInt16} {props : List MetadataEntry}

theorem typeField_eq (h : VmkLayout e protectorType props) : e.typeField = protectorType := by
  obtain ⟨lead, hdata⟩ := h.data_eq
  rw [typeField, hdata, leAt_append 2 (by simp), lead.length_eq, ofNat_leAt_16]

theorem nestedOf_eq (h : VmkLayout e protectorType props) : e.nestedOf 28 = props := by
  obtain ⟨lead, hdata⟩ := h.data_eq
  have hlen : (lead.toList ++ leBytes 2 protectorType.toNat).length = 28 := by simp
  rw [← hlen]
  exact nestedOf_encodeAll h.encodable (by rw [hdata, List.append_assoc])

end VmkLayout

end MetadataEntry

/-! ## Blocks -/

/-- The contents of a metadata block: the fields the parser reads, and the
bytes between them that it skips. -/
structure BlockLayout where
  encryptedVolumeSize : UInt64
  volumeHeaderSectors : UInt32
  metadataOffsets : UInt64 × UInt64 × UInt64
  volumeHeaderOffset : UInt64
  volumeGuid : Octets 16
  encryptionMethod : UInt16
  creationTime : UInt64
  entries : List MetadataEntry
  skipped8 : Octets 8
  skipped24 : Octets 4
  skipped68 : Octets 12
  skipped96 : Octets 4
  skipped102 : Octets 2
  encodable : ∀ e ∈ entries, e.Encodable
  size_lt : 48 + (MetadataEntry.encodeAll entries).length < 2 ^ 32

namespace BlockLayout

def metadataSize (b : BlockLayout) : ℕ := 48 + (MetadataEntry.encodeAll b.entries).length

def encode (b : BlockLayout) : List UInt8 :=
  -- the block header
  sigFve ++ (b.skipped8.toList ++ (leBytes 8 b.encryptedVolumeSize.toNat ++
    (b.skipped24.toList ++ (leBytes 4 b.volumeHeaderSectors.toNat ++
    (leBytes 8 b.metadataOffsets.1.toNat ++ (leBytes 8 b.metadataOffsets.2.1.toNat ++
    (leBytes 8 b.metadataOffsets.2.2.toNat ++ (leBytes 8 b.volumeHeaderOffset.toNat ++
  -- the metadata header
    (leBytes 4 b.metadataSize ++ (b.skipped68.toList ++ (b.volumeGuid.toList ++
    (b.skipped96.toList ++ (leBytes 2 b.encryptionMethod.toNat ++ (b.skipped102.toList ++
    (leBytes 8 b.creationTime.toNat ++ MetadataEntry.encodeAll b.entries)))))))))))))))

def metadata (b : BlockLayout) (bytesPerSector : UInt16) : FveMetadata :=
  let region := relocatedRegion b.entries b.volumeHeaderOffset
    (b.volumeHeaderSectors.toUInt64 * bytesPerSector.toUInt64)
  { encryptionMethod := b.encryptionMethod
    volumeGuid := b.volumeGuid
    creationTime := b.creationTime
    entries := b.entries
    encryptedVolumeSize := b.encryptedVolumeSize
    volumeHeaderOffset := region.1
    volumeHeaderSize := region.2
    metadataOffsets :=
      ⟨[b.metadataOffsets.1, b.metadataOffsets.2.1, b.metadataOffsets.2.2], rfl⟩
    metadataSize := UInt32.ofNat b.metadataSize }

@[simp] theorem length_sigFve : sigFve.length = 8 := by decide

@[simp] theorem length_encode (b : BlockLayout) : b.encode.length = 64 + b.metadataSize := by
  simp only [encode, List.length_append, length_leBytes, FixedArray.length_eq, length_sigFve,
    metadataSize]
  omega

/-- The parser inverts the layout and ignores what follows the block. -/
theorem metadataOf_encode (b : BlockLayout) {block : Bytes} {trailing : List UInt8}
    (hblock : block.toList = b.encode ++ trailing) (bytesPerSector : UInt16) :
    metadataOf block bytesPerSector = some (b.metadata bytesPerSector) := by
  have hsig : block.toList.take 8 = sigFve := by
    rw [hblock, encode, List.append_assoc, List.take_left' length_sigFve]
  have hsize : leAt block.toList 64 4 = b.metadataSize := by
    rw [hblock, encode]
    simp (disch := simp) only [List.append_assoc, leAt_append,
      length_leBytes, FixedArray.length_eq, length_sigFve, Nat.reduceSub, leAt_leBytes]
    exact Nat.mod_eq_of_lt b.size_lt
  have hlen : block.length = 64 + b.metadataSize + trailing.length := by
    rw [Bytes.length, hblock, List.length_append, length_encode]
  have hmin : 48 ≤ b.metadataSize := Nat.le_add_right 48 _
  have hguid : arrayAt 16 block 80 = b.volumeGuid := by
    have hfield : block.toList.drop 80 = b.volumeGuid.toList ++ block.toList.drop 96 := by
      rw [hblock, encode]
      simp (disch := simp) only [List.append_assoc, drop_append_ge, length_leBytes,
        FixedArray.length_eq, length_sigFve, Nat.reduceSub, List.drop_zero]
    exact arrayAt_eq (by omega) hfield
  have harea : (entryArea block).toList =
      MetadataEntry.encodeAll b.entries ++ Bytes.empty.toList := by
    have hend : min (64 + leAt block.toList 64 4) block.length = b.encode.length := by
      rw [hsize, length_encode]
      omega
    rw [entryArea, hend, Bytes.window_toList, hblock, List.take_left, encode]
    simp (disch := simp) only [drop_append_ge, length_leBytes, FixedArray.length_eq,
      length_sigFve, Nat.reduceSub, List.drop_zero]
    exact (List.append_nil _).symm
  have hentries : MetadataEntry.entriesOf (entryArea block) = b.entries :=
    MetadataEntry.entriesOf_encodeAll b.encodable (by decide) harea
  rw [metadataOf, if_neg (not_not.mpr hsig)]
  simp only [hentries, hguid, hsize, metadata]
  rw [hblock, encode]
  simp (disch := simp) only [List.append_assoc, leAt_append,
    length_leBytes, FixedArray.length_eq, length_sigFve, Nat.reduceSub, ofNat_leAt_16,
    ofNat_leAt_32, ofNat_leAt_64]

end BlockLayout

end Bitlocker
