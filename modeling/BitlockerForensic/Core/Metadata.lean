import BitlockerForensic.Core.Header

/-!
# FVE metadata blocks

The block header, the metadata header and the recursive entry array of an FVE
metadata block (`core/src/metadata.rs`).
-/

namespace Bitlocker

open RustStd

def entryTypeVmk : UInt16 := 0x0002
def entryTypeFvek : UInt16 := 0x0003
def entryTypeVolumeHeader : UInt16 := 0x000f

def valueTypeKey : UInt16 := 0x0001
def valueTypeStretch : UInt16 := 0x0003
def valueTypeAesCcm : UInt16 := 0x0005
def valueTypeVmk : UInt16 := 0x0008
def valueTypeExternalKey : UInt16 := 0x0009

def protectionPassword : UInt16 := 0x2000
def protectionRecovery : UInt16 := 0x0800
def protectionStartupKey : UInt16 := 0x0200
def protectionClear : UInt16 := 0x0000

structure MetadataEntry where
  entryType : UInt16
  valueType : UInt16
  version : UInt16
  data : Bytes
  deriving DecidableEq

namespace MetadataEntry

/-- The loop of `parse_sequence`, from byte `pos` with `out` already pushed. -/
def parseSequenceLoop (p : Profile) (data : Bytes) :
    ℕ → ℕ → List MetadataEntry → Eval (List MetadataEntry)
  | 0, _, _ => .error .outOfFuel
  | fuel + 1, pos, out => do
      if (← p.addUsize pos 8) ≤ data.length then
        let size := (← leU16 data pos).toNat
        if size < 8 then return out
        if (← p.addUsize pos size) > data.length then return out
        let e : MetadataEntry := {
          entryType := ← leU16 data (← p.addUsize pos 2)
          valueType := ← leU16 data (← p.addUsize pos 4)
          version := ← leU16 data (← p.addUsize pos 6)
          data := sliceOwned data (← p.addUsize pos 8) (← p.subUsize size 8) }
        parseSequenceLoop p data fuel (← p.addUsize pos size) (out ++ [e])
      else return out

def parseSequence (p : Profile) (data : Bytes) : Eval (List MetadataEntry) :=
  parseSequenceLoop p data (data.length + 1) 0 []

def nested (p : Profile) (e : MetadataEntry) (offset : ℕ) : Eval (List MetadataEntry) := do
  let start := min offset e.data.length
  parseSequence p (← e.data.slice start e.data.length)

def isVmk (e : MetadataEntry) : Bool :=
  e.entryType = entryTypeVmk ∧ e.valueType = valueTypeVmk

def protectionType (e : MetadataEntry) : Eval (Option UInt16) :=
  if e.isVmk then some <$> leU16 e.data 26 else pure none

end MetadataEntry

structure FveMetadata where
  encryptionMethod : UInt16
  volumeGuid : Octets 16
  creationTime : UInt64
  entries : List MetadataEntry
  encryptedVolumeSize : UInt64
  volumeHeaderOffset : UInt64
  volumeHeaderSize : UInt64
  metadataOffsets : FixedArray UInt64 3
  metadataSize : UInt32
  deriving DecidableEq

namespace FveMetadata

def parseEntries (p : Profile) (block : Bytes) (metadataSize : UInt32) :
    Eval (List MetadataEntry) := do
  let entriesStart := 64 + 48
  let entriesEnd := min (← p.addUsize 64 metadataSize.toNat) block.length
  if entriesEnd > entriesStart then
    MetadataEntry.parseSequence p (← block.slice entriesStart entriesEnd)
  else pure []

/-- The relocated region.  The 0x000f entry, where present, overrides the
block-header fields. -/
def volumeHeaderRegion (entries : List MetadataEntry) (blockOffset headerSize : UInt64) :
    Eval (UInt64 × UInt64) :=
  match entries.find? (fun e ↦ e.entryType = entryTypeVolumeHeader) with
  | some e => do
      let bo ← leU64 e.data 0
      let bs ← leU64 e.data 8
      pure (if bo ≠ 0 then bo else blockOffset, if bs ≠ 0 then bs else headerSize)
  | none => pure (blockOffset, headerSize)

def parse (p : Profile) (block : Bytes) (bytesPerSector : UInt16) :
    Eval (Option FveMetadata) := do
  if (block.get 0 8).map Bytes.toList ≠ some sigFve then return none
  let encryptedVolumeSize ← leU64 block 16
  let numVolumeHeaderSectors ← leU32 block 28
  let offset1 ← leU64 block 32
  let offset2 ← leU64 block 40
  let offset3 ← leU64 block 48
  let blockVolumeHeaderOffset ← leU64 block 56
  -- The metadata header starts at block offset 64.
  let metadataSize ← leU32 block 64
  let volumeGuid ← readGuid block (64 + 16)
  let encryptionMethod ← leU16 block (64 + 36)
  let creationTime ← leU64 block (64 + 40)
  let entries ← parseEntries p block metadataSize
  let headerSize ← p.mulU64 numVolumeHeaderSectors.toUInt64 bytesPerSector.toUInt64
  let (volumeHeaderOffset, volumeHeaderSize) ←
    volumeHeaderRegion entries blockVolumeHeaderOffset headerSize
  return some {
    encryptionMethod := encryptionMethod
    volumeGuid := volumeGuid
    creationTime := creationTime
    entries := entries
    encryptedVolumeSize := encryptedVolumeSize
    volumeHeaderOffset := volumeHeaderOffset
    volumeHeaderSize := volumeHeaderSize
    metadataOffsets := ⟨[offset1, offset2, offset3], FixedArray.length_triple _ _ _⟩
    metadataSize := metadataSize }

def vmkEntries (md : FveMetadata) : List MetadataEntry :=
  md.entries.filter MetadataEntry.isVmk

def protectorTypes (md : FveMetadata) : Eval (List UInt16) :=
  md.vmkEntries.filterMapM MetadataEntry.protectionType

def fvekEntry (md : FveMetadata) : Option MetadataEntry :=
  md.entries.find? fun e ↦ e.entryType = entryTypeFvek ∧ e.valueType = valueTypeAesCcm

end FveMetadata

end Bitlocker
