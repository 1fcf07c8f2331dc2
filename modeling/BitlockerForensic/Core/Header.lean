import BitlockerForensic.Core.Bytes
import BitlockerForensic.Core.Error

/-!
# The volume header

The first 512-byte sector identifies the on-disk variant and locates the three
FVE metadata blocks (`core/src/header.rs`).
-/

namespace Bitlocker

open RustStd

inductive BdeVariant where
  | windowsVista
  | windows7OrLater
  | bitLockerToGo
  deriving DecidableEq

structure VolumeHeader where
  variant : BdeVariant
  bytesPerSector : UInt16
  bitlockerGuid : Octets 16
  fveMetadataOffsets : FixedArray UInt64 3
  deriving DecidableEq

/-- `b"-FVE-FS-"`. -/
def sigFve : List UInt8 := [0x2d, 0x46, 0x56, 0x45, 0x2d, 0x46, 0x53, 0x2d]

/-- `b"MSWIN4.1"`. -/
def sigToGo : List UInt8 := [0x4d, 0x53, 0x57, 0x49, 0x4e, 0x34, 0x2e, 0x31]

def bootWin7 : List UInt8 := [0xeb, 0x58, 0x90]

namespace VolumeHeader

def parse (p : Profile) (sector : Bytes) : Res BdeError VolumeHeader := do
  let signature ← readArray 8 sector 3
  let bytesPerSector ← leU16 sector 11
  let bytesPerSector := if bytesPerSector = 0 then 512 else bytesPerSector
  if signature.toList = sigToGo then
    return {
      variant := .bitLockerToGo
      bytesPerSector := bytesPerSector
      bitlockerGuid := ← readGuid sector 424
      fveMetadataOffsets :=
        ⟨[← leU64 sector 440, ← leU64 sector 448, ← leU64 sector 456], rfl⟩ }
  if signature.toList = sigFve then
    let boot := ((sector.get 0 3).getD Bytes.empty).toList
    if boot = bootWin7 then
      return {
        variant := .windows7OrLater
        bytesPerSector := bytesPerSector
        bitlockerGuid := ← readGuid sector 160
        fveMetadataOffsets :=
          ⟨[← leU64 sector 176, ← leU64 sector 184, ← leU64 sector 192], rfl⟩ }
    -- Vista stores block 1 as a cluster number; the block header has all three.
    let sectorsPerCluster := (max (sector.toList[13]?.getD 1) 1).toUInt64
    let clusterSize ← p.mulU64 bytesPerSector.toUInt64 sectorsPerCluster
    let block1 := saturatingMulU64 (← leU64 sector 56) clusterSize
    return {
      variant := .windowsVista
      bytesPerSector := bytesPerSector
      bitlockerGuid := zeros 16
      fveMetadataOffsets := ⟨[block1, 0, 0], rfl⟩ }
  throw (.err (.notBitLocker signature))

end VolumeHeader

end Bitlocker
