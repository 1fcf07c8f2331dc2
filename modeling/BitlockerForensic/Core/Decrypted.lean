import BitlockerForensic.Std.Device
import BitlockerForensic.Core.Volume

/-!
# The decrypted view

`DecryptedVolume` as a positioned reader and as `Read + Seek`
(`core/src/volume.rs`).  The read path only asks its cipher to decrypt a
sector at a byte offset, so it is written over any type of ciphers.
-/

namespace Bitlocker

open RustStd

class SectorDecrypt (C : Type) where
  decryptSector : C → List UInt8 → UInt64 → List UInt8

instance (P : Crates) : SectorDecrypt (SectorCipher P) where
  decryptSector := SectorCipher.decryptSector

def methodNone : UInt16 := 0x0000

namespace DecryptedVolume

variable {C : Type}

instance : HoldsReader (DecryptedVolume C) where
  reader v := v.reader
  withReader v r := { v with reader := r }
  reader_withReader _ _ := rfl
  withReader_withReader _ _ _ := rfl
  withReader_reader _ := rfl

/-- Whether a metadata block covers the sector.  The end of a block is only
computed when the sector is at or past its start. -/
def inMetadataRegion (p : Profile) (metaSize sectorStart : UInt64) : List UInt64 → Eval Bool
  | [] => .ok false
  | m :: ms =>
      if m ≠ 0 ∧ sectorStart ≥ m then do
        if sectorStart < (← p.addU64 m metaSize) then pure true
        else inMetadataRegion p metaSize sectorStart ms
      else inMetadataRegion p metaSize sectorStart ms

def physicalAddress (p : Profile) (md : FveMetadata) (sectorStart : UInt64) : Eval UInt64 :=
  if sectorStart < md.volumeHeaderSize then p.addU64 md.volumeHeaderOffset sectorStart
  else pure sectorStart

variable [SectorDecrypt C]

def decryptLogicalSector (p : Profile) (sectorStart : UInt64) :
    Proc (DecryptedVolume C) BdeError (List UInt8) := fun v ↦ (do
  let metaSize := v.metadata.metadataSize.toUInt64
  if ← inMetadataRegion p metaSize sectorStart v.metadata.metadataOffsets.toList then
    return List.replicate sectorSize 0
  let physical ← physicalAddress p v.metadata sectorStart
  let _ ← Proc.onReader (seekReader (.start physical))
  let (_, ct) ← Proc.onReader (readAvailable p (List.replicate sectorSize 0))
  let evs := v.metadata.encryptedVolumeSize
  if v.metadata.encryptionMethod = methodNone ∨ (evs ≠ 0 ∧ physical ≥ evs) then
    return ct
  let plain := SectorDecrypt.decryptSector v.cipher ct physical
  let n := min plain.length sectorSize
  copyInto (List.replicate sectorSize 0) 0 n (← slice plain 0 n) :
    Proc (DecryptedVolume C) BdeError (List UInt8)) v

/-- The loop of `read_at`, with `done` bytes of `buf` already filled. -/
def readAtLoop (p : Profile) (offset : UInt64) :
    ℕ → List UInt8 → ℕ → Proc (DecryptedVolume C) BdeError (List UInt8)
  | 0, _, _ => liftM (.error .outOfFuel : Eval (List UInt8))
  | fuel + 1, buf, done =>
      if done < buf.length then do
        let pos ← p.addU64 offset (UInt64.ofNat done)
        let sectorStart := pos - pos % 512
        let within := (pos - sectorStart).toNat
        let plain ← decryptLogicalSector p sectorStart
        let take := min (sectorSize - within) (buf.length - done)
        let stop ← p.addUsize done take
        let src ← slice plain within (← p.addUsize within take)
        let buf ← copyInto buf done stop src
        readAtLoop p offset fuel buf stop
      else pure buf

def readAt (p : Profile) (offset : UInt64) (buf : Bytes) :
    Proc (DecryptedVolume C) BdeError (List UInt8) :=
  readAtLoop p offset (buf.length + 1) buf.toList 0

def read (p : Profile) (buf : Bytes) : Proc (DecryptedVolume C) IoError (ℕ × List UInt8) :=
  fun v ↦
    if v.position ≥ v.totalSize then (.ok (0, buf.toList), v)
    else (do
      let remaining := v.totalSize - v.position
      let n := min buf.length remaining.toNat
      let head ← buf.slice 0 n
      let out ← (readAt p v.position head).mapErr fun e ↦ ⟨.other, e.display⟩
      let position ← p.addU64 v.position (UInt64.ofNat n)
      Proc.modify fun v ↦ { v with position := position }
      pure (n, out ++ buf.toList.drop n) : Proc (DecryptedVolume C) IoError (ℕ × List UInt8)) v

end DecryptedVolume

namespace DecryptedVolume

variable {C : Type}

def seekBeforeStart : IoError := ⟨.invalidInput, "seek before start"⟩

/-- `Seek::seek`: the target is computed in `i128` and cast back to `u64`. -/
def seek (whence : SeekFrom) : Proc (DecryptedVolume C) IoError UInt64 := fun v ↦
  let new : ℤ := match whence with
    | .start o => o.toNat
    | .fromEnd o => v.totalSize.toNat + o.toInt
    | .current o => v.position.toNat + o.toInt
  if new < 0 then (.error (.err seekBeforeStart), v)
  else (.ok (UInt64.ofInt new), { v with position := UInt64.ofInt new })

end DecryptedVolume

end Bitlocker
