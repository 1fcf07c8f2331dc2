import BitlockerForensic.Core.Metadata
import BitlockerForensic.Core.Method
import BitlockerForensic.Core.Crypto

/-!
# Opening a volume

Locating the metadata and unlocking it with one of the four protectors
(`core/src/volume.rs`, up to the construction of `DecryptedVolume`).
-/

namespace Bitlocker

open RustStd

def sectorSize : ℕ := 512

def metadataReadLen : ℕ := 64 * 1024

/-! ## Reading from the image -/

/-- The loop of `read_available`, with `filled` bytes of `buf` already read. -/
def readAvailableLoop (p : Profile) :
    ℕ → List UInt8 → ℕ → Proc Reader BdeError (ℕ × List UInt8)
  | 0, _, _ => liftM (.error .outOfFuel : Eval (ℕ × List UInt8))
  | fuel + 1, buf, filled =>
      let finish : Proc Reader BdeError (ℕ × List UInt8) := do
        let tail ← slice buf filled buf.length
        pure (filled, buf.take filled ++ List.replicate tail.length 0)
      if filled < buf.length then do
        let window ← slice buf filled buf.length
        match ← (Reader.read window.length).attempt with
        | .ok [] => finish
        | .ok chunk => do
            let stop ← p.addUsize filled chunk.length
            let buf ← copyInto buf filled stop chunk
            readAvailableLoop p fuel buf stop
        | .error e =>
            if e.kind = .interrupted then readAvailableLoop p fuel buf filled
            else .fail (.io e)
      else finish

/-- Read up to `buf.len()` bytes, zero-filling the rest at the end of the
image; the count of real bytes and the buffer. -/
def readAvailable (p : Profile) (buf : List UInt8) : Proc Reader BdeError (ℕ × List UInt8) :=
  fun r ↦ readAvailableLoop p (r.fillFuel buf.length) buf 0 r

def readFill (len : ℕ) : Proc Reader BdeError (List UInt8) :=
  (Reader.readExact len).mapErr .io

def seekReader (whence : SeekFrom) : Proc Reader BdeError ℕ :=
  (Reader.seek whence).mapErr .io

def readBlock (p : Profile) (bytesPerSector : UInt16) (offset : UInt64) :
    Proc Reader BdeError (Option FveMetadata) := do
  let _ ← seekReader (.start offset)
  let (n, block) ← readAvailable p (List.replicate metadataReadLen 0)
  FveMetadata.parse p (Bytes.ofList (block.take n)) bytesPerSector

def readMetadataLoop (p : Profile) (bytesPerSector : UInt16) (offsets : FixedArray UInt64 3) :
    List UInt64 → Proc Reader BdeError FveMetadata
  | [] => .fail (.noValidMetadata offsets)
  | offset :: rest =>
      if offset = 0 then readMetadataLoop p bytesPerSector offsets rest
      else do
        match ← readBlock p bytesPerSector offset with
        | some md => pure md
        | none => readMetadataLoop p bytesPerSector offsets rest

def readMetadata (p : Profile) : Proc Reader BdeError FveMetadata := do
  let _ ← seekReader (.start 0)
  let header ← readFill sectorSize
  let vh ← VolumeHeader.parse p (Bytes.ofList header)
  readMetadataLoop p vh.bytesPerSector vh.fveMetadataOffsets vh.fveMetadataOffsets.toList

/-! ## Deriving the sector cipher -/

inductive VmkUnwrap where
  | stretch (keyHash : Octets 32)
  | clear
  | external (key : Octets 32)
  deriving DecidableEq

/-- The common body of `take_key16`, `take_key32` and `take_key64`. -/
def takeKey (p : Profile) (n : ℕ) (container : Bytes) (off : ℕ) (what : String) :
    Res BdeError (Octets n) := do
  let stop ← p.addUsize off n
  let s ← okOr (container.get off stop)
    (.malformedKeyContainer what container.length stop)
  toOctets n s.toList

def takeKey16 (p : Profile) := takeKey p 16
def takeKey32 (p : Profile) := takeKey p 32
def takeKey64 (p : Profile) := takeKey p 64

/-- The 256-bit external key of a `.BEK` file: a 48-byte header, then an
external-key entry whose payload nests the key after 24 bytes. -/
def parseStartupKey (p : Profile) (bek : Bytes) : Res BdeError (Octets 32) := do
  let body := (bek.getFrom 48).getD Bytes.empty
  let external ← okOr
    ((← MetadataEntry.parseSequence p body).find? fun e ↦ e.valueType = valueTypeExternalKey)
    (.missingKeyMaterial "external key")
  let key ← okOr
    ((← external.nested p 24).find? fun e ↦ e.valueType = valueTypeKey)
    (.missingKeyMaterial "external key property")
  takeKey32 p key.data 4 "external key"

variable (P : Crates)

def unwrapKey (p : Profile) (props : List MetadataEntry) : VmkUnwrap → Res BdeError (Octets 32)
  | .stretch keyHash => do
      let stretch ← okOr (props.find? fun e ↦ e.valueType = valueTypeStretch)
        (.missingKeyMaterial "stretch key")
      let saltSrc ← okOr (stretch.data.get 4 20) (.missingKeyMaterial "stretch salt")
      let salt ← toOctets 16 saltSrc.toList
      stretchKey P keyHash salt
  | .clear => do
      let key ← okOr (props.find? fun e ↦ e.valueType = valueTypeKey)
        (.missingKeyMaterial "clear key")
      takeKey32 p key.data 4 "clear"
  | .external key => pure key

def buildCipher (p : Profile) (container : Bytes) :
    SectorCipherKind → Res BdeError (SectorCipher P)
  | .cbc128Diffuser => do
      let fvek ← takeKey16 p container 12 "FVEK"
      let tweak ← takeKey16 p container 44 "FVEK"
      pure (SectorCipher.new fvek tweak)
  | .cbc128 => do
      let fvek ← takeKey16 p container 12 "FVEK"
      pure (SectorCipher.newCbc fvek)
  | .cbc256 => do
      let fvek ← takeKey32 p container 12 "FVEK"
      pure (SectorCipher.newCbc256 fvek)
  | .xts128 => do
      let fvek ← takeKey32 p container 12 "FVEK"
      SectorCipher.newXts128 fvek
  | .xts256 => do
      let fvek ← takeKey64 p container 12 "FVEK"
      SectorCipher.newXts256 fvek

/-- The lookup of `derive_cipher`: the first VMK entry of the requested type, or
an error that lists the types there are. -/
def findProtector (metadata : FveMetadata) (protectorType : UInt16) (protectorName : String) :
    Res BdeError MetadataEntry := do
  match ← metadata.vmkEntries.findM? fun e ↦ do
    return (← e.protectionType) == some protectorType with
  | some e => pure e
  | none => throw (.err (.noUnlockProtector protectorName (← metadata.protectorTypes)))

def deriveCipher (p : Profile) (metadata : FveMetadata) (kind : SectorCipherKind)
    (protectorType : UInt16) (protectorName : String) (unwrap : VmkUnwrap) :
    Res BdeError (SectorCipher P) := do
  let vmk ← findProtector metadata protectorType protectorName
  let props ← vmk.nested p 28
  let vmkCcm ← okOr (props.find? fun e ↦ e.valueType = valueTypeAesCcm)
    (.missingKeyMaterial "VMK AES-CCM key")
  let unwrapKey ← unwrapKey P p props unwrap
  let vmkContainer ← okOr (← aesCcmUnwrap P unwrapKey vmkCcm.data)
    (.authenticationFailed "volume master key")
  let vmkKey ← takeKey32 p vmkContainer 12 "volume master key"
  let fvekEntry ← okOr metadata.fvekEntry (.missingKeyMaterial "FVEK entry")
  let fvekContainer ← okOr (← aesCcmUnwrap P vmkKey fvekEntry.data)
    (.authenticationFailed "FVEK")
  buildCipher P p fvekContainer kind

/-! ## Unlocking -/

structure DecryptedVolume (C : Type) where
  reader : Reader
  cipher : C
  metadata : FveMetadata
  totalSize : UInt64
  position : UInt64

def unlockProc (p : Profile) (protectorType : UInt16) (protectorName : String)
    (unwrap : VmkUnwrap) : Proc Reader BdeError (FveMetadata × SectorCipher P × ℕ) := do
  let metadata ← readMetadata p
  let raw := metadata.encryptionMethod
  let method ← okOr (EncryptionMethod.decode raw) (BdeError.unsupportedEncryptionMethod raw)
  let kind ← okOr method.validatedKind (BdeError.unvalidatedEncryptionMethod raw)
  let cipher ← deriveCipher P p metadata kind protectorType protectorName unwrap
  let totalSize ← seekReader (.fromEnd 0)
  pure (metadata, cipher, totalSize)

def unlock (p : Profile) (protectorType : UInt16) (protectorName : String) (unwrap : VmkUnwrap)
    (reader : Reader) : Res BdeError (DecryptedVolume (SectorCipher P)) :=
  match unlockProc P p protectorType protectorName unwrap reader with
  | (.ok (metadata, cipher, totalSize), r) =>
      .ok ⟨r, cipher, metadata, UInt64.ofNat totalSize, 0⟩
  | (.error fault, _) => .error fault

def unlockWithPassword (p : Profile) (reader : Reader) (password : String) :=
  unlock P p protectionPassword "password" (.stretch (passwordHash P password)) reader

def unlockWithRecoveryPassword (p : Profile) (reader : Reader) (recovery : String) :
    Res BdeError (DecryptedVolume (SectorCipher P)) :=
  match recoveryKeyHash P recovery with
  | .ok keyHash => unlock P p protectionRecovery "recovery password" (.stretch keyHash) reader
  | .error (.err reason) => .error (.err (.invalidRecoveryPassword reason))
  | .error (.panic cause) => .error (.panic cause)

def unlockClearKey (p : Profile) (reader : Reader) :=
  unlock P p protectionClear "clear key" .clear reader

def unlockWithStartupKey (p : Profile) (reader : Reader) (startupKey : Bytes) :
    Res BdeError (DecryptedVolume (SectorCipher P)) := do
  let externalKey ← parseStartupKey p startupKey
  unlock P p protectionStartupKey "startup key" (.external externalKey) reader

end Bitlocker
