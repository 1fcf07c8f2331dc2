import BitlockerForensic.Core.Decrypted

/-!
# The VFS layer and its source

`BitlockerLayer` opens an encrypted source with the first credential that unlocks
it, and `BitlockerSource` presents the decrypted volume as a positioned read-only
source (`core/src/vfs.rs`).  The mutex of a source recovers from poisoning, so
calls run one after another on the same volume whatever became of the calls before
them.
-/

namespace Bitlocker

open RustStd

inductive VfsError where
  | decode (layer : String) (offset : UInt64) (detail : String) (bytes : List UInt8)
  | needCredentials (scheme target : String)
  deriving DecidableEq

def mapBdeErr (e : BdeError) : VfsError := .decode "bitlocker" 0 e.display []

structure BitlockerSource (C : Type) where
  inner : DecryptedVolume C
  len : UInt64

namespace BitlockerSource

variable {C : Type}

def new (vol : DecryptedVolume C) : BitlockerSource C := ⟨vol, vol.totalSize⟩

def readAt [SectorDecrypt C] (p : Profile) (offset : UInt64) (buf : Bytes) :
    Proc (BitlockerSource C) VfsError (ℕ × List UInt8) := fun s ↦
  let avail := s.len.toNat - offset.toNat
  if avail = 0 then (.ok (0, buf.toList), s)
  else
    let want := min buf.length avail
    match buf.get 0 want with
    | none => (.ok (0, buf.toList), s)
    | some dst => (do
        let out ← ((DecryptedVolume.readAt p offset dst).mapErr mapBdeErr).onField
          (fun s ↦ s.inner) (fun v s ↦ { s with inner := v })
        pure (want, out ++ buf.toList.drop want) :
          Proc (BitlockerSource C) VfsError (ℕ × List UInt8)) s

end BitlockerSource

/-! ## Opening a layer -/

/-- What the layer uses of the VFS crate: byte sources, each with its length and
the cursor over a range of it, encryption schemes, and the credentials that are
neither passwords nor recovery keys.  The reads of a source have no side effects,
so that a cursor is fixed by the source and the range. -/
structure VfsCrate where
  Source : Type
  len : Source → UInt64
  sourceCursor : Source → UInt64 → UInt64 → Reader
  Scheme : Type
  bitlocker : Scheme
  OtherCredential : Type

inductive VfsCredential (V : VfsCrate) where
  | password (text : String)
  | recoveryKey (text : String)
  | other (cred : V.OtherCredential)

/-- The credentials that are offered for a scheme and a target. -/
def CredentialSource (V : VfsCrate) := V.Scheme → String → List (VfsCredential V)

structure BitlockerLayer (V : VfsCrate) where
  encrypted : V.Source
  len : UInt64

namespace BitlockerLayer

variable {V : VfsCrate}

def new (encrypted : V.Source) : BitlockerLayer V := ⟨encrypted, V.len encrypted⟩

def needCredentials : VfsError := .needCredentials "bitlocker" ""

variable (P : Crates) (p : Profile) (layer : BitlockerLayer V)

/-- One attempt, on a fresh cursor; `none` for a credential that the layer skips. -/
def attempt : VfsCredential V → Option (Res BdeError (DecryptedVolume (SectorCipher P)))
  | .password text =>
      some (unlockWithPassword P p (V.sourceCursor layer.encrypted 0 layer.len) text)
  | .recoveryKey text =>
      some (unlockWithRecoveryPassword P p (V.sourceCursor layer.encrypted 0 layer.len) text)
  | .other _ => none

def openLoop : List (VfsCredential V) → Option BdeError →
    Res VfsError (BitlockerSource (SectorCipher P))
  | [], lastErr => .error (.err ((lastErr.map mapBdeErr).getD needCredentials))
  | cred :: cands, lastErr =>
      match layer.attempt P p cred with
      | none => openLoop cands lastErr
      | some (.ok vol) => .ok (BitlockerSource.new vol)
      | some (.error (.err e)) => openLoop cands (some e)
      | some (.error (.panic cause)) => .error (.panic cause)

/-- `EncryptionLayer::open`. -/
def openWith (creds : CredentialSource V) : Res VfsError (BitlockerSource (SectorCipher P)) :=
  let cands := creds V.bitlocker ""
  if cands.isEmpty then .error (.err needCredentials)
  else layer.openLoop P p cands none

end BitlockerLayer

end Bitlocker
