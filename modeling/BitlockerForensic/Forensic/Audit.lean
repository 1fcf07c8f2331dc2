import BitlockerForensic.Core.Volume

/-!
# The metadata auditor

Severity-graded observations over the protectors and the cipher of a volume
(`forensic/src/lib.rs`), taken without any credential.
-/

namespace BitlockerForensic

open RustStd
open Bitlocker

def protClearKey : UInt16 := 0x0000
def protTpm : UInt16 := 0x0100
def protStartupKey : UInt16 := 0x0200
def protTpmPin : UInt16 := 0x0500
def protRecovery : UInt16 := 0x0800
def protPassword : UInt16 := 0x2000

inductive Severity where
  | info
  | low
  | high
  deriving DecidableEq

inductive AnomalyKind where
  | clearKeyPresent
  | protector (protectorType : UInt16)
  | weakCipher (method : UInt16)
  | toGo
  deriving DecidableEq

def protectorName (t : UInt16) : String :=
  if t = protClearKey then "clear key"
  else if t = protTpm then "TPM"
  else if t = protStartupKey then "startup key"
  else if t = protTpmPin then "TPM and PIN"
  else if t = protRecovery then "recovery password"
  else if t = protPassword then "password"
  else "other/unknown"

def cipherName (method : UInt16) : String :=
  if method = 0x8000 then "AES-128-CBC + Elephant Diffuser"
  else if method = 0x8001 then "AES-256-CBC + Elephant Diffuser"
  else if method = 0x8002 then "AES-128-CBC"
  else if method = 0x8003 then "AES-256-CBC"
  else if method = 0x8004 then "AES-128-XTS"
  else if method = 0x8005 then "AES-256-XTS"
  else "unknown"

def isAesXts (method : UInt16) : Bool := method = 0x8004 ∨ method = 0x8005

namespace AnomalyKind

def severity : AnomalyKind → Severity
  | clearKeyPresent => .high
  | weakCipher _ => .low
  | protector _ => .info
  | toGo => .info

def code : AnomalyKind → String
  | clearKeyPresent => "BDE-CLEAR-KEY-PRESENT"
  | protector _ => "BDE-PROTECTOR-INVENTORY"
  | weakCipher _ => "BDE-WEAK-CIPHER"
  | toGo => "BDE-TO-GO"

def note : AnomalyKind → String
  | clearKeyPresent =>
      "a clear-key protector (type 0x0000) is present; the volume master key is stored " ++
        "unprotected, so the volume can be decrypted with no credential — it is effectively " ++
        "unencrypted (bitlocker-core unlocks it via unlock_clear_key)"
  | protector t =>
      "key protector present: " ++ protectorName t ++ " (type 0x" ++ hex 4 t.toNat ++ ")"
  | weakCipher method =>
      "volume cipher is " ++ cipherName method ++ " (method 0x" ++ hex 4 method.toNat ++
        "); AES-CBC, with or without the Elephant Diffuser, is weaker than AES-XTS and is " ++
        "consistent with an older Windows version"
  | toGo =>
      "the volume is a BitLocker To Go volume (removable-media BitLocker on a FAT-formatted " ++
        "volume)"

end AnomalyKind

structure Anomaly where
  severity : Severity
  code : String
  kind : AnomalyKind
  note : String
  deriving DecidableEq

def Anomaly.new (kind : AnomalyKind) : Anomaly := ⟨kind.severity, kind.code, kind, kind.note⟩

def auditProtector (t : UInt16) : List Anomaly :=
  (if t = protClearKey then [Anomaly.new .clearKeyPresent] else []) ++
    [Anomaly.new (.protector t)]

def audit (metadata : FveMetadata) (toGo : Bool) : Eval (List Anomaly) := do
  let head := if toGo then [Anomaly.new .toGo] else []
  let weak := if ¬ isAesXts metadata.encryptionMethod then
    [Anomaly.new (.weakCipher metadata.encryptionMethod)] else []
  let types ← metadata.protectorTypes
  return head ++ weak ++ types.flatMap auditProtector

/-- Parse a volume and audit it.  The header is read here for its variant, and
once more by `read_metadata`. -/
def auditReader (p : Profile) : Proc Reader BdeError (List Anomaly) := do
  let _ ← seekReader (.start 0)
  let header ← readFill 512
  let vh ← VolumeHeader.parse p (Bytes.ofList header)
  let metadata ← readMetadata p
  audit metadata (vh.variant = .bitLockerToGo)

end BitlockerForensic
