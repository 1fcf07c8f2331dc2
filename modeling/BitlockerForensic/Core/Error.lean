import BitlockerForensic.Std.Reader

/-!
# Errors of the reader

The variants of `BdeError` (`core/src/error.rs`) with the values they carry,
and the messages `to_string` renders them to.
-/

namespace Bitlocker

open RustStd

inductive BdeError where
  | io (e : IoError)
  | notBitLocker (signature : Octets 8)
  | noValidMetadata (offsets : FixedArray UInt64 3)
  | unsupportedEncryptionMethod (method : UInt16)
  | unvalidatedEncryptionMethod (method : UInt16)
  | noUnlockProtector (protector : String) (found : List UInt16)
  | invalidRecoveryPassword (reason : String)
  | missingKeyMaterial (what : String)
  | authenticationFailed (what : String)
  | malformedKeyContainer (what : String) (got need : ℕ)
  deriving DecidableEq

def hex (width n : ℕ) : String :=
  String.ofList (List.leftpad width '0' (Nat.toDigits 16 n))

def debugList (items : List String) : String :=
  "[" ++ ", ".intercalate items ++ "]"

namespace BdeError

def display : BdeError → String
  | io e => "i/o error reading BitLocker volume: " ++ e.message
  | notBitLocker signature =>
      "not a BitLocker volume: signature at offset 3 is " ++
        debugList (signature.toList.map fun b ↦ hex 2 b.toNat) ++
        " (expected \"-FVE-FS-\" or \"MSWIN4.1\")"
  | noValidMetadata offsets =>
      "no valid FVE metadata block found at candidate offsets " ++
        debugList (offsets.toList.map fun o ↦ toString o.toNat)
  | unsupportedEncryptionMethod method =>
      "unsupported encryption method 0x" ++ hex 4 method.toNat ++
        " (not a recognized BitLocker cipher; this build decrypts 0x8000 AES-128-CBC + " ++
        "Elephant Diffuser and 0x8002 AES-128-CBC)"
  | unvalidatedEncryptionMethod method =>
      "recognized but unvalidated encryption method 0x" ++ hex 4 method.toNat ++
        " (no oracle yet; this build decrypts only 0x8000 and 0x8002)"
  | noUnlockProtector protector found =>
      "no " ++ protector ++ " protector present; protectors found: " ++
        debugList (found.map fun t ↦ toString t.toNat)
  | invalidRecoveryPassword reason => "invalid recovery password: " ++ reason
  | missingKeyMaterial what => "password protector is malformed: missing " ++ what
  | authenticationFailed what =>
      "AES-CCM authentication failed unwrapping the " ++ what ++
        " (wrong password or corrupt metadata)"
  | malformedKeyContainer what got need =>
      "decrypted " ++ what ++ " key container is malformed (got " ++ toString got ++
        " bytes, need at least " ++ toString need ++ ")"

end BdeError

end Bitlocker
