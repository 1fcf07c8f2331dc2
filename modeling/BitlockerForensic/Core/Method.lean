import BitlockerForensic.Std.Eval

/-!
# Encryption-method classification

The 16-bit method decoded into key size, mode and diffuser
(`core/src/method.rs`), and the kinds for which a decrypt is validated.
-/

namespace Bitlocker

inductive CipherMode where
  | cbc
  | xts
  deriving DecidableEq

structure EncryptionMethod where
  raw : UInt16
  keyBits : UInt16
  mode : CipherMode
  diffuser : Bool
  deriving DecidableEq

inductive SectorCipherKind where
  | cbc128Diffuser
  | cbc128
  | cbc256
  | xts128
  | xts256
  deriving DecidableEq

namespace EncryptionMethod

/-- Only `0x8000..=0x8005` are defined ciphers. -/
def decode (raw : UInt16) : Option EncryptionMethod :=
  if raw < 0x8000 then none
  else
    let index := raw - 0x8000
    if index > 5 then none
    else
      let keyBits := if index &&& 1 = 1 then 256 else 128
      let (mode, diffuser) :=
        if index >>> 1 = 0 then (CipherMode.cbc, true)
        else if index >>> 1 = 1 then (CipherMode.cbc, false)
        else (CipherMode.xts, false)
      some ⟨raw, keyBits, mode, diffuser⟩

def validatedKind (m : EncryptionMethod) : Option SectorCipherKind :=
  match m.mode, m.keyBits.toNat, m.diffuser with
  | .cbc, 128, true => some .cbc128Diffuser
  | .cbc, 128, false => some .cbc128
  | .cbc, 256, false => some .cbc256
  | .xts, 128, false => some .xts128
  | .xts, 256, false => some .xts256
  | _, _, _ => none

def Defined (raw : UInt16) : Prop := 0x8000 ≤ raw ∧ raw ≤ 0x8005

instance (raw : UInt16) : Decidable (Defined raw) := inferInstanceAs (Decidable (_ ∧ _))

theorem Defined.cases {raw : UInt16} (h : Defined raw) :
    raw = 0x8000 ∨ raw = 0x8001 ∨ raw = 0x8002 ∨ raw = 0x8003 ∨ raw = 0x8004 ∨ raw = 0x8005 := by
  obtain ⟨hlow, hhigh⟩ := h
  simp only [UInt16.le_iff_toNat_le, UInt16.reduceToNat] at hlow hhigh
  simp only [← UInt16.toNat_inj, UInt16.reduceToNat]
  omega

theorem decode_of_not_defined {raw : UInt16} (h : ¬ Defined raw) : decode raw = none := by
  by_cases hlow : raw < 0x8000
  · rw [decode, if_pos hlow]
  · have hhigh : raw - 0x8000 > 5 := by
      have hle := UInt16.not_lt.mp hlow
      rw [Defined, not_and, UInt16.not_le] at h
      have habove := h hle
      simp only [UInt16.lt_iff_toNat_lt, UInt16.reduceToNat] at habove
      simp only [gt_iff_lt, UInt16.lt_iff_toNat_lt, UInt16.toNat_sub_of_le _ _ hle,
        UInt16.reduceToNat]
      omega
    simp [decode, hlow, hhigh]

end EncryptionMethod

def gatedKind (raw : UInt16) : Option SectorCipherKind :=
  (EncryptionMethod.decode raw).bind EncryptionMethod.validatedKind

def SectorCipherKind.method : SectorCipherKind → UInt16
  | cbc128Diffuser => 0x8000
  | cbc128 => 0x8002
  | cbc256 => 0x8003
  | xts128 => 0x8004
  | xts256 => 0x8005

theorem gatedKind_method (kind : SectorCipherKind) : gatedKind kind.method = some kind := by
  cases kind <;> rfl

/-- The gates pass exactly the five validated methods, each with its own kind. -/
theorem gatedKind_eq_some {raw : UInt16} {kind : SectorCipherKind} :
    gatedKind raw = some kind ↔ raw = kind.method := by
  constructor
  · intro h
    by_cases hdefined : EncryptionMethod.Defined raw
    · rcases hdefined.cases with rfl | rfl | rfl | rfl | rfl | rfl <;>
        cases kind <;> first | rfl | exact absurd h (by decide)
    · rw [gatedKind, EncryptionMethod.decode_of_not_defined hdefined] at h
      cases h
  · rintro rfl
    exact gatedKind_method kind

end Bitlocker
