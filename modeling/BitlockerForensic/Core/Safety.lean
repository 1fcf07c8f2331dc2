import BitlockerForensic.Core.Unlock

/-!
# Parsing never panics

No slice, index, fixed-size copy, sum or loop of the parsing and key path can
fail, on any bytes and under either build profile.
-/

namespace Bitlocker

open RustStd

variable (P : Crates)

theorem headerIn_noPanic (image : Image) : NoPanic (headerIn image) :=
  failsOnly_ite (failsOnly_okOr _ trivial) (failsOnly_error trivial)

theorem metadataIn_noPanic (image : Image) : NoPanic (metadataIn image) :=
  FailsOnly.bind (headerIn_noPanic image) fun _ _ ↦ failsOnly_okOr _ trivial

theorem readMetadata_noPanic (p : Profile) (r : Reader) : NoPanic (readMetadata p r).1 :=
  (yields_readMetadata p r).noPanic (metadataIn_noPanic r.image)

theorem parseStartupKey_noPanic (p : Profile) (bek : Bytes) : NoPanic (parseStartupKey p bek) := by
  rw [parseStartupKey_eq]
  refine (failsOnly_okOr _ trivial).bind fun external _ ↦
    (failsOnly_okOr _ trivial).bind fun key _ ↦ ?_
  exact failsOnly_ite (failsOnly_ok _) (failsOnly_error trivial)

theorem deriveCipher_noPanic (p : Profile) (md : FveMetadata) (kind : SectorCipherKind)
    (protectorType : UInt16) (protectorName : String) (unwrap : VmkUnwrap) :
    NoPanic (deriveCipher P p md kind protectorType protectorName unwrap) := by
  rw [deriveCipher_eq]
  exact (failsOnly_okOr _ trivial).bind fun e _ ↦
    (keyed_fails P p md kind unwrap e).mono fun _ ↦ KeyFault.isReported

theorem unlock_noPanic (p : Profile) (protectorType : UInt16) (protectorName : String)
    (unwrap : VmkUnwrap) (r : Reader) :
    NoPanic (unlock P p protectorType protectorName unwrap r) := by
  have hgate : ∀ raw, NoPanic (gate raw) := fun raw ↦
    FailsOnly.bind (failsOnly_okOr _ trivial) fun _ _ ↦ failsOnly_okOr _ trivial
  have hunlock : NoPanic (unlockIn P p r.image protectorType protectorName unwrap) :=
    FailsOnly.bind (metadataIn_noPanic r.image) fun md _ ↦
      FailsOnly.bind (hgate md.encryptionMethod) fun kind _ ↦
        FailsOnly.bind (deriveCipher_noPanic P p md kind protectorType protectorName unwrap)
          fun _ _ ↦ failsOnly_ok _
  have hproc := (yields_unlockProc P p protectorType protectorName unwrap r).noPanic hunlock
  rw [unlock]
  split
  · exact failsOnly_ok _
  · rename_i fault r' hfault
    exact failsOnly_error (hproc fault (congrArg Prod.fst hfault))

theorem recoveryLoop_noPanic (groups : List (List Char)) (i : ℕ) {key : List UInt8} (n : ℕ)
    (hkey : key.length = 16) : NoPanic (recoveryLoop groups i key n) := by
  induction groups generalizing i key n with
  | nil => exact failsOnly_ok _
  | cons group groups ih =>
      rw [recoveryLoop]
      by_cases hcount : i ≥ 8
      · rw [if_pos hcount]
        exact failsOnly_error trivial
      · rw [if_neg hcount]
        refine failsOnly_ite (failsOnly_error trivial) ?_
        refine (failsOnly_okOr _ trivial).bind fun value _ ↦ ?_
        refine failsOnly_ite (failsOnly_error trivial) ?_
        refine failsOnly_ite (failsOnly_error trivial) ?_
        have hword : (leBytes 2 (value / 11)).length = i * 2 + 2 - i * 2 := by
          rw [length_leBytes]
          omega
        rw [copyInto_ok (by omega) (by omega) hword]
        refine ih (i + 1) (i + 1) ?_
        simp only [List.length_append, List.length_take, List.length_drop, hword]
        omega

theorem recoveryKeyHash_noPanic (recovery : String) : NoPanic (recoveryKeyHash P recovery) :=
  FailsOnly.bind (recoveryLoop_noPanic _ 0 0 (zeros 16).length_eq) fun _ _ ↦
    failsOnly_ite (failsOnly_error trivial) (failsOnly_ok _)

/-- Every parser, on every input and under either profile, ends with a value or
a reported error: nothing is out of bounds, nothing overflows, and no loop runs
out of steps. -/
theorem parsing_total (p : Profile) (bytes : Bytes) (r : Reader) :
    NoPanic (VolumeHeader.parse p bytes) ∧
      (∀ bytesPerSector, ∃ md, FveMetadata.parse p bytes bytesPerSector = .ok md) ∧
      (∃ es, MetadataEntry.parseSequence p bytes = .ok es) ∧
      (∀ (e : MetadataEntry) (offset : ℕ), ∃ es, e.nested p offset = .ok es) ∧
      (∀ e : MetadataEntry, ∃ t, e.protectionType = .ok t) ∧
      NoPanic (parseStartupKey p bytes) ∧
      NoPanic (readMetadata p r).1 ∧
      (∀ (md : FveMetadata) (kind : SectorCipherKind) (protectorType : UInt16)
        (protectorName : String) (unwrap : VmkUnwrap),
        NoPanic (deriveCipher P p md kind protectorType protectorName unwrap)) := by
  refine ⟨?_, fun bytesPerSector ↦ ⟨_, FveMetadata.parse_eq p bytes bytesPerSector⟩,
    ⟨_, MetadataEntry.parseSequence_eq p bytes⟩,
    fun e offset ↦ ⟨_, MetadataEntry.nested_eq p e offset⟩,
    fun e ↦ ⟨_, MetadataEntry.protectionType_eq e⟩,
    parseStartupKey_noPanic p bytes, readMetadata_noPanic p r, deriveCipher_noPanic P p⟩
  rw [VolumeHeader.parse_eq]
  exact failsOnly_okOr _ trivial

end Bitlocker
