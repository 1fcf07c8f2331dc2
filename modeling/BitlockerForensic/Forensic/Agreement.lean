import BitlockerForensic.Core.Decrypted
import BitlockerForensic.Forensic.Findings

/-!
# The auditor and the decryptor agree

The auditor and an unlock walk the same image independently.  They accept the
same images and see the same protectors.
-/

namespace BitlockerForensic

open RustStd
open RustStd.Reader
open Bitlocker

def auditIn (image : Image) : Res BdeError (List Anomaly) := do
  let vh ← headerIn image
  let md ← metadataIn image
  .ok (findings md (vh.variant = .bitLockerToGo))

theorem yields_auditReader (p : Profile) (r : Reader) :
    Yields .io (auditReader p) r (auditIn r.image) := by
  refine yields_readHeader p r fun vh r' hlater ↦ ?_
  rw [← hlater.image]
  refine (yields_readMetadata p r').bind fun md _ r'' _ ↦ ?_
  rw [audit_eq]
  exact Yields.liftEval _

theorem auditIn_of_ok {image : Image} {md : FveMetadata} (h : metadataIn image = .ok md) :
    ∃ toGo, auditIn image = .ok (findings md toGo) := by
  obtain ⟨vh, hvh, -⟩ := bind_eq_ok.mp h
  refine ⟨vh.variant = .bitLockerToGo, ?_⟩
  rw [auditIn, hvh, ok_bind, h, ok_bind]

theorem auditIn_of_error {image : Image} {fault : Fault BdeError}
    (h : metadataIn image = .error fault) : auditIn image = .error fault := by
  rw [auditIn]
  cases hvh : headerIn image with
  | ok vh =>
      rw [ok_bind, h]
      rfl
  | error fault' =>
      rw [metadataIn, hvh] at h
      cases h
      rfl

theorem auditIn_eq_error {image : Image} {fault : Fault BdeError} :
    auditIn image = .error fault ↔ metadataIn image = .error fault := by
  refine ⟨fun h ↦ ?_, auditIn_of_error⟩
  cases hmd : metadataIn image with
  | ok md =>
      obtain ⟨toGo, hok⟩ := auditIn_of_ok hmd
      rw [hok] at h
      cases h
  | error fault' =>
      rw [auditIn_of_error hmd] at h
      cases h
      rfl

theorem auditIn_eq_ok {image : Image} {found : List Anomaly} (h : auditIn image = .ok found) :
    ∃ md toGo, metadataIn image = .ok md ∧ found = findings md toGo := by
  obtain ⟨vh, -, hrest⟩ := bind_eq_ok.mp h
  obtain ⟨md, hmd, hfound⟩ := bind_eq_ok.mp hrest
  cases hfound
  exact ⟨md, _, hmd, rfl⟩

theorem unlock_eq_noUnlockProtector (P : Crates) {p : Profile} {r : Reader} {md : FveMetadata}
    {kind : SectorCipherKind} {cred : Credential} {unwrap : VmkUnwrap} (hfree : r.ErrorFree)
    (hmd : metadataIn r.image = .ok md) (hkind : gatedKind md.encryptionMethod = some kind)
    (hcred : cred.unwrap P p = .ok unwrap) {name : String} {types : List UInt16} :
    cred.unlock P p r = .error (.err (.noUnlockProtector name types)) ↔
      vmkFor md cred.protectorType = none ∧ cred.protectorName = name ∧
        md.vmkEntries.map MetadataEntry.typeField = types := by
  obtain ⟨r', -, hunlock⟩ :=
    unlock_of_errorFree P p cred.protectorType cred.protectorName unwrap hfree
  rw [← deriveCipher_eq_noUnlockProtector P p md kind, Credential.unlock_eq, hcred, ok_bind,
    hunlock, unlockIn, hmd, ok_bind, gate_eq_ok.mpr hkind, ok_bind]
  cases deriveCipher P p md kind cred.protectorType cred.protectorName unwrap with
  | ok cipher =>
      constructor <;>
      · intro h
        cases h
  | error fault =>
      constructor <;>
      · intro h
        cases h
        rfl

/-- Over one image, and from whatever positions, the audit succeeds exactly when
`read_metadata` does and fails with the same error.  It lists the type of every
VMK entry even where the method is refused; where it is not, an unlock reports a missing
protector exactly when the audit does not list it, with the listed types. -/
theorem audit_agrees_with_unlock (P : Crates) (p : Profile) {ra rm ru : Reader}
    (hfreea : ra.ErrorFree) (hfreem : rm.ErrorFree) (hfreeu : ru.ErrorFree)
    (himagem : rm.image = ra.image) (himageu : ru.image = ra.image) :
    (∀ fault, (auditReader p ra).1 = .error fault ↔ (readMetadata p rm).1 = .error fault) ∧
      ((∃ found, (auditReader p ra).1 = .ok found) ↔ ∃ md, (readMetadata p rm).1 = .ok md) ∧
      ∀ md found, (readMetadata p rm).1 = .ok md → (auditReader p ra).1 = .ok found →
        md.protectorTypes = .ok (protectorsIn found) ∧
        protectorsIn found = (md.entries.filter MetadataEntry.isVmk).map MetadataEntry.typeField ∧
        ∀ (kind : SectorCipherKind) (cred : Credential) (unwrap : VmkUnwrap),
          gatedKind md.encryptionMethod = some kind → cred.unwrap P p = .ok unwrap →
            ((∃ name types, cred.unlock P p ru = .error (.err (.noUnlockProtector name types))) ↔
              ¬ ∃ a ∈ found, a.kind = .protector cred.protectorType) ∧
            ∀ name types, cred.unlock P p ru = .error (.err (.noUnlockProtector name types)) →
              types = protectorsIn found := by
  rw [(yields_auditReader p ra).outcome_eq hfreea, (yields_readMetadata p rm).outcome_eq hfreem,
    himagem]
  refine ⟨fun fault ↦ auditIn_eq_error, ⟨?_, ?_⟩, ?_⟩
  · rintro ⟨found, hfound⟩
    obtain ⟨md, -, hmd, -⟩ := auditIn_eq_ok hfound
    exact ⟨md, hmd⟩
  · rintro ⟨md, hmd⟩
    obtain ⟨toGo, hok⟩ := auditIn_of_ok hmd
    exact ⟨_, hok⟩
  · intro md found hmd hfound
    obtain ⟨md', toGo, hmd', rfl⟩ := auditIn_eq_ok hfound
    cases hmd.symm.trans hmd'
    refine ⟨?_, ?_, ?_⟩
    · rw [protectorsIn_findings, FveMetadata.protectorTypes_eq]
    · exact protectorsIn_findings md toGo
    · intro kind cred unwrap hkind hcred
      rw [← himageu] at hmd
      constructor
      · have hlisted : cred.protectorType ∉ md.vmkEntries.map MetadataEntry.typeField ↔
            vmkFor md cred.protectorType = none := by
          rw [vmkFor_eq_none, List.mem_map, not_exists]
          exact forall_congr' fun e ↦ not_and
        rw [← mem_protectorsIn, protectorsIn_findings, hlisted]
        constructor
        · rintro ⟨name, types, hunlock⟩
          exact ((unlock_eq_noUnlockProtector P hfreeu hmd hkind hcred).mp hunlock).1
        · intro hnone
          exact ⟨_, _, (unlock_eq_noUnlockProtector P hfreeu hmd hkind hcred).mpr
            ⟨hnone, rfl, rfl⟩⟩
      · intro name types hunlock
        rw [protectorsIn_findings]
        exact ((unlock_eq_noUnlockProtector P hfreeu hmd hkind hcred).mp hunlock).2.2.symm

theorem audit_agrees_with_unlock_sample :
    ∃ md found, (readMetadata .release (Reader.ofImage (sampleImage 0 0))).1 = .ok md ∧
      (auditReader .release (Reader.ofImage (sampleImage 0 0))).1 = .ok found ∧
      ((∃ name types, (Credential.password "x").unlock sampleCrates .release
          (Reader.ofImage (sampleImage 0 0)) = .error (.err (.noUnlockProtector name types))) ↔
        ¬ ∃ a ∈ found, a.kind = .protector protectionPassword) := by
  have hfree := Reader.errorFree_ofImage (sampleImage 0 0)
  obtain ⟨-, hok, hagree⟩ :=
    audit_agrees_with_unlock sampleCrates .release hfree hfree hfree rfl rfl
  have hmd : (readMetadata .release (Reader.ofImage (sampleImage 0 0))).1 =
      .ok ((sampleBlock 0 0).metadata 512) :=
    ((yields_readMetadata .release _).outcome_eq hfree).trans (metadataIn_sampleImage 0 0)
  obtain ⟨found, hfound⟩ := hok.mpr ⟨_, hmd⟩
  obtain ⟨-, -, hcred⟩ := hagree _ found hmd hfound
  exact ⟨_, found, hmd, hfound,
    (hcred .cbc128 (.password "x") _ (gatedKind_method .cbc128) rfl).1⟩

/-! ## The cipher -/

/-- Where the audit succeeds, its weak-cipher finding agrees with the reader's own
classification if and only if the method of the metadata is a defined one. -/
theorem weak_cipher_exact_iff (p : Profile) {r : Reader} {found : List Anomaly}
    (haudit : (auditReader p r).1 = .ok found) :
    ∃ md, (∀ fresh : Reader, fresh.ErrorFree → fresh.image = r.image →
        (readMetadata p fresh).1 = .ok md) ∧
      (WeakCipherExact md found ↔
        0x8000 ≤ md.encryptionMethod ∧ md.encryptionMethod ≤ 0x8005) := by
  have hauditIn : auditIn r.image = .ok found :=
    ((yields_auditReader p r).of_ok (Prod.ext haudit rfl)).1
  obtain ⟨md, toGo, hmd, rfl⟩ := auditIn_eq_ok hauditIn
  refine ⟨md, ?_, weakCipherExact_findings md toGo⟩
  intro fresh hfree himage
  rw [(yields_readMetadata p fresh).outcome_eq hfree, himage, hmd]

theorem weak_cipher_exact_sample :
    ∃ md found, (auditReader .release (Reader.ofImage (sampleImage 0 0))).1 = .ok found ∧
      (readMetadata .release (Reader.ofImage (sampleImage 0 0))).1 = .ok md ∧
      md.encryptionMethod = 0x8002 ∧ WeakCipherExact md found := by
  have hfree := Reader.errorFree_ofImage (sampleImage 0 0)
  have hmetadata : (readMetadata .release (Reader.ofImage (sampleImage 0 0))).1 =
      .ok ((sampleBlock 0 0).metadata 512) :=
    ((yields_readMetadata .release _).outcome_eq hfree).trans (metadataIn_sampleImage 0 0)
  obtain ⟨toGo, hok⟩ := auditIn_of_ok (metadataIn_sampleImage 0 0)
  have hfound := ((yields_auditReader .release _).outcome_eq hfree).trans hok
  obtain ⟨md, hmd, hexact⟩ := weak_cipher_exact_iff .release hfound
  have hsame := (hmd _ hfree rfl).symm.trans hmetadata
  cases hsame
  exact ⟨_, _, hfound, hmetadata, rfl, hexact.mpr ⟨by decide, by decide⟩⟩

/-- The sample block of a volume that is not encrypted. -/
def decryptedBlock : BlockLayout := { sampleBlock 0 0 with encryptionMethod := methodNone }

def decryptedImage : Image := toGoImage decryptedBlock (Bytes.ofList [])

theorem metadataIn_decryptedImage :
    metadataIn decryptedImage = .ok (decryptedBlock.metadata 512) :=
  metadataIn_toGoImage _ _ (by decide +kernel)

/-- The reader knows no such cipher; the auditor reports AES-CBC. -/
theorem decrypted_volume_reported_as_cbc :
    ∃ md found, (auditReader .release (Reader.ofImage decryptedImage)).1 = .ok found ∧
      (readMetadata .release (Reader.ofImage decryptedImage)).1 = .ok md ∧
      EncryptionMethod.decode md.encryptionMethod = none ∧
      Anomaly.new (.weakCipher md.encryptionMethod) ∈ found ∧ ¬ WeakCipherExact md found := by
  have hfree := Reader.errorFree_ofImage decryptedImage
  obtain ⟨toGo, hok⟩ := auditIn_of_ok metadataIn_decryptedImage
  have hundefined : ¬ EncryptionMethod.Defined (decryptedBlock.metadata 512).encryptionMethod := by
    decide
  have hweak : Anomaly.new (.weakCipher methodNone) ∈
      (findings (decryptedBlock.metadata 512) toGo).filter Anomaly.isWeakCipher := by
    rw [filter_findings]
    exact List.mem_cons_self
  exact ⟨_, _, ((yields_auditReader .release _).outcome_eq hfree).trans hok,
    ((yields_readMetadata .release _).outcome_eq hfree).trans metadataIn_decryptedImage,
    EncryptionMethod.decode_of_not_defined hundefined, (List.mem_filter.mp hweak).1,
    mt (weakCipherExact_findings _ toGo).mp hundefined⟩

end BitlockerForensic
