import BitlockerForensic.Core.Calls
import BitlockerForensic.Core.ClearKey

/-!
# Unlocking is fail-closed

A volume only opens through a complete chain of verified keys, and stays the
volume that chain opened.
-/

namespace Bitlocker

open RustStd
open RustStd.Reader

variable (P : Crates)

/-- A chain of verified keys from a protector to the FVEK container of a
kind. -/
structure KeyChain (p : Profile) (md : FveMetadata) (kind : SectorCipherKind)
    (protectorType : UInt16) (unwrap : VmkUnwrap) where
  vmkEntry : MetadataEntry
  mem_entries : vmkEntry ∈ md.entries
  isVmk : vmkEntry.isVmk = true
  type_stored : 28 ≤ vmkEntry.data.length
  type_eq : vmkEntry.protectionType = .ok (some protectorType)
  blob : MetadataEntry
  mem_properties : blob ∈ vmkEntry.nestedOf 28
  blob_type : blob.valueType = valueTypeAesCcm
  key : Octets 32
  key_eq : unwrapKey P p (vmkEntry.nestedOf 28) unwrap = .ok key
  vmkContainer : Bytes
  vmk_verified : aesCcmUnwrap P key blob.data = .ok (some vmkContainer)
  vmk_length : 44 ≤ vmkContainer.length
  fvekEntry : MetadataEntry
  fvek_found : md.fvekEntry = some fvekEntry
  container : Bytes
  fvek_verified :
    aesCcmUnwrap P (arrayAt 32 vmkContainer 12) fvekEntry.data = .ok (some container)
  container_length : kind.keyEnd ≤ container.length

theorem MetadataEntry.nestedOf_eq_nil {e : MetadataEntry} {offset : ℕ}
    (h : e.data.length ≤ offset) : e.nestedOf offset = [] := by
  have hempty : (e.data.window (min offset e.data.length) e.data.length).length = 0 := by
    rw [Bytes.window_length _ (le_refl _)]
    omega
  have hnone : front (e.data.window (min offset e.data.length) e.data.length) = none := by
    unfold front
    rw [if_neg (by omega)]
  rw [nestedOf, entriesOf_step, hnone]

theorem exists_keyChain {p : Profile} {md : FveMetadata} {kind : SectorCipherKind}
    {protectorType : UInt16} {protectorName : String} {unwrap : VmkUnwrap}
    {cipher : SectorCipher P}
    (h : deriveCipher P p md kind protectorType protectorName unwrap = .ok cipher) :
    ∃ chain : KeyChain P p md kind protectorType unwrap,
      cipher = ⟨keyedTransform chain.container kind⟩ := by
  obtain ⟨e, vmk, container, he, hvmk, hcontainer, hlen, hcipher⟩ := (deriveCipher_eq_ok P).mp h
  obtain ⟨blob, key, vmkContainer, hblob, hkey, hopen, hvmklen, rfl⟩ := (vmkOf_eq_ok P).mp hvmk
  obtain ⟨fvek, hfvek, hfopen⟩ := (fvekContainer_eq_ok P).mp hcontainer
  obtain ⟨hmem, hisVmk⟩ := FveMetadata.mem_vmkEntries.mp (List.mem_of_find?_eq_some he)
  have htype : e.typeField = protectorType := by simpa using List.find?_some he
  have hprop : blob ∈ e.nestedOf 28 := List.mem_of_find?_eq_some hblob
  have hstored : 28 ≤ e.data.length := by
    by_contra hshort
    rw [MetadataEntry.nestedOf_eq_nil (by omega)] at hprop
    cases hprop
  exact ⟨{
    vmkEntry := e
    mem_entries := hmem
    isVmk := hisVmk
    type_stored := hstored
    type_eq := by rw [MetadataEntry.protectionType_eq, if_pos hisVmk, htype]
    blob := blob
    mem_properties := hprop
    blob_type := by simpa using List.find?_some hblob
    key := key
    key_eq := by rw [unwrapKey_eq, hkey]
    vmkContainer := vmkContainer
    vmk_verified := by rw [aesCcmUnwrap_eq, hopen]
    vmk_length := hvmklen
    fvekEntry := fvek
    fvek_found := hfvek
    container := container
    fvek_verified := by rw [aesCcmUnwrap_eq, hfopen]
    container_length := hlen }, hcipher⟩

theorem method_ne_none {raw : UInt16} {kind : SectorCipherKind}
    (h : gatedKind raw = some kind) : raw ≠ methodNone ∧ raw ≠ 0x8001 := by
  rw [gatedKind_eq_some.mp h]
  cases kind <;> decide

/-- A volume only opens for a validated method, with a VMK entry of exactly the
requested type whose tag verifies, an FVEK whose tag verifies under the VMK,
and the keys of the method's byte ranges.  No sequence of calls changes its
metadata or its cipher, so no call meets an unencrypted method. -/
theorem unlock_fail_closed {p : Profile} {cred : Credential} {r : Reader}
    {v : DecryptedVolume (SectorCipher P)} (h : cred.unlock P p r = .ok v) :
    ∃ method kind unwrap, ∃ chain : KeyChain P p v.metadata kind cred.protectorType unwrap,
      metadataIn r.image = .ok v.metadata ∧
      EncryptionMethod.decode v.metadata.encryptionMethod = some method ∧
      method.validatedKind = some kind ∧
      cred.unwrap P p = .ok unwrap ∧
      v.cipher = ⟨keyedTransform chain.container kind⟩ ∧
      ∀ profile ls v', Lts.Run (DecryptedVolume.Step profile) v ls v' →
        v'.metadata.encryptionMethod ≠ methodNone ∧ v'.metadata.encryptionMethod ≠ 0x8001 ∧
          v'.metadata = v.metadata ∧ v'.cipher = ⟨keyedTransform chain.container kind⟩ := by
  obtain ⟨unwrap, hunwrap, hopened⟩ := Credential.opened P h
  obtain ⟨kind, hkind, hderive⟩ := hopened.kind
  obtain ⟨chain, hcipher⟩ := exists_keyChain P hderive
  obtain ⟨method, hmethod, hvalidated⟩ := Option.bind_eq_some_iff.mp hkind
  refine ⟨method, kind, unwrap, chain, hopened.metadata, hmethod, hvalidated, hunwrap, hcipher, ?_⟩
  intro profile ls v' hrun
  have hframe := DecryptedVolume.Run.frame hrun
  obtain ⟨hnone, hdiffuser⟩ := method_ne_none hkind
  rw [hframe.metadata, hframe.cipher]
  exact ⟨hnone, hdiffuser, rfl, hcipher⟩

theorem unlock_fail_closed_sample :
    ∃ v, Credential.clearKey.unlock sampleCrates .debug (Reader.ofImage (sampleImage 0 0)) =
        .ok v ∧
      ∀ profile ls v', Lts.Run (DecryptedVolume.Step profile) v ls v' →
        v'.metadata.encryptionMethod ≠ methodNone := by
  obtain ⟨v, hv⟩ := sampleImage_unlocks .debug 0 0
    (Reader.errorFree_ofImage (sampleImage 0 0)) rfl
  obtain ⟨method, kind, unwrap, chain, -, -, -, -, -, hrun⟩ := unlock_fail_closed sampleCrates hv
  exact ⟨v, hv, fun profile ls v' h ↦ (hrun profile ls v' h).1⟩

end Bitlocker
