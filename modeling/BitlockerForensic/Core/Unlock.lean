import Mathlib.Data.List.Find
import BitlockerForensic.Core.KeyPath
import BitlockerForensic.Core.Reading

/-!
# Unlocking as a function of the image

`derive_cipher` and the unlock calls as total functions of the metadata and
the image, and what each successful one has established.
-/

namespace Bitlocker

open RustStd
open RustStd.Reader

variable (P : Crates)

/-! ## The cipher of a protector -/

def vmkOf (e : MetadataEntry) (unwrap : VmkUnwrap) : Res BdeError (Octets 32) := do
  let props := e.nestedOf 28
  let ccm ← okOr (property props valueTypeAesCcm) (.missingKeyMaterial "VMK AES-CCM key")
  let key ← unwrapKeyOf P props unwrap
  let container ← okOr (ccmOpen P key ccm.data) (.authenticationFailed "volume master key")
  if 44 ≤ container.length then .ok (arrayAt 32 container 12)
  else .error (.err (.malformedKeyContainer "volume master key" container.length 44))

def fvekContainer (md : FveMetadata) (vmk : Octets 32) : Res BdeError Bytes := do
  let fvek ← okOr md.fvekEntry (.missingKeyMaterial "FVEK entry")
  okOr (ccmOpen P vmk fvek.data) (.authenticationFailed "FVEK")

def vmkFor (md : FveMetadata) (protectorType : UInt16) : Option MetadataEntry :=
  md.vmkEntries.find? fun e ↦ e.typeField = protectorType

theorem vmkFor_eq_none {md : FveMetadata} {protectorType : UInt16} :
    vmkFor md protectorType = none ↔ ∀ e ∈ md.vmkEntries, e.typeField ≠ protectorType := by
  simp [vmkFor]

theorem findProtector_eq (md : FveMetadata) (protectorType : UInt16) (protectorName : String) :
    findProtector md protectorType protectorName =
      okOr (vmkFor md protectorType)
        (.noUnlockProtector protectorName (md.vmkEntries.map MetadataEntry.typeField)) := by
  have htest : ∀ e : MetadataEntry,
      (do return (← e.protectionType) == some protectorType : Res BdeError Bool) =
        .ok ((if e.isVmk then some e.typeField else none) == some protectorType) := by
    intro e
    rw [MetadataEntry.protectionType_eq]
    rfl
  have hfind : md.vmkEntries.find?
      (fun e ↦ (if e.isVmk then some e.typeField else none) == some protectorType) =
        vmkFor md protectorType := by
    refine List.find?_congr fun e he ↦ ?_
    rw [if_pos (FveMetadata.mem_vmkEntries.mp he).2]
    rfl
  rw [findProtector, findM?_ok htest, hfind, ok_bind]
  cases vmkFor md protectorType with
  | none =>
      rw [FveMetadata.protectorTypes_eq]
      rfl
  | some e => rfl

theorem deriveCipher_eq (p : Profile) (md : FveMetadata) (kind : SectorCipherKind)
    (protectorType : UInt16) (protectorName : String) (unwrap : VmkUnwrap) :
    deriveCipher P p md kind protectorType protectorName unwrap = (do
      let e ← okOr (vmkFor md protectorType)
        (.noUnlockProtector protectorName (md.vmkEntries.map MetadataEntry.typeField))
      let vmk ← vmkOf P e unwrap
      let container ← fvekContainer P md vmk
      buildCipher P p container kind) := by
  unfold deriveCipher vmkOf fvekContainer
  simp only [findProtector_eq, MetadataEntry.nested_eq, aesCcmUnwrap_eq, unwrapKey_eq, takeKey32,
    takeKey_eq p "volume master key" (by decide : 12 + 32 < 2 ^ 64), monadLift_ok, ok_bind,
    bind_assoc]
  rfl

/-! ## What the key path can report -/

def KeyFault : Fault BdeError → Prop
  | .err (.missingKeyMaterial _) => True
  | .err (.authenticationFailed _) => True
  | .err (.malformedKeyContainer _ _ _) => True
  | _ => False

theorem KeyFault.isReported {fault : Fault BdeError} (h : KeyFault fault) : fault.IsReported := by
  cases fault with
  | err e => trivial
  | panic cause => exact h

theorem unwrapKeyOf_fails (props : List MetadataEntry) (unwrap : VmkUnwrap) :
    FailsOnly KeyFault (unwrapKeyOf P props unwrap) := by
  cases unwrap with
  | stretch keyHash =>
      exact (failsOnly_okOr _ trivial).bind fun _ _ ↦
        failsOnly_ite (failsOnly_ok _) (failsOnly_error trivial)
  | clear =>
      exact (failsOnly_okOr _ trivial).bind fun _ _ ↦
        failsOnly_ite (failsOnly_ok _) (failsOnly_error trivial)
  | external key => exact failsOnly_ok key

theorem vmkOf_fails (e : MetadataEntry) (unwrap : VmkUnwrap) :
    FailsOnly KeyFault (vmkOf P e unwrap) :=
  (failsOnly_okOr _ trivial).bind fun _ _ ↦ (unwrapKeyOf_fails P _ _).bind fun _ _ ↦
    (failsOnly_okOr _ trivial).bind fun _ _ ↦
      failsOnly_ite (failsOnly_ok _) (failsOnly_error trivial)

theorem fvekContainer_fails (md : FveMetadata) (vmk : Octets 32) :
    FailsOnly KeyFault (fvekContainer P md vmk) :=
  (failsOnly_okOr _ trivial).bind fun _ _ ↦ failsOnly_okOr _ trivial

theorem buildCipher_fails (p : Profile) (container : Bytes) (kind : SectorCipherKind) :
    FailsOnly KeyFault (buildCipher P p container kind) := by
  by_cases hlen : kind.keyEnd ≤ container.length
  · rw [buildCipher_ok P p hlen]
    exact failsOnly_ok _
  · obtain ⟨need, hshort⟩ := buildCipher_short P p (Nat.lt_of_not_le hlen)
    rw [hshort]
    exact failsOnly_error trivial

theorem keyed_fails (p : Profile) (md : FveMetadata) (kind : SectorCipherKind)
    (unwrap : VmkUnwrap) (e : MetadataEntry) :
    FailsOnly KeyFault (do
      let vmk ← vmkOf P e unwrap
      let container ← fvekContainer P md vmk
      buildCipher P p container kind) :=
  (vmkOf_fails P e unwrap).bind fun vmk _ ↦ (fvekContainer_fails P md vmk).bind fun container _ ↦
    buildCipher_fails P p container kind

/-- The derivation reports a missing protector exactly when no VMK entry has
the requested type, and then with the types of them all. -/
theorem deriveCipher_eq_noUnlockProtector (p : Profile) (md : FveMetadata)
    (kind : SectorCipherKind) (protectorType : UInt16) (protectorName : String)
    (unwrap : VmkUnwrap) {name : String} {found : List UInt16} :
    deriveCipher P p md kind protectorType protectorName unwrap =
        .error (.err (.noUnlockProtector name found)) ↔
      vmkFor md protectorType = none ∧ protectorName = name ∧
        md.vmkEntries.map MetadataEntry.typeField = found := by
  rw [deriveCipher_eq]
  cases vmkFor md protectorType with
  | none => simp [okOr_none]
  | some e =>
      rw [okOr_some, ok_bind]
      constructor
      · intro h
        exact absurd (keyed_fails P p md kind unwrap e _ h) id
      · rintro ⟨h, -⟩
        cases h

theorem vmkOf_eq_ok {e : MetadataEntry} {unwrap : VmkUnwrap} {vmk : Octets 32} :
    vmkOf P e unwrap = .ok vmk ↔
      ∃ blob key container, property (e.nestedOf 28) valueTypeAesCcm = some blob ∧
        unwrapKeyOf P (e.nestedOf 28) unwrap = .ok key ∧
        ccmOpen P key blob.data = some container ∧ 44 ≤ container.length ∧
        vmk = arrayAt 32 container 12 := by
  constructor
  · intro h
    obtain ⟨blob, hblob, hrest⟩ := bind_eq_ok.mp h
    obtain ⟨key, hkey, hrest⟩ := bind_eq_ok.mp hrest
    obtain ⟨container, hcontainer, hrest⟩ := bind_eq_ok.mp hrest
    split at hrest
    · rename_i hlen
      cases hrest
      exact ⟨blob, key, container, okOr_eq_ok.mp hblob, hkey, okOr_eq_ok.mp hcontainer, hlen, rfl⟩
    · cases hrest
  · rintro ⟨blob, key, container, hblob, hkey, hcontainer, hlen, rfl⟩
    simp only [vmkOf, hblob, okOr_some, ok_bind, hkey, hcontainer, if_pos hlen]

theorem fvekContainer_eq_ok {md : FveMetadata} {vmk : Octets 32} {container : Bytes} :
    fvekContainer P md vmk = .ok container ↔
      ∃ fvek, md.fvekEntry = some fvek ∧ ccmOpen P vmk fvek.data = some container := by
  constructor
  · intro h
    obtain ⟨fvek, hfvek, hrest⟩ := bind_eq_ok.mp h
    exact ⟨fvek, okOr_eq_ok.mp hfvek, okOr_eq_ok.mp hrest⟩
  · rintro ⟨fvek, hfvek, hopen⟩
    rw [fvekContainer, hfvek, okOr_some, ok_bind, hopen, okOr_some]

/-- The entry's VMK blob authenticates under the key obtained from this entry,
and the VMK in it opens an FVEK container long enough for the kind. -/
def Usable (md : FveMetadata) (kind : SectorCipherKind) (unwrap : VmkUnwrap)
    (e : MetadataEntry) : Prop :=
  ∃ vmk container, vmkOf P e unwrap = .ok vmk ∧ fvekContainer P md vmk = .ok container ∧
    kind.keyEnd ≤ container.length

theorem deriveCipher_eq_ok {p : Profile} {md : FveMetadata} {kind : SectorCipherKind}
    {protectorType : UInt16} {protectorName : String} {unwrap : VmkUnwrap}
    {cipher : SectorCipher P} :
    deriveCipher P p md kind protectorType protectorName unwrap = .ok cipher ↔
      ∃ e vmk container, vmkFor md protectorType = some e ∧ vmkOf P e unwrap = .ok vmk ∧
        fvekContainer P md vmk = .ok container ∧ kind.keyEnd ≤ container.length ∧
        cipher = ⟨keyedTransform container kind⟩ := by
  rw [deriveCipher_eq]
  constructor
  · intro h
    obtain ⟨e, he, hrest⟩ := bind_eq_ok.mp h
    obtain ⟨vmk, hvmk, hrest⟩ := bind_eq_ok.mp hrest
    obtain ⟨container, hcontainer, hbuild⟩ := bind_eq_ok.mp hrest
    by_cases hlen : kind.keyEnd ≤ container.length
    · rw [buildCipher_ok P p hlen] at hbuild
      cases hbuild
      exact ⟨e, vmk, container, okOr_eq_ok.mp he, hvmk, hcontainer, hlen, rfl⟩
    · obtain ⟨need, hshort⟩ := buildCipher_short P p (Nat.lt_of_not_le hlen)
      rw [hshort] at hbuild
      cases hbuild
  · rintro ⟨e, vmk, container, he, hvmk, hcontainer, hlen, rfl⟩
    rw [he, okOr_some, ok_bind, hvmk, ok_bind, hcontainer, ok_bind, buildCipher_ok P p hlen]

theorem exists_deriveCipher_eq_ok (p : Profile) {md : FveMetadata} {kind : SectorCipherKind}
    {protectorType : UInt16} (protectorName : String) {unwrap : VmkUnwrap} :
    (∃ cipher, deriveCipher P p md kind protectorType protectorName unwrap = .ok cipher) ↔
      ∃ e, vmkFor md protectorType = some e ∧ Usable P md kind unwrap e := by
  constructor
  · rintro ⟨cipher, h⟩
    obtain ⟨e, vmk, container, he, hvmk, hcontainer, hlen, -⟩ := (deriveCipher_eq_ok P).mp h
    exact ⟨e, he, vmk, container, hvmk, hcontainer, hlen⟩
  · rintro ⟨e, he, vmk, container, hvmk, hcontainer, hlen⟩
    exact ⟨_, (deriveCipher_eq_ok P).mpr
      ⟨e, vmk, container, he, hvmk, hcontainer, hlen, rfl⟩⟩

/-! ## The shared unlock path -/

def gate (raw : UInt16) : Res BdeError SectorCipherKind := do
  let method ← okOr (EncryptionMethod.decode raw) (.unsupportedEncryptionMethod raw)
  okOr method.validatedKind (.unvalidatedEncryptionMethod raw)

theorem gate_eq_ok {raw : UInt16} {kind : SectorCipherKind} :
    gate raw = .ok kind ↔ gatedKind raw = some kind := by
  unfold gate gatedKind
  cases EncryptionMethod.decode raw with
  | none => simp
  | some method => simp [okOr_eq_ok]

def unlockIn (p : Profile) (image : Image) (protectorType : UInt16) (protectorName : String)
    (unwrap : VmkUnwrap) : Res BdeError (FveMetadata × SectorCipher P × ℕ) := do
  let md ← metadataIn image
  let kind ← gate md.encryptionMethod
  let cipher ← deriveCipher P p md kind protectorType protectorName unwrap
  pure (md, cipher, image.length)

theorem yields_seekEnd (r : Reader) :
    Yields .io (seekReader (.fromEnd 0)) r (.ok r.image.length) := by
  obtain ⟨r', hlater, hok | ⟨e, he, herr⟩⟩ := seek_end_spec r
  · exact ⟨r', hlater, Or.inl (Proc.mapErr_apply hok)⟩
  · exact ⟨r', hlater, Or.inr ⟨e, he, Proc.mapErr_apply herr⟩⟩

theorem yields_unlockProc (p : Profile) (protectorType : UInt16) (protectorName : String)
    (unwrap : VmkUnwrap) (r : Reader) :
    Yields .io (unlockProc P p protectorType protectorName unwrap) r
      (unlockIn P p r.image protectorType protectorName unwrap) := by
  refine (yields_readMetadata p r).bind fun md _ r₁ hlater₁ ↦ ?_
  simp only [gate, bind_assoc]
  refine (Yields.lift _).bind fun method _ r₂ hlater₂ ↦ ?_
  refine (Yields.lift _).bind fun kind _ r₃ hlater₃ ↦ ?_
  refine (Yields.lift _).bind fun cipher _ r₄ hlater₄ ↦ ?_
  have hlater : Later r r₄ := ((hlater₁.trans hlater₂).trans hlater₃).trans hlater₄
  have hend := yields_seekEnd r₄
  rw [hlater.image] at hend
  exact hend.bind_ok fun r₅ _ ↦ Yields.pure _

/-- What a successful unlock has established. -/
structure Opened (p : Profile) (protectorType : UInt16) (protectorName : String)
    (unwrap : VmkUnwrap) (r : Reader) (v : DecryptedVolume (SectorCipher P)) : Prop where
  metadata : metadataIn r.image = .ok v.metadata
  kind : ∃ kind, gatedKind v.metadata.encryptionMethod = some kind ∧
    deriveCipher P p v.metadata kind protectorType protectorName unwrap = .ok v.cipher
  later : Later r v.reader
  totalSize : v.totalSize.toNat = r.image.length
  position : v.position = 0

theorem opened_of_unlock {p : Profile} {protectorType : UInt16} {protectorName : String}
    {unwrap : VmkUnwrap} {r : Reader} {v : DecryptedVolume (SectorCipher P)}
    (h : unlock P p protectorType protectorName unwrap r = .ok v) :
    Opened P p protectorType protectorName unwrap r v := by
  unfold unlock at h
  split at h
  · rename_i md cipher totalSize r' hproc
    cases h
    obtain ⟨hout, r₁, hlater, rfl⟩ :=
      (yields_unlockProc P p protectorType protectorName unwrap r).of_ok hproc
    obtain ⟨md', hmd, hrest⟩ := bind_eq_ok.mp hout
    obtain ⟨kind, hkind, hrest⟩ := bind_eq_ok.mp hrest
    obtain ⟨cipher', hcipher, hpure⟩ := bind_eq_ok.mp hrest
    cases hpure
    exact ⟨hmd, ⟨kind, gate_eq_ok.mp hkind, hcipher⟩, hlater,
      UInt64.toNat_ofNat_of_lt r.image.length_lt, rfl⟩
  · cases h

theorem unlock_of_errorFree (p : Profile) (protectorType : UInt16) (protectorName : String)
    (unwrap : VmkUnwrap) {r : Reader} (hfree : r.ErrorFree) :
    ∃ r', Later r r' ∧ unlock P p protectorType protectorName unwrap r =
      (do
        let (md, cipher, totalSize) ← unlockIn P p r.image protectorType protectorName unwrap
        pure ⟨r', cipher, md, UInt64.ofNat totalSize, 0⟩) := by
  obtain ⟨r', hlater, hproc⟩ :=
    (yields_unlockProc P p protectorType protectorName unwrap r).of_errorFree hfree
  refine ⟨r', hlater, ?_⟩
  rw [unlock, hproc]
  cases unlockIn P p r.image protectorType protectorName unwrap <;> rfl

theorem unlock_of_keys {p : Profile} {protectorType : UInt16} (protectorName : String)
    {unwrap : VmkUnwrap} {r : Reader} (hfree : r.ErrorFree) {md : FveMetadata}
    {kind : SectorCipherKind} {e : MetadataEntry} {vmk : Octets 32} {container : Bytes}
    (hmd : metadataIn r.image = .ok md) (hkind : gatedKind md.encryptionMethod = some kind)
    (he : vmkFor md protectorType = some e) (hvmk : vmkOf P e unwrap = .ok vmk)
    (hcontainer : fvekContainer P md vmk = .ok container)
    (hlen : kind.keyEnd ≤ container.length) :
    ∃ v, unlock P p protectorType protectorName unwrap r = .ok v ∧ Later r v.reader ∧
      v.cipher = ⟨keyedTransform container kind⟩ ∧ v.metadata = md ∧
      v.totalSize.toNat = r.image.length := by
  obtain ⟨r', hlater, hunlock⟩ := unlock_of_errorFree P p protectorType protectorName unwrap hfree
  have hderive : deriveCipher P p md kind protectorType protectorName unwrap =
      .ok ⟨keyedTransform container kind⟩ :=
    (deriveCipher_eq_ok P).mpr ⟨e, vmk, container, he, hvmk, hcontainer, hlen, rfl⟩
  refine ⟨⟨r', ⟨keyedTransform container kind⟩, md, UInt64.ofNat r.image.length, 0⟩, ?_, hlater,
    rfl, rfl, UInt64.toNat_ofNat_of_lt r.image.length_lt⟩
  rw [hunlock, unlockIn, hmd, ok_bind, gate_eq_ok.mpr hkind, ok_bind, hderive]
  rfl

/-- Over a device without errors, an unlock succeeds exactly when the method
passes the gates and the first VMK entry of the requested type is usable. -/
theorem exists_unlock_eq_ok {p : Profile} {protectorType : UInt16} {protectorName : String}
    {unwrap : VmkUnwrap} {r : Reader} (hfree : r.ErrorFree) :
    (∃ v, unlock P p protectorType protectorName unwrap r = .ok v) ↔
      ∃ md kind e, metadataIn r.image = .ok md ∧ gatedKind md.encryptionMethod = some kind ∧
        vmkFor md protectorType = some e ∧ Usable P md kind unwrap e := by
  constructor
  · rintro ⟨v, hv⟩
    have hopened := opened_of_unlock P hv
    obtain ⟨kind, hkind, hderive⟩ := hopened.kind
    obtain ⟨e, he, husable⟩ := (exists_deriveCipher_eq_ok P p protectorName).mp ⟨_, hderive⟩
    exact ⟨v.metadata, kind, e, hopened.metadata, hkind, he, husable⟩
  · rintro ⟨md, kind, e, hmd, hkind, he, vmk, container, hvmk, hcontainer, hlen⟩
    obtain ⟨v, hunlock, -⟩ :=
      unlock_of_keys P protectorName hfree hmd hkind he hvmk hcontainer hlen
    exact ⟨_, hunlock⟩

/-! ## Credentials -/

inductive Credential where
  | password (text : String)
  | recoveryPassword (text : String)
  | clearKey
  | startupKey (bek : Bytes)

namespace Credential

def protectorType : Credential → UInt16
  | password _ => protectionPassword
  | recoveryPassword _ => protectionRecovery
  | clearKey => protectionClear
  | startupKey _ => protectionStartupKey

def protectorName : Credential → String
  | password _ => "password"
  | recoveryPassword _ => "recovery password"
  | clearKey => "clear key"
  | startupKey _ => "startup key"

def unwrap (p : Profile) : Credential → Res BdeError VmkUnwrap
  | password text => .ok (.stretch (passwordHash P text))
  | recoveryPassword text =>
      Res.mapErr .invalidRecoveryPassword (VmkUnwrap.stretch <$> recoveryKeyHash P text)
  | clearKey => .ok .clear
  | startupKey bek => VmkUnwrap.external <$> parseStartupKey p bek

def unlock (p : Profile) (reader : Reader) :
    Credential → Res BdeError (DecryptedVolume (SectorCipher P))
  | password text => unlockWithPassword P p reader text
  | recoveryPassword text => unlockWithRecoveryPassword P p reader text
  | clearKey => unlockClearKey P p reader
  | startupKey bek => unlockWithStartupKey P p reader bek

theorem unlock_eq (p : Profile) (reader : Reader) (cred : Credential) :
    cred.unlock P p reader = (do
      let unwrap ← cred.unwrap P p
      Bitlocker.unlock P p cred.protectorType cred.protectorName unwrap reader) := by
  cases cred with
  | password text => rfl
  | clearKey => rfl
  | recoveryPassword text =>
      simp only [unlock, unlockWithRecoveryPassword, unwrap]
      rcases recoveryKeyHash P text with (reason | cause) | keyHash <;> rfl
  | startupKey bek =>
      simp only [unlock, unlockWithStartupKey, unwrap]
      cases parseStartupKey p bek <;> rfl

theorem opened {p : Profile} {r : Reader} {cred : Credential}
    {v : DecryptedVolume (SectorCipher P)} (h : cred.unlock P p r = .ok v) :
    ∃ unwrap, cred.unwrap P p = .ok unwrap ∧
      Opened P p cred.protectorType cred.protectorName unwrap r v := by
  rw [unlock_eq] at h
  obtain ⟨unwrap, hunwrap, hunlock⟩ := bind_eq_ok.mp h
  exact ⟨unwrap, hunwrap, opened_of_unlock P hunlock⟩

theorem unlock_again {p : Profile} {cred : Credential} {r fresh : Reader}
    {v : DecryptedVolume (SectorCipher P)} (h : cred.unlock P p r = .ok v)
    (hfree : fresh.ErrorFree) (himage : fresh.image = r.image) :
    ∃ v', cred.unlock P p fresh = .ok v' ∧ Later fresh v'.reader ∧
      v'.metadata = v.metadata ∧ v'.cipher = v.cipher ∧ v'.totalSize = v.totalSize := by
  obtain ⟨unwrap, hunwrap, hopened⟩ := opened P h
  obtain ⟨kind, hkind, hderive⟩ := hopened.kind
  obtain ⟨r', hlater, hunlock⟩ := unlock_of_errorFree P p cred.protectorType cred.protectorName
    unwrap hfree
  have hsize : UInt64.ofNat r.image.length = v.totalSize := by
    rw [← hopened.totalSize, UInt64.ofNat_toNat]
  refine ⟨⟨r', v.cipher, v.metadata, v.totalSize, 0⟩, ?_, hlater, rfl, rfl, rfl⟩
  rw [unlock_eq, hunwrap, ok_bind, hunlock, unlockIn, himage, hopened.metadata, ok_bind,
    gate_eq_ok.mpr hkind, ok_bind, hderive, ok_bind, ← hsize]
  rfl

end Credential

end Bitlocker
