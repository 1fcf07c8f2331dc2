import BitlockerForensic.Core.Image
import BitlockerForensic.Core.Secrets

/-!
# Encoded volumes

Images of the documented layout whose protectors wrap a VMK that wraps the
volume key.  Each opens with a credential for the only protector of its type, even
where only one of the copies of the metadata is intact.
-/

namespace Bitlocker

open RustStd
open RustStd.Reader

/-! ## Volume keys -/

inductive KeyMaterial where
  | cbc128Diffuser (fvek tweak : Octets 16)
  | cbc128 (fvek : Octets 16)
  | cbc256 (fvek : Octets 32)
  | xts128 (data tweak : Octets 16)
  | xts256 (data tweak : Octets 32)

namespace KeyMaterial

def kind : KeyMaterial → SectorCipherKind
  | cbc128Diffuser _ _ => .cbc128Diffuser
  | cbc128 _ => .cbc128
  | cbc256 _ => .cbc256
  | xts128 _ _ => .xts128
  | xts256 _ _ => .xts256

def cipher (P : Crates) : KeyMaterial → SectorCipher P
  | cbc128Diffuser fvek tweak => SectorCipher.new fvek tweak
  | cbc128 fvek => SectorCipher.newCbc fvek
  | cbc256 fvek => SectorCipher.newCbc256 fvek
  | xts128 data tweak => ⟨.xts128 data tweak⟩
  | xts256 data tweak => ⟨.xts256 data tweak⟩

def HeldBy (container : Bytes) : KeyMaterial → Prop
  | cbc128Diffuser fvek tweak => Holds container 12 fvek ∧ Holds container 44 tweak
  | cbc128 fvek => Holds container 12 fvek
  | cbc256 fvek => Holds container 12 fvek
  | xts128 data tweak => Holds container 12 data ∧ Holds container 28 tweak
  | xts256 data tweak => Holds container 12 data ∧ Holds container 44 tweak

theorem cipher_of_heldBy (P : Crates) {key : KeyMaterial} {container : Bytes}
    (h : key.HeldBy container) :
    (⟨keyedTransform container key.kind⟩ : SectorCipher P) = key.cipher P ∧
      key.kind.keyEnd ≤ container.length := by
  cases key with
  | cbc128Diffuser fvek tweak =>
      obtain ⟨hfvek, htweak⟩ := h
      refine ⟨?_, htweak.length_le⟩
      simp only [kind, keyedTransform, hfvek.arrayAt_eq, htweak.arrayAt_eq]
      rfl
  | cbc128 fvek =>
      have hfvek : Holds container 12 fvek := h
      refine ⟨?_, hfvek.length_le⟩
      simp only [kind, keyedTransform, hfvek.arrayAt_eq]
      rfl
  | cbc256 fvek =>
      have hfvek : Holds container 12 fvek := h
      refine ⟨?_, hfvek.length_le⟩
      simp only [kind, keyedTransform, hfvek.arrayAt_eq]
      rfl
  | xts128 data tweak =>
      obtain ⟨hdata, htweak⟩ := h
      refine ⟨?_, htweak.length_le⟩
      simp only [kind, keyedTransform, hdata.arrayAt_eq, htweak.arrayAt_eq]
      rfl
  | xts256 data tweak =>
      obtain ⟨hdata, htweak⟩ := h
      refine ⟨?_, htweak.length_le⟩
      simp only [kind, keyedTransform, hdata.arrayAt_eq, htweak.arrayAt_eq]
      rfl

end KeyMaterial

/-! ## Protectors -/

variable (P : Crates)

/-- The key that opens the VMK of an entry with these properties, for the
credential it belongs to. -/
inductive KeySource (props : List MetadataEntry) : Credential → Octets 32 → Prop where
  | password {text : String} {salt : Octets 16} {stretch : MetadataEntry} {key : Octets 32}
      (hprop : property props valueTypeStretch = some stretch)
      (hsalt : Holds stretch.data 4 salt)
      (hkey : stretchKey P (P.sha256 (P.sha256 (utf16Le text)).toList) salt = .ok key) :
      KeySource props (.password text) key
  | recovery {words : FixedArray UInt16 8} {salt : Octets 16} {stretch : MetadataEntry}
      {key : Octets 32} (hprop : property props valueTypeStretch = some stretch)
      (hsalt : Holds stretch.data 4 salt)
      (hkey : stretchKey P (P.sha256 (recoveryKey words.toList)) salt = .ok key) :
      KeySource props (.recoveryPassword (recoveryText words)) key
  | clear {entry : MetadataEntry} {key : Octets 32}
      (hprop : property props valueTypeKey = some entry) (hkey : Holds entry.data 4 key) :
      KeySource props .clearKey key
  | startup {bek : Bytes} {key : Octets 32} {entries nested : List MetadataEntry}
      {external entry : MetadataEntry} (hbek : BekLayout bek key entries nested external entry) :
      KeySource props (.startupKey bek) key

variable {P}

theorem unwrapKeyOf_stretch {props : List MetadataEntry} {hash key : Octets 32} {salt : Octets 16}
    {stretch : MetadataEntry} (hprop : property props valueTypeStretch = some stretch)
    (hsalt : Holds stretch.data 4 salt) (hkey : stretchKey P hash salt = .ok key) :
    unwrapKeyOf P props (.stretch hash) = .ok key := by
  rw [stretchKey_eq] at hkey
  rw [unwrapKeyOf, hprop, okOr_some, ok_bind, if_pos hsalt.length_le, hsalt.arrayAt_eq,
    Except.ok.inj hkey]

theorem KeySource.unwrap (p : Profile) {props : List MetadataEntry} {cred : Credential}
    {key : Octets 32} (h : KeySource P props cred key) :
    ∃ unwrap, cred.unwrap P p = .ok unwrap ∧ unwrapKeyOf P props unwrap = .ok key := by
  cases h with
  | password hprop hsalt hkey => exact ⟨_, rfl, unwrapKeyOf_stretch hprop hsalt hkey⟩
  | recovery hprop hsalt hkey =>
      refine ⟨_, ?_, unwrapKeyOf_stretch hprop hsalt hkey⟩
      rw [Credential.unwrap, recoveryKeyHash_recoveryText]
      rfl
  | clear hprop hkey =>
      refine ⟨.clear, rfl, ?_⟩
      rw [unwrapKeyOf, hprop, okOr_some, ok_bind, if_pos hkey.length_le, hkey.arrayAt_eq]
  | startup hbek =>
      refine ⟨.external key, ?_, rfl⟩
      rw [Credential.unwrap, parseStartupKey_of_layout p hbek]
      rfl

variable (P) in
/-- The VMK entry protects the VMK for the credential: its container, with the
VMK at 12, is wrapped under the key the credential gives. -/
def Protects (cred : Credential) (vmk : Octets 32) (e : MetadataEntry) : Prop :=
  ∃ props key blob container, e.VmkLayout cred.protectorType props ∧
    KeySource P props cred key ∧ property props valueTypeAesCcm = some blob ∧
    WrapsKey P key container blob.data ∧ Holds container 12 vmk

theorem Protects.vmkOf_eq (p : Profile) (laws : CcmLaws P) {cred : Credential} {vmk : Octets 32}
    {e : MetadataEntry} (h : Protects P cred vmk e) :
    ∃ unwrap, cred.unwrap P p = .ok unwrap ∧ vmkOf P e unwrap = .ok vmk := by
  obtain ⟨props, key, blob, container, hlayout, hsource, hblob, hwraps, hvmk⟩ := h
  obtain ⟨unwrap, hunwrap, hkey⟩ := hsource.unwrap p
  have hopen := ccmOpen_of_wrapsKey laws hwraps
    (hlayout.encodable blob (List.mem_of_find?_eq_some hblob))
  refine ⟨unwrap, hunwrap, (vmkOf_eq_ok P).mpr ⟨blob, key, container, ?_, ?_, hopen,
    hvmk.length_le, hvmk.arrayAt_eq.symm⟩⟩
  · rw [hlayout.nestedOf_eq, hblob]
  · rw [hlayout.nestedOf_eq, hkey]

/-! ## Volumes -/

theorem find?_eq_some_of_unique {α : Type} {l : List α} {q : α → Bool} {a : α} (ha : a ∈ l)
    (hq : q a = true) (honly : ∀ b ∈ l, q b = true → b = a) : l.find? q = some a := by
  cases hfind : l.find? q with
  | none => exact absurd hq (List.find?_eq_none.mp hfind a ha)
  | some b => rw [honly b (List.mem_of_find?_eq_some hfind) (List.find?_some hfind)]

def MetadataEntry.IsFvek (e : MetadataEntry) : Prop :=
  e.entryType = entryTypeFvek ∧ e.valueType = valueTypeAesCcm

instance (e : MetadataEntry) : Decidable e.IsFvek := inferInstanceAs (Decidable (_ ∧ _))

/-- The unlock looks at the only VMK entry of the credential's type. -/
theorem Protects.vmkFor_eq {cred : Credential} {vmk : Octets 32} {b : BlockLayout}
    {e : MetadataEntry} (h : Protects P cred vmk e) (he : e ∈ b.entries)
    (honly : ∀ e' ∈ b.entries, e'.isVmk = true → e'.typeField = cred.protectorType → e' = e)
    (bytesPerSector : UInt16) :
    vmkFor (b.metadata bytesPerSector) cred.protectorType = some e := by
  obtain ⟨props, -, -, -, hlayout, -⟩ := h
  apply find?_eq_some_of_unique (FveMetadata.mem_vmkEntries.mpr ⟨he, hlayout.isVmk⟩)
    (decide_eq_true hlayout.typeField_eq)
  intro e' he' htype
  obtain ⟨hmem, hisVmk⟩ := FveMetadata.mem_vmkEntries.mp he'
  exact honly e' hmem hisVmk (of_decide_eq_true htype)

variable (P) in
/-- The first copy of the metadata with its signature intact is the encoded block,
whose one FVEK entry wraps the volume key under the VMK. -/
structure RecoverableVolume (image : Image) (b : BlockLayout) (vmk : Octets 32)
    (key : KeyMaterial) : Prop where
  length_ge : sectorSize ≤ image.length
  copy : ∃ offsets c, candidates image.bytes = some offsets ∧
    offsets.toList.find? (startsBlock image) = some c ∧ b.encode <+: image.bytes.drop c.toNat
  size_le : b.encode.length ≤ metadataReadLen
  method : b.encryptionMethod = key.kind.method
  fvek : ∃ e ∈ b.entries, e.IsFvek ∧ (∀ e' ∈ b.entries, e'.IsFvek → e' = e) ∧
    ∃ container, WrapsKey P vmk container e.data ∧ key.HeldBy container

namespace RecoverableVolume

variable {image : Image} {b : BlockLayout} {vmk : Octets 32} {key : KeyMaterial}

theorem metadataIn_eq (h : RecoverableVolume P image b vmk key) :
    metadataIn image = .ok (b.metadata (sectorBytes image.bytes)) := by
  obtain ⟨offsets, c, hoffsets, hfirst, hblock⟩ := h.copy
  rw [metadataIn_of_candidates h.length_ge hoffsets, firstBlock_eq, hfirst, Option.bind_some,
    blockAt_encode hblock h.size_le]
  rfl

theorem fvekContainer_eq (laws : CcmLaws P) (h : RecoverableVolume P image b vmk key)
    (bytesPerSector : UInt16) :
    ∃ container, fvekContainer P (b.metadata bytesPerSector) vmk = .ok container ∧
      key.HeldBy container := by
  obtain ⟨e, he, hfvek, honly, container, hwraps, hheld⟩ := h.fvek
  refine ⟨container, (fvekContainer_eq_ok P).mpr ⟨e, ?_, ?_⟩, hheld⟩
  · exact find?_eq_some_of_unique he (decide_eq_true hfvek)
      fun e' he' h' ↦ honly e' he' (of_decide_eq_true h')
  · exact ccmOpen_of_wrapsKey laws hwraps (b.encodable e he)

end RecoverableVolume

/-- A volume with an intact copy opens with a credential that the only VMK entry of
its type protects the VMK for. -/
theorem unlock_of_recoverable {p : Profile} (laws : CcmLaws P) {r : Reader} (hfree : r.ErrorFree)
    {b : BlockLayout} {vmk : Octets 32} {key : KeyMaterial}
    (hvolume : RecoverableVolume P r.image b vmk key) {cred : Credential} {e : MetadataEntry}
    (he : e ∈ b.entries) (hprotects : Protects P cred vmk e)
    (honly : ∀ e' ∈ b.entries, e'.isVmk = true → e'.typeField = cred.protectorType → e' = e) :
    ∃ v, cred.unlock P p r = .ok v ∧ Later r v.reader ∧ v.cipher = key.cipher P ∧
      v.metadata = b.metadata (sectorBytes r.image.bytes) ∧
      v.totalSize.toNat = r.image.length := by
  obtain ⟨unwrap, hunwrap, hvmk⟩ := hprotects.vmkOf_eq p laws
  obtain ⟨container, hcontainer, hheld⟩ := hvolume.fvekContainer_eq laws (sectorBytes r.image.bytes)
  obtain ⟨hcipher, hlen⟩ := key.cipher_of_heldBy P hheld
  have hfirst := hprotects.vmkFor_eq he honly (sectorBytes r.image.bytes)
  have hkind : gatedKind (b.metadata (sectorBytes r.image.bytes)).encryptionMethod =
      some key.kind := gatedKind_eq_some.mpr hvolume.method
  obtain ⟨v, hunlock, hlater, hkeyed, hmd, hsize⟩ := unlock_of_keys P cred.protectorName hfree
    hvolume.metadataIn_eq hkind hfirst hvmk hcontainer hlen
  refine ⟨v, ?_, hlater, hkeyed.trans hcipher, hmd, hsize⟩
  rw [Credential.unlock_eq, hunwrap, ok_bind]
  exact hunlock

/-! ## Volumes of the documented layout -/

variable (P) in
/-- The image encodes the block, and the block's one FVEK entry wraps the volume
key under the VMK. -/
structure EncodedVolume (image : Image) (bytesPerSector : UInt16) (b : BlockLayout)
    (vmk : Octets 32) (key : KeyMaterial) : Prop where
  located : ∃ offsets offset, HeaderLayout image bytesPerSector offsets ∧
    (offsets.toList.filter (· ≠ 0)).head? = some offset ∧
    b.encode <+: image.bytes.drop offset.toNat
  size_le : b.encode.length ≤ metadataReadLen
  method : b.encryptionMethod = key.kind.method
  fvek : ∃ e ∈ b.entries, e.IsFvek ∧ (∀ e' ∈ b.entries, e'.IsFvek → e' = e) ∧
    ∃ container, WrapsKey P vmk container e.data ∧ key.HeldBy container

theorem find?_of_head?_filter {α : Type} {q q' : α → Bool} {l : List α} {a : α}
    (hhead : (l.filter q).head? = some a) (ha : q' a = true)
    (hsub : ∀ b, q' b = true → q b = true) : l.find? q' = some a := by
  induction l with
  | nil => cases hhead
  | cons b l ih =>
      by_cases hb : q b = true
      · rw [List.filter_cons_of_pos hb] at hhead
        cases hhead
        rw [List.find?_cons, ha]
      · have hskip : q' b = false := Bool.eq_false_of_not_eq_true fun h ↦ hb (hsub b h)
        rw [List.filter_cons_of_neg hb] at hhead
        rw [List.find?_cons, hskip]
        exact ih hhead

namespace EncodedVolume

variable {image : Image} {bytesPerSector : UInt16} {b : BlockLayout} {vmk : Octets 32}
  {key : KeyMaterial}

theorem bytesPerSector_eq (h : EncodedVolume P image bytesPerSector b vmk key) :
    bytesPerSector = sectorBytes image.bytes := by
  obtain ⟨offsets, offset, hheader, -⟩ := h.located
  exact hheader.bytesPerSector_eq

/-- An encoded volume is one whose first copy is intact. -/
theorem recoverable (h : EncodedVolume P image bytesPerSector b vmk key) :
    RecoverableVolume P image b vmk key := by
  obtain ⟨offsets, offset, hheader, hfirst, rest, hrest⟩ := h.located
  have hnonzero : offset ≠ 0 := by
    have hmem := List.mem_of_mem_head? hfirst
    simpa using (List.mem_filter.mp hmem).2
  have hsig : (image.bytes.drop offset.toNat).take 8 = sigFve := by
    rw [← hrest, BlockLayout.encode, List.append_assoc, List.take_left' BlockLayout.length_sigFve]
  have hstarts : startsBlock image offset = true := decide_eq_true ⟨hnonzero, hsig⟩
  have hcopy : offsets.toList.find? (startsBlock image) = some offset := by
    apply find?_of_head?_filter hfirst hstarts
    intro c hc
    exact decide_eq_true (decide_eq_true_iff.mp hc).1
  exact ⟨hheader.length_ge, ⟨offsets, offset, candidates_of_layout hheader, hcopy, rest, hrest⟩,
    h.size_le, h.method, h.fvek⟩

theorem metadataIn_eq (h : EncodedVolume P image bytesPerSector b vmk key) :
    metadataIn image = .ok (b.metadata bytesPerSector) := by
  rw [h.recoverable.metadataIn_eq, h.bytesPerSector_eq]

end EncodedVolume

/-- A volume of the documented layout opens with a credential that the only VMK
entry of its type protects the VMK for. -/
theorem unlock_of_layout {p : Profile} (laws : CcmLaws P) {r : Reader} (hfree : r.ErrorFree)
    {bytesPerSector : UInt16} {b : BlockLayout} {vmk : Octets 32} {key : KeyMaterial}
    (hvolume : EncodedVolume P r.image bytesPerSector b vmk key) {cred : Credential}
    {e : MetadataEntry} (he : e ∈ b.entries) (hprotects : Protects P cred vmk e)
    (honly : ∀ e' ∈ b.entries, e'.isVmk = true → e'.typeField = cred.protectorType → e' = e) :
    ∃ v, cred.unlock P p r = .ok v ∧ Later r v.reader ∧ v.cipher = key.cipher P ∧
      v.metadata = b.metadata bytesPerSector ∧ v.totalSize.toNat = r.image.length := by
  rw [hvolume.bytesPerSector_eq]
  exact unlock_of_recoverable laws hfree hvolume.recoverable he hprotects honly

end Bitlocker
