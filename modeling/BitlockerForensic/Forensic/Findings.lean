import BitlockerForensic.Core.ClearKey
import BitlockerForensic.Forensic.Audit

/-!
# What the auditor finds

The findings of an audit, in terms of the VMK entries of the metadata, and when
a clear-key finding stands for a clear key that is really stored.
-/

namespace BitlockerForensic

open RustStd
open Bitlocker

def findings (md : FveMetadata) (toGo : Bool) : List Anomaly :=
  (if toGo then [Anomaly.new .toGo] else []) ++
    (if ¬ isAesXts md.encryptionMethod then
      [Anomaly.new (.weakCipher md.encryptionMethod)] else []) ++
    (md.vmkEntries.map MetadataEntry.typeField).flatMap auditProtector

theorem audit_eq (md : FveMetadata) (toGo : Bool) : audit md toGo = .ok (findings md toGo) := by
  rw [audit, FveMetadata.protectorTypes_eq]
  rfl

/-! ## The protector inventory -/

def AnomalyKind.protectorType : AnomalyKind → Option UInt16
  | protector t => some t
  | _ => none

def protectorsIn (found : List Anomaly) : List UInt16 :=
  found.filterMap fun a ↦ a.kind.protectorType

theorem protectorsIn_append (found found' : List Anomaly) :
    protectorsIn (found ++ found') = protectorsIn found ++ protectorsIn found' :=
  List.filterMap_append

theorem protectorsIn_auditProtector (t : UInt16) : protectorsIn (auditProtector t) = [t] := by
  unfold auditProtector
  split <;> rfl

theorem protectorsIn_flatMap (types : List UInt16) :
    protectorsIn (types.flatMap auditProtector) = types := by
  have hone : ∀ t, (auditProtector t).filterMap (fun a ↦ a.kind.protectorType) = [t] :=
    protectorsIn_auditProtector
  simp only [protectorsIn, List.filterMap_flatMap, hone, List.flatMap_singleton']

theorem protectorsIn_findings (md : FveMetadata) (toGo : Bool) :
    protectorsIn (findings md toGo) = md.vmkEntries.map MetadataEntry.typeField := by
  have htoGo : protectorsIn (if toGo then [Anomaly.new .toGo] else []) = [] := by
    split <;> rfl
  have hweak : protectorsIn (if ¬ isAesXts md.encryptionMethod then
      [Anomaly.new (.weakCipher md.encryptionMethod)] else []) = [] := by
    split <;> rfl
  rw [findings, protectorsIn_append, protectorsIn_append, htoGo, hweak, protectorsIn_flatMap]
  rfl

theorem mem_protectorsIn {found : List Anomaly} {t : UInt16} :
    t ∈ protectorsIn found ↔ ∃ a ∈ found, a.kind = .protector t := by
  rw [protectorsIn, List.mem_filterMap]
  refine exists_congr fun a ↦ and_congr_right fun _ ↦ ?_
  cases a.kind <;> simp [AnomalyKind.protectorType]

/-! ## Weak-cipher findings -/

def Anomaly.isWeakCipher (a : Anomaly) : Bool :=
  match a.kind with
  | .weakCipher _ => true
  | _ => false

theorem filter_auditProtector (t : UInt16) :
    (auditProtector t).filter Anomaly.isWeakCipher = [] := by
  unfold auditProtector
  split <;> rfl

theorem filter_flatMap_auditProtector (types : List UInt16) :
    (types.flatMap auditProtector).filter Anomaly.isWeakCipher = [] := by
  rw [List.filter_flatMap, List.flatMap_eq_nil_iff]
  exact fun t _ ↦ filter_auditProtector t

theorem filter_findings (md : FveMetadata) (toGo : Bool) :
    (findings md toGo).filter Anomaly.isWeakCipher =
      if ¬ isAesXts md.encryptionMethod then [Anomaly.new (.weakCipher md.encryptionMethod)]
      else [] := by
  have htoGo : (if toGo then [Anomaly.new .toGo] else []).filter Anomaly.isWeakCipher = [] := by
    split <;> rfl
  rw [findings, List.filter_append, List.filter_append, htoGo, filter_flatMap_auditProtector,
    List.nil_append, List.append_nil]
  split <;> rfl

/-- The reader decodes the method, as a CBC cipher. -/
def usesCbc (method : UInt16) : Bool :=
  (EncryptionMethod.decode method).any fun m ↦ m.mode = .cbc

/-- There is a weak-cipher finding if and only if the reader decodes the method as
CBC, and then exactly one, which carries that method. -/
def WeakCipherExact (md : FveMetadata) (found : List Anomaly) : Prop :=
  ((∃ a ∈ found, a.isWeakCipher = true) ↔ usesCbc md.encryptionMethod = true) ∧
    (usesCbc md.encryptionMethod = true → found.filter Anomaly.isWeakCipher =
      [Anomaly.new (.weakCipher md.encryptionMethod)])

theorem usesCbc_of_defined {method : UInt16} (h : EncryptionMethod.Defined method) :
    usesCbc method = true ↔ ¬ isAesXts method = true := by
  rcases h.cases with rfl | rfl | rfl | rfl | rfl | rfl <;> decide

theorem not_usesCbc_of_not_defined {method : UInt16} (h : ¬ EncryptionMethod.Defined method) :
    usesCbc method = false := by
  rw [usesCbc, EncryptionMethod.decode_of_not_defined h]
  rfl

theorem defined_of_isAesXts {method : UInt16} (h : isAesXts method = true) :
    EncryptionMethod.Defined method := by
  rcases decide_eq_true_eq.mp h with rfl | rfl <;> decide

/-- The weak-cipher finding is exact if and only if the method is a defined one:
the auditor takes every method that is not XTS for CBC. -/
theorem weakCipherExact_findings (md : FveMetadata) (toGo : Bool) :
    WeakCipherExact md (findings md toGo) ↔ EncryptionMethod.Defined md.encryptionMethod := by
  have hfound : (∃ a ∈ findings md toGo, a.isWeakCipher = true) ↔
      ¬ isAesXts md.encryptionMethod = true := by
    have hfilter := @List.filter_eq_nil_iff _ Anomaly.isWeakCipher (findings md toGo)
    rw [filter_findings] at hfilter
    by_cases hxts : isAesXts md.encryptionMethod = true
    · rw [if_neg (not_not.mpr hxts)] at hfilter
      refine iff_of_false ?_ (not_not.mpr hxts)
      rintro ⟨a, ha, hweak⟩
      exact hfilter.mp rfl a ha hweak
    · rw [if_pos hxts] at hfilter
      refine iff_of_true ?_ hxts
      by_contra hnone
      exact List.cons_ne_nil _ _ (hfilter.mpr fun a ha hweak ↦ hnone ⟨a, ha, hweak⟩)
  constructor
  · rintro ⟨hexact, -⟩
    by_contra hundefined
    have hcbc := hexact.mp (hfound.mpr (mt defined_of_isAesXts hundefined))
    rw [not_usesCbc_of_not_defined hundefined] at hcbc
    cases hcbc
  · intro hdefined
    have hcbc := usesCbc_of_defined hdefined
    refine ⟨hfound.trans hcbc.symm, ?_⟩
    intro huses
    rw [filter_findings, if_pos (hcbc.mp huses)]

/-! ## Clear-key findings -/

def Anomaly.isClearKey (a : Anomaly) : Bool := a.kind = .clearKeyPresent

theorem countP_auditProtector (t : UInt16) :
    (auditProtector t).countP Anomaly.isClearKey = if t = protClearKey then 1 else 0 := by
  unfold auditProtector
  split <;> rfl

theorem countP_flatMap_auditProtector (types : List UInt16) :
    (types.flatMap auditProtector).countP Anomaly.isClearKey =
      types.countP (· = protClearKey) := by
  induction types with
  | nil => rfl
  | cons t types ih =>
      rw [List.flatMap_cons, List.countP_append, countP_auditProtector, ih, List.countP_cons]
      simp only [decide_eq_true_eq]
      omega

theorem countP_findings (md : FveMetadata) (toGo : Bool) :
    (findings md toGo).countP Anomaly.isClearKey =
      md.vmkEntries.countP fun e ↦ e.typeField = protClearKey := by
  have htoGo : (if toGo then [Anomaly.new .toGo] else []).countP Anomaly.isClearKey = 0 := by
    split <;> rfl
  have hweak : (if ¬ isAesXts md.encryptionMethod then
      [Anomaly.new (.weakCipher md.encryptionMethod)] else []).countP Anomaly.isClearKey = 0 := by
    split <;> rfl
  rw [findings, List.countP_append, List.countP_append, htoGo, hweak,
    countP_flatMap_auditProtector, List.countP_map]
  simp only [Nat.zero_add, Function.comp_def]

/-- The protection type that the value data stores at offset 26, if it reaches
that far. -/
def storedProtectionType (e : MetadataEntry) : Option UInt16 :=
  match e.data.toList[26]?, e.data.toList[27]? with
  | some lo, some hi => some (UInt16.ofNat (lo.toNat + 256 * hi.toNat))
  | _, _ => none

def StoresClearKey (e : MetadataEntry) : Bool :=
  e.isVmk ∧ storedProtectionType e = some protClearKey

theorem storedProtectionType_of_le {e : MetadataEntry} (h : 28 ≤ e.data.length) :
    storedProtectionType e = some e.typeField := by
  have hlen : 28 ≤ e.data.toList.length := h
  have hlo : e.data.toList[26]? = some (e.data.toList.get ⟨26, by omega⟩) :=
    List.getElem?_eq_getElem (by omega)
  have hhi : e.data.toList[27]? = some (e.data.toList.get ⟨27, by omega⟩) :=
    List.getElem?_eq_getElem (by omega)
  have hbytes : (e.data.toList.take 28).drop 26 =
      [e.data.toList.get ⟨26, by omega⟩, e.data.toList.get ⟨27, by omega⟩] := by
    apply List.ext_getElem
    · simp only [List.length_drop, List.length_take, List.length_cons, List.length_nil]
      omega
    · intro i hi hi'
      match i, hi' with
      | 0, _ => simp
      | 1, _ => simp
  have hfield : leAt e.data.toList 26 2 = (e.data.toList.get ⟨26, by omega⟩).toNat +
      256 * (e.data.toList.get ⟨27, by omega⟩).toNat := by
    rw [leAt, if_pos hlen, hbytes]
    simp only [leNat, Nat.mul_zero, Nat.add_zero]
  rw [storedProtectionType, hlo, hhi, MetadataEntry.typeField, hfield]

theorem storedProtectionType_of_lt {e : MetadataEntry} (h : e.data.length < 28) :
    storedProtectionType e = none := by
  have hnone : e.data.toList[27]? = none :=
    List.getElem?_eq_none (by rw [Bytes.length] at h; omega)
  rw [storedProtectionType, hnone]
  cases e.data.toList[26]? <;> rfl

theorem typeField_of_lt {e : MetadataEntry} (h : e.data.length < 28) :
    e.typeField = protClearKey := by
  rw [MetadataEntry.typeField, leAt, if_neg (by rw [Bytes.length] at h; omega)]
  rfl

theorem countP_typeField (es : List MetadataEntry) :
    es.countP (fun e ↦ e.typeField = protClearKey) =
      es.countP (fun e ↦ storedProtectionType e = some protClearKey) +
        es.countP (fun e ↦ e.data.length < 28) := by
  induction es with
  | nil => rfl
  | cons e es ih =>
      simp only [List.countP_cons, ih, decide_eq_true_eq]
      by_cases h : e.data.length < 28
      · rw [storedProtectionType_of_lt h, typeField_of_lt h, if_pos rfl, if_pos h,
          if_neg (by simp)]
        omega
      · rw [storedProtectionType_of_le (Nat.le_of_not_lt h), if_neg h]
        simp only [Option.some.injEq]
        omega

theorem countP_storesClearKey (md : FveMetadata) :
    md.entries.countP StoresClearKey =
      md.vmkEntries.countP fun e ↦ storedProtectionType e = some protClearKey := by
  rw [FveMetadata.vmkEntries, List.countP_filter]
  refine List.countP_congr fun e _ ↦ ?_
  simp only [StoresClearKey, Bool.decide_and, Bool.decide_eq_true, Bool.and_eq_true,
    decide_eq_true_eq]
  exact and_comm

/-- The clear-key findings are exactly those of the stored clear keys: there is
one if and only if there is a stored clear key, and as many. -/
def ClearKeysExact (md : FveMetadata) (found : List Anomaly) : Prop :=
  ((∃ a ∈ found, a.kind = .clearKeyPresent) ↔ ∃ e ∈ md.entries, StoresClearKey e = true) ∧
    found.countP Anomaly.isClearKey = md.entries.countP StoresClearKey

theorem clearKeysExact_iff_countP (md : FveMetadata) (found : List Anomaly) :
    ClearKeysExact md found ↔
      found.countP Anomaly.isClearKey = md.entries.countP StoresClearKey := by
  refine ⟨And.right, fun hcount ↦ ⟨?_, hcount⟩⟩
  have hfound : (∃ a ∈ found, a.kind = .clearKeyPresent) ↔
      0 < found.countP Anomaly.isClearKey := by
    rw [List.countP_pos_iff]
    simp only [Anomaly.isClearKey, decide_eq_true_eq]
  rw [hfound, hcount, List.countP_pos_iff]

/-- The clear-key findings of an audit are exact if and only if every VMK entry
reaches its protection type. -/
theorem clear_key_findings_exact_iff (md : FveMetadata) (toGo : Bool) :
    (∃ found, audit md toGo = .ok found ∧ ClearKeysExact md found) ↔
      ∀ e ∈ md.entries, e.isVmk = true → 28 ≤ e.data.length := by
  have hcounts := countP_typeField md.vmkEntries
  have hshort : md.vmkEntries.countP (fun e ↦ e.data.length < 28) = 0 ↔
      ∀ e ∈ md.entries, e.isVmk = true → 28 ≤ e.data.length := by
    rw [List.countP_eq_zero]
    simp only [FveMetadata.mem_vmkEntries, and_imp, decide_eq_true_eq, Nat.not_lt]
  rw [← hshort]
  constructor
  · rintro ⟨found, haudit, hexact⟩
    rw [audit_eq] at haudit
    cases haudit
    rw [clearKeysExact_iff_countP, countP_findings, countP_storesClearKey] at hexact
    omega
  · intro hnone
    refine ⟨findings md toGo, audit_eq md toGo, ?_⟩
    rw [clearKeysExact_iff_countP, countP_findings, countP_storesClearKey]
    omega

def shortVmkBlock : BlockLayout :=
  { sampleBlock 0 0 with
    entries := [⟨entryTypeVmk, valueTypeVmk, 1, Bytes.ofList (List.replicate 26 0x41)⟩]
    encodable := by decide +kernel
    size_lt := by decide +kernel }

/-- The short entry is reported as a clear key, and no clear key is stored. -/
theorem short_vmk_reported_as_clear_key :
    ∃ md found, FveMetadata.parse .release (Bytes.ofList shortVmkBlock.encode) 512 =
        .ok (some md) ∧
      audit md false = .ok found ∧ Anomaly.new .clearKeyPresent ∈ found ∧
      (∀ e ∈ md.entries, StoresClearKey e = false) ∧ ¬ ClearKeysExact md found := by
  have hencode : (Bytes.ofList shortVmkBlock.encode).toList = shortVmkBlock.encode ++ [] := by
    rw [List.append_nil, Bytes.ofList_toList (by decide +kernel)]
  have hparse : FveMetadata.parse .release (Bytes.ofList shortVmkBlock.encode) 512 =
      .ok (some (shortVmkBlock.metadata 512)) := by
    rw [FveMetadata.parse_eq, shortVmkBlock.metadataOf_encode hencode]
  have hnone : ∀ e ∈ (shortVmkBlock.metadata 512).entries, StoresClearKey e = false := by
    decide +kernel
  have hfound : Anomaly.new .clearKeyPresent ∈ findings (shortVmkBlock.metadata 512) false := by
    decide +kernel
  refine ⟨_, _, hparse, audit_eq _ _, hfound, hnone, fun hexact ↦ ?_⟩
  obtain ⟨e, he, hstores⟩ := hexact.1.mp ⟨_, hfound, rfl⟩
  rw [hnone e he] at hstores
  cases hstores

end BitlockerForensic
