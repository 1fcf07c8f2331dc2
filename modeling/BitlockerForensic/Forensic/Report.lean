import BitlockerForensic.Core.ErrorTexts
import BitlockerForensic.Forensic.Agreement

/-!
# The report

The findings that `audit_findings` hands on (`forensic/src/lib.rs`), and what of
the volume can be read back from them.
-/

namespace BitlockerForensic

open RustStd
open Bitlocker

inductive Category where
  | integrity
  | provenance
  | structural
  deriving DecidableEq

structure Evidence (Location : Type) where
  field : String
  value : String
  location : Option Location

namespace AnomalyKind

def category : AnomalyKind → Category
  | clearKeyPresent => .integrity
  | weakCipher _ => .integrity
  | protector _ => .provenance
  | toGo => .structural

def evidence {Location : Type} : AnomalyKind → List (Evidence Location)
  | protector t => [⟨"protector_type", "0x" ++ hex 4 t.toNat, none⟩]
  | weakCipher method => [⟨"encryption_method", "0x" ++ hex 4 method.toNat, none⟩]
  | clearKeyPresent => []
  | toGo => []

end AnomalyKind

/-- What the trait `Observation` shows of an anomaly. -/
structure Observation (Location : Type) where
  severity : Option Severity
  code : String
  note : String
  category : Category
  evidence : List (Evidence Location)

def Anomaly.observation {Location : Type} (a : Anomaly) : Observation Location :=
  ⟨some a.severity, a.code, a.note, a.kind.category, a.kind.evidence⟩

structure Source where
  analyzer : String
  scope : String
  version : Option String

/-- The types of `forensicnomicon::report`, and its `to_finding`. -/
structure ReportCrate where
  Location : Type
  Finding : Type
  toFinding : Observation Location → Source → Finding
  code : Finding → String
  evidence : Finding → List (Evidence Location)

/-- A finding shows the code and the evidence of what was observed. -/
structure ReportCrate.Laws (F : ReportCrate) : Prop where
  code_toFinding : ∀ o source, F.code (F.toFinding o source) = o.code
  evidence_toFinding : ∀ o source, F.evidence (F.toFinding o source) = o.evidence

def analyzer : String := "bitlocker-forensic"

def packageVersion : String := "0.3.5"

def auditFindings (F : ReportCrate) (p : Profile) (scope : String) :
    Proc Reader BdeError (List F.Finding) := do
  let source : Source := ⟨analyzer, scope, some packageVersion⟩
  let found ← auditReader p
  return found.map fun anomaly ↦ F.toFinding anomaly.observation source

/-! ## Texts of a finding -/

namespace AnomalyKind

def initial : AnomalyKind → Char
  | clearKeyPresent => 'a'
  | protector _ => 'k'
  | weakCipher _ => 'v'
  | toGo => 't'

theorem note_clearKeyPresent :
    clearKeyPresent.note =
      "a clear-key protector (type 0x0000) is present; the volume master key is stored " ++
        "unprotected, so the volume can be decrypted with no credential — it is effectively " ++
        "unencrypted (bitlocker-core unlocks it via unlock_clear_key)" := rfl

theorem note_toGo :
    toGo.note =
      "the volume is a BitLocker To Go volume (removable-media BitLocker on a FAT-formatted " ++
        "volume)" := rfl

theorem note_protector (t : UInt16) :
    (protector t).note =
      "key protector present: " ++ protectorName t ++ " (type 0x" ++ hex 4 t.toNat ++ ")" := rfl

theorem note_weakCipher (method : UInt16) :
    (weakCipher method).note =
      "volume cipher is " ++ cipherName method ++ " (method 0x" ++ hex 4 method.toNat ++
        "); AES-CBC, with or without the Elephant Diffuser, is weaker than AES-XTS and is " ++
        "consistent with an older Windows version" := rfl

theorem head?_append_toList {lead : String} {c : Char} (h : lead.toList.head? = some c)
    (rest : String) : (lead ++ rest).toList.head? = some c := by
  rw [String.toList_append, List.head?_append, h, Option.some_or]

theorem head?_note (kind : AnomalyKind) : kind.note.toList.head? = some kind.initial := by
  cases kind with
  | clearKeyPresent =>
      rw [note_clearKeyPresent]
      exact head?_append_toList (head?_append_toList (by simp [initial]) _) _
  | protector t =>
      rw [note_protector]
      exact head?_append_toList (head?_append_toList (head?_append_toList
        (head?_append_toList (by simp [initial]) _) _) _) _
  | weakCipher method =>
      rw [note_weakCipher]
      exact head?_append_toList (head?_append_toList (head?_append_toList
        (head?_append_toList (head?_append_toList (by simp [initial]) _) _) _) _) _
  | toGo =>
      rw [note_toGo]
      exact head?_append_toList (by simp [initial]) _

theorem protector_of_note {t t' : UInt16} (h : (protector t).note = (protector t').note) :
    t = t' := by
  rw [note_protector, note_protector] at h
  exact word_of_text h

theorem weakCipher_of_note {method method' : UInt16}
    (h : (weakCipher method).note = (weakCipher method').note) : method = method' := by
  rw [note_weakCipher, note_weakCipher, String.append_left_inj] at h
  exact word_of_text h

/-- The note alone tells what was found. -/
theorem note_inj {kind kind' : AnomalyKind} (h : kind.note = kind'.note) : kind = kind' := by
  have hinitial : kind.initial = kind'.initial := by
    apply Option.some.inj
    rw [← head?_note, ← head?_note, h]
  cases kind with
  | clearKeyPresent =>
      cases kind' with
      | clearKeyPresent => rfl
      | protector t => exact absurd hinitial (by simp [initial])
      | weakCipher method => exact absurd hinitial (by simp [initial])
      | toGo => exact absurd hinitial (by simp [initial])
  | protector t =>
      cases kind' with
      | protector t' => rw [protector_of_note h]
      | clearKeyPresent => exact absurd hinitial (by simp [initial])
      | weakCipher method => exact absurd hinitial (by simp [initial])
      | toGo => exact absurd hinitial (by simp [initial])
  | weakCipher method =>
      cases kind' with
      | weakCipher method' => rw [weakCipher_of_note h]
      | clearKeyPresent => exact absurd hinitial (by simp [initial])
      | protector t => exact absurd hinitial (by simp [initial])
      | toGo => exact absurd hinitial (by simp [initial])
  | toGo =>
      cases kind' with
      | toGo => rfl
      | clearKeyPresent => exact absurd hinitial (by simp [initial])
      | protector t => exact absurd hinitial (by simp [initial])
      | weakCipher method => exact absurd hinitial (by simp [initial])

theorem value_inj {t t' : UInt16} (h : "0x" ++ hex 4 t.toNat = "0x" ++ hex 4 t'.toNat) :
    t = t' := by
  rw [String.append_right_inj] at h
  exact hex_inj (congrArg String.toList h)

/-- The code tells the case, and the evidence its value. -/
theorem evidence_inj {Location : Type} {kind kind' : AnomalyKind} (hcode : kind.code = kind'.code)
    (h : (kind.evidence : List (Evidence Location)) = kind'.evidence) : kind = kind' := by
  cases kind with
  | clearKeyPresent =>
      cases kind' with
      | clearKeyPresent => rfl
      | protector t => exact absurd hcode (by simp [code])
      | weakCipher method => exact absurd hcode (by simp [code])
      | toGo => exact absurd hcode (by simp [code])
  | protector t =>
      cases kind' with
      | protector t' =>
          have hvalue := (Evidence.mk.inj (List.cons.inj h).1).2.1
          rw [value_inj hvalue]
      | clearKeyPresent => exact absurd hcode (by simp [code])
      | weakCipher method => exact absurd hcode (by simp [code])
      | toGo => exact absurd hcode (by simp [code])
  | weakCipher method =>
      cases kind' with
      | weakCipher method' =>
          have hvalue := (Evidence.mk.inj (List.cons.inj h).1).2.1
          rw [value_inj hvalue]
      | clearKeyPresent => exact absurd hcode (by simp [code])
      | protector t => exact absurd hcode (by simp [code])
      | toGo => exact absurd hcode (by simp [code])
  | toGo =>
      cases kind' with
      | toGo => rfl
      | clearKeyPresent => exact absurd hcode (by simp [code])
      | protector t => exact absurd hcode (by simp [code])
      | weakCipher method => exact absurd hcode (by simp [code])

end AnomalyKind

/-! ## The inventory -/

/-- What the auditor looks at: the kind of volume, the method where it is not XTS, and
the types of the protectors. -/
structure Inventory where
  toGo : Bool
  weakMethod : Option UInt16
  protectors : List UInt16
  deriving DecidableEq

def inventory (md : FveMetadata) (toGo : Bool) : Inventory where
  toGo := toGo
  weakMethod := if isAesXts md.encryptionMethod then none else some md.encryptionMethod
  protectors := md.vmkEntries.map MetadataEntry.typeField

/-- The findings of one protector. -/
def protectorKinds (t : UInt16) : List AnomalyKind :=
  (if t = protClearKey then [.clearKeyPresent] else []) ++ [.protector t]

/-- The kinds of the findings, from the inventory alone. -/
def Inventory.kinds (inv : Inventory) : List AnomalyKind :=
  (if inv.toGo then [.toGo] else []) ++ (inv.weakMethod.map AnomalyKind.weakCipher).toList ++
    inv.protectors.flatMap protectorKinds

theorem auditProtector_eq_map (t : UInt16) :
    auditProtector t = (protectorKinds t).map Anomaly.new := by
  unfold auditProtector protectorKinds
  split <;> rfl

theorem findings_eq_map (md : FveMetadata) (toGo : Bool) :
    findings md toGo = (inventory md toGo).kinds.map Anomaly.new := by
  have htoGo : (if toGo then [Anomaly.new .toGo] else []) =
      (if toGo then [AnomalyKind.toGo] else []).map Anomaly.new := by
    cases toGo <;> rfl
  have hweak : (if ¬ isAesXts md.encryptionMethod then
        [Anomaly.new (.weakCipher md.encryptionMethod)] else []) =
      ((inventory md toGo).weakMethod.map AnomalyKind.weakCipher).toList.map Anomaly.new := by
    cases hxts : isAesXts md.encryptionMethod <;> simp [inventory, hxts]
  have hprotectors : (md.vmkEntries.map MetadataEntry.typeField).flatMap auditProtector =
      ((md.vmkEntries.map MetadataEntry.typeField).flatMap protectorKinds).map Anomaly.new := by
    rw [List.map_flatMap]
    exact List.flatMap_congr fun t _ ↦ auditProtector_eq_map t
  rw [findings, htoGo, hweak, hprotectors, Inventory.kinds, List.map_append, List.map_append]
  rfl

def AnomalyKind.weakMethod : AnomalyKind → Option UInt16
  | weakCipher method => some method
  | _ => none

/-- The inventory that a list of findings shows. -/
def inventoryOf (kinds : List AnomalyKind) : Inventory where
  toGo := kinds.any fun kind ↦ kind = .toGo
  weakMethod := kinds.findSome? AnomalyKind.weakMethod
  protectors := kinds.filterMap AnomalyKind.protectorType

theorem mem_protectorKinds {t : UInt16} {kind : AnomalyKind} (h : kind ∈ protectorKinds t) :
    kind = .clearKeyPresent ∨ kind = .protector t := by
  unfold protectorKinds at h
  split at h
  · exact List.mem_pair.mp h
  · exact .inr (List.mem_singleton.mp h)

theorem filterMap_protectorKinds (t : UInt16) :
    (protectorKinds t).filterMap AnomalyKind.protectorType = [t] := by
  unfold protectorKinds
  split <;> rfl

/-- The findings show the inventory they were made from. -/
theorem inventoryOf_kinds (inv : Inventory) : inventoryOf inv.kinds = inv := by
  obtain ⟨toGo, weakMethod, protectors⟩ := inv
  have hrest : ∀ kind ∈ protectors.flatMap protectorKinds,
      kind ≠ .toGo ∧ kind.weakMethod = none := by
    intro kind hkind
    obtain ⟨t, -, hkind⟩ := List.mem_flatMap.mp hkind
    rcases mem_protectorKinds hkind with rfl | rfl <;> exact ⟨by rintro ⟨⟩, rfl⟩
  have hany : (protectors.flatMap protectorKinds).any (fun kind ↦ kind = .toGo) = false := by
    rw [List.any_eq_false]
    exact fun kind hkind ↦ by simpa using (hrest kind hkind).1
  have hweak : (protectors.flatMap protectorKinds).findSome? AnomalyKind.weakMethod = none :=
    List.findSome?_eq_none_iff.mpr fun kind hkind ↦ (hrest kind hkind).2
  have hprotectors : (protectors.flatMap protectorKinds).filterMap AnomalyKind.protectorType =
      protectors := by
    simp only [List.filterMap_flatMap, filterMap_protectorKinds, List.flatMap_singleton']
  rw [inventoryOf, Inventory.kinds, List.any_append, List.any_append, List.findSome?_append,
    List.findSome?_append, List.filterMap_append, List.filterMap_append, hany, hweak, hprotectors]
  cases toGo <;> cases weakMethod <;> rfl

theorem kinds_inj {inv inv' : Inventory} (h : inv.kinds = inv'.kinds) : inv = inv' := by
  rw [← inventoryOf_kinds inv, h, inventoryOf_kinds]

/-! ## What the report tells -/

def inventoryIn (image : Image) : Res BdeError Inventory := do
  let vh ← headerIn image
  let md ← metadataIn image
  .ok (inventory md (vh.variant = .bitLockerToGo))

theorem auditIn_eq_inventoryIn (image : Image) :
    auditIn image = (do
      let inv ← inventoryIn image
      .ok (inv.kinds.map Anomaly.new)) := by
  rw [auditIn, inventoryIn]
  cases headerIn image with
  | error fault => rfl
  | ok vh =>
      cases metadataIn image with
      | error fault => rfl
      | ok md =>
          rw [ok_bind, ok_bind, ok_bind, ok_bind, ok_bind, findings_eq_map]

/-- A successful report is that of the findings of the inventory. -/
theorem auditFindings_eq_ok {F : ReportCrate} {p : Profile} {scope : String} {r : Reader}
    {report : List F.Finding} (h : (auditFindings F p scope r).1 = .ok report) :
    ∃ inv, inventoryIn r.image = .ok inv ∧
      (auditReader p r).1 = .ok (inv.kinds.map Anomaly.new) ∧
      report = inv.kinds.map fun kind ↦
        F.toFinding (Anomaly.new kind).observation ⟨analyzer, scope, some packageVersion⟩ := by
  obtain ⟨found, r', haudit, hreport⟩ :=
    Proc.bind_eq_ok.mp (Prod.ext h rfl : auditFindings F p scope r = (.ok report, _))
  have hfound : auditIn r.image = .ok found := ((yields_auditReader p r).of_ok haudit).1
  rw [auditIn_eq_inventoryIn] at hfound
  obtain ⟨inv, hinv, hkinds⟩ := bind_eq_ok.mp hfound
  cases hkinds
  refine ⟨inv, hinv, by rw [haudit], ?_⟩
  cases hreport
  rw [List.map_map]
  rfl

/-- The code and the evidence of a finding. -/
def ReportCrate.shown (F : ReportCrate) (finding : F.Finding) :
    String × List (Evidence F.Location) :=
  (F.code finding, F.evidence finding)

theorem shown_toFinding {F : ReportCrate} (laws : F.Laws) (source : Source)
    (kinds : List AnomalyKind) :
    (kinds.map fun kind ↦ F.toFinding (Anomaly.new kind).observation source).map F.shown =
      kinds.map fun kind ↦ (kind.code, kind.evidence) := by
  rw [List.map_map]
  apply List.map_congr_left
  intro kind _
  rw [Function.comp_apply, ReportCrate.shown, laws.code_toFinding, laws.evidence_toFinding]
  rfl

/-- The notes of an audit, and the codes with the evidence of its report, are the same
for two volumes exactly when what was audited is: both or neither are To Go, their
methods agree where one is not XTS, and their protectors are of the same types. -/
theorem report_lossless {F : ReportCrate} (laws : F.Laws) {p p' : Profile} {scope scope' : String}
    {r r' : Reader} {report report' : List F.Finding}
    (h : (auditFindings F p scope r).1 = .ok report)
    (h' : (auditFindings F p' scope' r').1 = .ok report') :
    ∃ inv inv' found found', inventoryIn r.image = .ok inv ∧ inventoryIn r'.image = .ok inv' ∧
      (auditReader p r).1 = .ok found ∧ (auditReader p' r').1 = .ok found' ∧
      (found.map Anomaly.note = found'.map Anomaly.note ↔ inv = inv') ∧
      (report.map F.shown = report'.map F.shown ↔ inv = inv') := by
  obtain ⟨inv, hinv, hfound, rfl⟩ := auditFindings_eq_ok h
  obtain ⟨inv', hinv', hfound', rfl⟩ := auditFindings_eq_ok h'
  refine ⟨inv, inv', _, _, hinv, hinv', hfound, hfound', ?_, ?_⟩
  · rw [List.map_map, List.map_map]
    constructor
    · intro hnotes
      have hinj : Function.Injective fun kind ↦ (Anomaly.new kind).note :=
        fun _ _ ↦ AnomalyKind.note_inj
      exact kinds_inj (hinj.list_map hnotes)
    · rintro rfl
      rfl
  · rw [shown_toFinding laws, shown_toFinding laws]
    constructor
    · intro hshown
      have hinj : Function.Injective fun kind : AnomalyKind ↦
          (kind.code, (kind.evidence : List (Evidence F.Location))) := by
        intro kind kind' heq
        exact AnomalyKind.evidence_inj (Prod.mk.inj heq).1 (Prod.mk.inj heq).2
      exact kinds_inj (hinj.list_map hshown)
    · rintro rfl
      rfl

/-- A crate whose findings keep what was observed. -/
def keepingCrate : ReportCrate where
  Location := Unit
  Finding := Observation Unit × Source
  toFinding := Prod.mk
  code := fun finding ↦ finding.1.code
  evidence := fun finding ↦ finding.1.evidence

theorem exists_report (F : ReportCrate) (p : Profile) (scope : String) {r : Reader}
    (hfree : r.ErrorFree) {md : FveMetadata} (hmd : metadataIn r.image = .ok md) :
    ∃ report, (auditFindings F p scope r).1 = .ok report := by
  obtain ⟨toGo, haudit⟩ := auditIn_of_ok hmd
  obtain ⟨r', -, hfound⟩ := (yields_auditReader p r).of_errorFree hfree
  rw [haudit] at hfound
  exact ⟨_, congrArg Prod.fst (Proc.bind_eq_ok.mpr ⟨_, _, hfound, rfl⟩)⟩

theorem weakMethod_of_inventoryIn {image : Image} {inv : Inventory} {md : FveMetadata}
    (h : inventoryIn image = .ok inv) (hmd : metadataIn image = .ok md) :
    inv.weakMethod =
      if isAesXts md.encryptionMethod then none else some md.encryptionMethod := by
  obtain ⟨vh, -, hrest⟩ := bind_eq_ok.mp h
  obtain ⟨md', hmd', hinv⟩ := bind_eq_ok.mp hrest
  cases hmd.symm.trans hmd'
  cases hinv
  rfl

/-- The sample volume and the one that is not encrypted have different reports. -/
theorem report_lossless_sample :
    ∃ report report',
      (auditFindings keepingCrate .release "a.raw" (Reader.ofImage (sampleImage 0 0))).1 =
        .ok report ∧
      (auditFindings keepingCrate .release "b.raw" (Reader.ofImage decryptedImage)).1 =
        .ok report' ∧
      report.map keepingCrate.shown ≠ report'.map keepingCrate.shown := by
  obtain ⟨report, hreport⟩ := exists_report keepingCrate .release "a.raw"
    (Reader.errorFree_ofImage (sampleImage 0 0)) (metadataIn_sampleImage 0 0)
  obtain ⟨report', hreport'⟩ := exists_report keepingCrate .release "b.raw"
    (Reader.errorFree_ofImage decryptedImage) metadataIn_decryptedImage
  obtain ⟨inv, inv', -, -, hinv, hinv', -, -, -, hshown⟩ :=
    report_lossless (F := keepingCrate) ⟨fun _ _ ↦ rfl, fun _ _ ↦ rfl⟩ hreport hreport'
  refine ⟨report, report', hreport, hreport', ?_⟩
  intro heq
  have hweak := weakMethod_of_inventoryIn hinv (metadataIn_sampleImage 0 0)
  have hweak' := weakMethod_of_inventoryIn hinv' metadataIn_decryptedImage
  rw [hshown.mp heq, hweak'] at hweak
  exact absurd hweak (by decide)

end BitlockerForensic
