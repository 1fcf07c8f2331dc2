import BitlockerForensic.Core.Parsing
import BitlockerForensic.Core.Volume

/-!
# The path from a credential to a sector cipher

What each stage of `derive_cipher` computes: the key that opens a VMK entry,
the VMK inside it, the container the VMK opens, and the byte ranges of that
container which key the sector cipher.  Every stage is a total function of the
metadata; none can panic.
-/

namespace Bitlocker

open RustStd

/-! ## Key containers -/

theorem takeKey_eq (p : Profile) {n : ℕ} {container : Bytes} {off : ℕ} (what : String)
    (hoff : off + n < 2 ^ 64) :
    takeKey p n container off what =
      if off + n ≤ container.length then .ok (arrayAt n container off)
      else .error (.err (.malformedKeyContainer what container.length (off + n))) := by
  unfold takeKey
  rw [p.addUsize_ok hoff, monadLift_ok, ok_bind]
  by_cases h : off + n ≤ container.length
  · have hget : container.get off (off + n) = some (container.window off (off + n)) :=
      Bytes.get_eq_some.mpr ⟨by omega, h, rfl⟩
    have hrange : (container.window off (off + n)).toList = (arrayAt n container off).toList := by
      rw [arrayAt_toList h, Bytes.window_toList]
    rw [hget, okOr_some, ok_bind, hrange, toOctets_toList, if_pos h]
    rfl
  · have hget : container.get off (off + n) = none := by
      rw [Bytes.get, if_neg (fun hr ↦ h hr.2)]
    rw [hget, okOr_none, error_bind, if_neg h]

/-! ## The stretched key -/

variable (P : Crates)

def stretchRounds (hash : Octets 32) (salt : Octets 16) : ℕ → ℕ → Octets 32 → Octets 32
  | 0, _, last => last
  | count + 1, i, last =>
      stretchRounds hash salt count (i + 1)
        (P.sha256 (last.toList ++ hash.toList ++ salt.toList ++ leBytes 8 i))

def stretched (hash : Octets 32) (salt : Octets 16) : Octets 32 :=
  stretchRounds P hash salt stretchIterations 0 (zeros 32)

theorem stretchLoop_eq (hash : Octets 32) (salt : Octets 16) (count i : ℕ) (last : Octets 32)
    (counter : Octets 8) :
    ∃ counter' : Octets 8,
      stretchLoop P count i
          (last.toList ++ hash.toList ++ salt.toList ++ counter.toList) =
        .ok ((stretchRounds P hash salt count i last).toList ++ hash.toList ++ salt.toList ++
          counter'.toList) := by
  induction count generalizing i last counter with
  | zero => exact ⟨counter, rfl⟩
  | succ count ih =>
      obtain ⟨counter', hrest⟩ := ih (i + 1)
        (P.sha256 (last.toList ++ hash.toList ++ salt.toList ++ leBytes 8 i))
        ⟨leBytes 8 i, length_leBytes 8 i⟩
      refine ⟨counter', ?_⟩
      have hcount : copyInto (last.toList ++ hash.toList ++ salt.toList ++ counter.toList) 80 88
          (leBytes 8 i) = .ok (last.toList ++ hash.toList ++ salt.toList ++ leBytes 8 i) := by
        have hsegment := @copyInto_segment _ (last.toList ++ hash.toList ++ salt.toList)
          counter.toList [] (leBytes 8 i) 80 88 (by simp [FixedArray.length_eq])
          (by simp [FixedArray.length_eq]) (by simp [FixedArray.length_eq])
        simpa only [List.append_nil] using hsegment
      have hlast : ∀ digest : Octets 32,
          copyInto (last.toList ++ hash.toList ++ salt.toList ++ leBytes 8 i) 0 32
            digest.toList =
          .ok (digest.toList ++ hash.toList ++ salt.toList ++ leBytes 8 i) := by
        intro digest
        have hsegment := @copyInto_segment _ [] last.toList
          (hash.toList ++ salt.toList ++ leBytes 8 i) digest.toList 0 32 rfl last.length_eq
          (by rw [digest.length_eq, last.length_eq])
        simpa only [List.nil_append, List.append_assoc] using hsegment
      simp only [stretchLoop, hcount, ok_bind, hlast]
      exact hrest

theorem stretchKeyN_eq (hash : Octets 32) (salt : Octets 16) (n : ℕ) :
    stretchKeyN P hash salt n = .ok (stretchRounds P hash salt n 0 (zeros 32)) := by
  have hinit : copyInto (zeros 88).toList 32 64 hash.toList =
      .ok ((zeros 32).toList ++ hash.toList ++ (zeros 24).toList) := by
    rw [copyInto_ok (by decide) (by decide) (by rw [hash.length_eq])]
    rfl
  have hsalt : copyInto ((zeros 32).toList ++ hash.toList ++ (zeros 24).toList) 64 80
      salt.toList = .ok ((zeros 32).toList ++ hash.toList ++ salt.toList ++ (zeros 8).toList) := by
    have hsegment := @copyInto_segment _ ((zeros 32).toList ++ hash.toList) (zeros 16).toList
      (zeros 8).toList salt.toList 64 80 (by simp [FixedArray.length_eq])
      (by simp [FixedArray.length_eq]) (by rw [salt.length_eq, (zeros 16).length_eq])
    rw [← hsegment, List.append_assoc _ (zeros 16).toList]
    rfl
  obtain ⟨counter, hloop⟩ := stretchLoop_eq P hash salt n 0 (zeros 32) (zeros 8)
  generalize stretchRounds P hash salt n 0 (zeros 32) = key at hloop ⊢
  have hfirst : RustStd.slice (key.toList ++ hash.toList ++ salt.toList ++ counter.toList) 0 32 =
      .ok key.toList := by
    rw [slice_ok (by decide) (by simp [FixedArray.length_eq]), List.append_assoc,
      List.append_assoc, List.take_left' key.length_eq, List.drop_zero]
  simp only [stretchKeyN, hinit, hsalt, ok_bind, hloop, hfirst, toOctets_toList]

theorem stretchKey_eq (hash : Octets 32) (salt : Octets 16) :
    stretchKey P hash salt = .ok (stretched P hash salt) :=
  stretchKeyN_eq P hash salt stretchIterations

/-! ## Opening a wrapped key -/

/-- The plaintext of `nonce(12) | MAC(16) | ciphertext` when its tag verifies. -/
def ccmOpen (key : Octets 32) (value : Bytes) : Option Bytes :=
  if 28 ≤ value.length then
    P.ccmDecrypt key (arrayAt 12 value 0) (value.window 28 value.length) (arrayAt 16 value 12)
  else none

theorem aesCcmUnwrap_eq (key : Octets 32) (value : Bytes) :
    aesCcmUnwrap P key value = .ok (ccmOpen P key value) := by
  unfold aesCcmUnwrap ccmOpen
  by_cases h : 28 ≤ value.length
  · have hnonce : value.get 0 12 = some (value.window 0 12) :=
      Bytes.get_eq_some.mpr ⟨by omega, by omega, rfl⟩
    have htag : value.get 12 28 = some (value.window 12 28) :=
      Bytes.get_eq_some.mpr ⟨by omega, by omega, rfl⟩
    have hbuffer : value.getFrom 28 = some (value.window 28 value.length) :=
      Bytes.get_eq_some.mpr ⟨h, le_refl _, rfl⟩
    have hnonce' : (value.window 0 12).toList = (arrayAt 12 value 0).toList :=
      (@arrayAt_toList 12 value 0 (by omega)).symm
    have htag' : (value.window 12 28).toList = (arrayAt 16 value 12).toList :=
      (@arrayAt_toList 16 value 12 h).symm
    simp only [hnonce, htag, hbuffer, hnonce', htag', toOctets_toList, ok_bind, if_pos h]
    rfl
  · have hbuffer : value.getFrom 28 = none := by
      rw [Bytes.getFrom, Bytes.get, if_neg (fun hr ↦ h hr.1)]
    rw [hbuffer, if_neg h]
    cases value.get 0 12 <;> cases value.get 12 28 <;> rfl

def property (props : List MetadataEntry) (valueType : UInt16) : Option MetadataEntry :=
  props.find? fun e ↦ e.valueType = valueType

theorem parseStartupKey_eq (p : Profile) (bek : Bytes) :
    parseStartupKey p bek = (do
      let external ← okOr
        (property (MetadataEntry.entriesOf (bek.window 48 bek.length)) valueTypeExternalKey)
        (.missingKeyMaterial "external key")
      let entry ← okOr (property (external.nestedOf 24) valueTypeKey)
        (.missingKeyMaterial "external key property")
      if 36 ≤ entry.data.length then .ok (arrayAt 32 entry.data 4)
      else .error (.err (.malformedKeyContainer "external key" entry.data.length 36))) := by
  have hbody : (bek.getFrom 48).getD Bytes.empty = bek.window 48 bek.length := by
    by_cases hlen : 48 ≤ bek.length
    · have hget : bek.getFrom 48 = some (bek.window 48 bek.length) :=
        Bytes.get_eq_some.mpr ⟨hlen, le_refl _, rfl⟩
      rw [hget, Option.getD_some]
    · apply Bytes.ext
      rw [Bytes.getFrom, Bytes.get, if_neg (fun h ↦ hlen h.1), Option.getD_none,
        MetadataEntry.window_suffix, List.drop_eq_nil_of_le (le_of_not_ge hlen)]
      rfl
  unfold parseStartupKey
  simp only [hbody, MetadataEntry.parseSequence_eq, MetadataEntry.nested_eq, monadLift_ok, ok_bind,
    takeKey32, takeKey_eq p "external key" (by decide : 4 + 32 < 2 ^ 64)]
  rfl

def unwrapKeyOf (props : List MetadataEntry) : VmkUnwrap → Res BdeError (Octets 32)
  | .stretch keyHash => do
      let stretch ← okOr (property props valueTypeStretch) (.missingKeyMaterial "stretch key")
      if 20 ≤ stretch.data.length then .ok (stretched P keyHash (arrayAt 16 stretch.data 4))
      else .error (.err (.missingKeyMaterial "stretch salt"))
  | .clear => do
      let key ← okOr (property props valueTypeKey) (.missingKeyMaterial "clear key")
      if 36 ≤ key.data.length then .ok (arrayAt 32 key.data 4)
      else .error (.err (.malformedKeyContainer "clear" key.data.length 36))
  | .external key => .ok key

theorem unwrapKey_eq (p : Profile) (props : List MetadataEntry) (unwrap : VmkUnwrap) :
    unwrapKey P p props unwrap = unwrapKeyOf P props unwrap := by
  cases unwrap with
  | stretch keyHash =>
      simp only [unwrapKey, unwrapKeyOf, property]
      cases props.find? (fun e ↦ e.valueType = valueTypeStretch) with
      | none => rfl
      | some stretch =>
          rw [okOr_some, ok_bind, ok_bind]
          by_cases h : 20 ≤ stretch.data.length
          · have hget : stretch.data.get 4 20 = some (stretch.data.window 4 20) :=
              Bytes.get_eq_some.mpr ⟨by omega, h, rfl⟩
            have hsalt : (stretch.data.window 4 20).toList = (arrayAt 16 stretch.data 4).toList :=
              (@arrayAt_toList 16 stretch.data 4 h).symm
            rw [hget, okOr_some, ok_bind, hsalt, toOctets_toList, monadLift_ok, ok_bind,
              stretchKey_eq, monadLift_ok, if_pos h]
          · have hget : stretch.data.get 4 20 = none := by
              rw [Bytes.get, if_neg (fun hr ↦ h hr.2)]
            rw [hget, okOr_none, error_bind, if_neg h]
  | clear =>
      simp only [unwrapKey, unwrapKeyOf, property]
      cases props.find? (fun e ↦ e.valueType = valueTypeKey) with
      | none => rfl
      | some key =>
          rw [okOr_some, ok_bind, ok_bind]
          exact takeKey_eq p "clear" (by decide)
  | external key => rfl

/-! ## The sector cipher's keys -/

def SectorCipherKind.keyEnd : SectorCipherKind → ℕ
  | cbc128Diffuser => 60
  | cbc128 => 28
  | cbc256 => 44
  | xts128 => 44
  | xts256 => 76

/-- The transform of a kind, keyed by its byte ranges of the container. -/
def keyedTransform (container : Bytes) : SectorCipherKind → SectorTransform
  | .cbc128Diffuser =>
      .cbc128 (arrayAt 16 container 12) (arrayAt 16 container 12) (some (arrayAt 16 container 44))
  | .cbc128 => .cbc128 (arrayAt 16 container 12) (arrayAt 16 container 12) none
  | .cbc256 => .cbc256 (arrayAt 32 container 12) (arrayAt 32 container 12)
  | .xts128 => .xts128 (arrayAt 16 container 12) (arrayAt 16 container 28)
  | .xts256 => .xts256 (arrayAt 32 container 12) (arrayAt 32 container 44)

theorem halves_arrayAt {n off : ℕ} {container : Bytes} (h : off + 2 * n ≤ container.length) :
    RustStd.slice (arrayAt (2 * n) container off).toList 0 n =
        .ok (arrayAt n container off).toList ∧
      RustStd.slice (arrayAt (2 * n) container off).toList n (2 * n) =
        .ok (arrayAt n container (off + n)).toList := by
  have hlen := length_arrayAt (2 * n) container off
  rw [slice_ok (by omega) (by omega), slice_ok (by omega) (by omega), arrayAt_toList h,
    arrayAt_toList (by omega), arrayAt_toList (by omega)]
  simp only [List.take_drop, List.drop_drop, List.take_take]
  constructor
  · congr 3
    omega
  · congr 2
    congr 1
    omega

theorem buildCipher_ok (p : Profile) {container : Bytes} {kind : SectorCipherKind}
    (h : kind.keyEnd ≤ container.length) :
    buildCipher P p container kind = .ok ⟨keyedTransform container kind⟩ := by
  cases kind with
  | cbc128Diffuser =>
      have hlen : 60 ≤ container.length := h
      simp only [buildCipher, takeKey16]
      rw [takeKey_eq p "FVEK" (by decide), takeKey_eq p "FVEK" (by decide), if_pos (by omega),
        if_pos (by omega)]
      rfl
  | cbc128 =>
      have hlen : 28 ≤ container.length := h
      simp only [buildCipher, takeKey16]
      rw [takeKey_eq p "FVEK" (by decide), if_pos (by omega)]
      rfl
  | cbc256 =>
      have hlen : 44 ≤ container.length := h
      simp only [buildCipher, takeKey32]
      rw [takeKey_eq p "FVEK" (by decide), if_pos (by omega)]
      rfl
  | xts128 =>
      have hlen : 12 + 32 ≤ container.length := h
      have hdata : RustStd.slice (arrayAt 32 container 12).toList 0 16 =
          .ok (arrayAt 16 container 12).toList := (@halves_arrayAt 16 12 container h).1
      have htweak : RustStd.slice (arrayAt 32 container 12).toList 16 32 =
          .ok (arrayAt 16 container 28).toList := (@halves_arrayAt 16 12 container h).2
      simp only [buildCipher, takeKey32]
      rw [takeKey_eq p "FVEK" (by decide), if_pos hlen, ok_bind]
      simp only [SectorCipher.newXts128, hdata, htweak, ok_bind, toOctets_toList]
      rfl
  | xts256 =>
      have hlen : 12 + 64 ≤ container.length := h
      have hdata : RustStd.slice (arrayAt 64 container 12).toList 0 32 =
          .ok (arrayAt 32 container 12).toList := (@halves_arrayAt 32 12 container h).1
      have htweak : RustStd.slice (arrayAt 64 container 12).toList 32 64 =
          .ok (arrayAt 32 container 44).toList := (@halves_arrayAt 32 12 container h).2
      simp only [buildCipher, takeKey64]
      rw [takeKey_eq p "FVEK" (by decide), if_pos hlen, ok_bind]
      simp only [SectorCipher.newXts256, hdata, htweak, ok_bind, toOctets_toList]
      rfl

theorem bind_takeKey_short {α : Type} (p : Profile) {n off : ℕ} {container : Bytes}
    (what : String) (hoff : off + n < 2 ^ 64) (hlen : container.length < off + n)
    (f : Octets n → Res BdeError α) :
    (takeKey p n container off what >>= f) =
      .error (.err (.malformedKeyContainer what container.length (off + n))) := by
  rw [takeKey_eq p what hoff, if_neg (Nat.not_le.mpr hlen), error_bind]

theorem buildCipher_short (p : Profile) {container : Bytes} {kind : SectorCipherKind}
    (h : container.length < kind.keyEnd) :
    ∃ need, buildCipher P p container kind =
      .error (.err (.malformedKeyContainer "FVEK" container.length need)) := by
  cases kind with
  | cbc128Diffuser =>
      by_cases hfirst : 12 + 16 ≤ container.length
      · refine ⟨44 + 16, ?_⟩
        simp only [buildCipher, takeKey16]
        rw [takeKey_eq p "FVEK" (by decide), if_pos hfirst, ok_bind]
        exact bind_takeKey_short p "FVEK" (by decide) h _
      · exact ⟨_, bind_takeKey_short p "FVEK" (by decide) (Nat.lt_of_not_le hfirst) _⟩
  | cbc128 => exact ⟨12 + 16, bind_takeKey_short p "FVEK" (by decide) h _⟩
  | cbc256 => exact ⟨12 + 32, bind_takeKey_short p "FVEK" (by decide) h _⟩
  | xts128 => exact ⟨12 + 32, bind_takeKey_short p "FVEK" (by decide) h _⟩
  | xts256 => exact ⟨12 + 64, bind_takeKey_short p "FVEK" (by decide) h _⟩

end Bitlocker
