import BitlockerForensic.Core.FailClosed
import BitlockerForensic.Core.RoundTrip

/-!
# The bytes of the decrypted view

One byte at a time: what a position of the view holds, in exact arithmetic.
`read_at` returns these bytes however its range is cut, and they depend on the
image only through the physical sectors of the range.
-/

namespace Bitlocker

open RustStd
open RustStd.Reader

variable {P : Crates}

/-! ## Positions -/

/-- The 512 bytes from `physical` on, zero past the end of the image. -/
def storedBytes (image : Image) (physical : ℕ) : List UInt8 :=
  (List.range 512).map fun j ↦ image.bytes.getD (physical + j) 0

namespace VolumeView

def covered {C : Type} (w : VolumeView C) (s : UInt64) : Bool :=
  w.metadata.metadataOffsets.toList.any (covers w.metadata.metadataSize.toUInt64 s)

/-- The byte at position `q`: zero under a metadata block, else taken from the
physical sector, as it is past the encrypted part and decrypted inside it. -/
def logicalByte (w : VolumeView (SectorCipher P)) (q : UInt64) : UInt8 :=
  let s := sectorStart q
  if w.covered s then 0
  else
    let physical := w.metadata.storedAt s
    let ct := storedBytes w.image physical
    if w.metadata.encryptedVolumeSize ≠ 0 ∧ w.metadata.encryptedVolumeSize.toNat ≤ physical then
      ct.getD (q - s).toNat 0
    else (w.cipher.decryptSector ct (UInt64.ofNat physical)).getD (q - s).toNat 0

theorem storedSector_eq_storedBytes (image : Image) (physical : UInt64) :
    storedSector image physical = storedBytes image physical.toNat := by
  have hrange := @map_getD_range (storedSector image physical) 0 512
    (by rw [length_storedSector, sectorSize])
  rw [List.drop_zero, List.take_of_length_le (by rw [length_storedSector, sectorSize])] at hrange
  rw [← hrange, storedBytes]
  apply List.map_congr_left
  intro j hj
  rw [Nat.zero_add, getD_storedSector image physical (List.mem_range.mp hj)]

theorem sub_sectorStart (q : UInt64) : (q - sectorStart q).toNat = (q % 512).toNat := by
  rw [sectorStart, position_within, toNat_within]

theorem blanked_eq_covered {C : Type} {w : VolumeView C} {s : UInt64}
    (h : w.metadata.Addressable s) : w.blanked s = w.covered s := by
  rw [FveMetadata.Addressable] at h
  cases hfind : w.metadata.metadataOffsets.toList.find?
      (covers w.metadata.metadataSize.toUInt64 s) with
  | some m =>
      rw [hfind] at h
      have hmem := List.mem_of_find?_eq_some hfind
      have hcovers := List.find?_some hfind
      rw [blanked_of_covers hmem hcovers h, covered]
      exact (List.any_eq_true.mpr ⟨m, hmem, hcovers⟩).symm
  | none =>
      rw [blanked_of_uncovered hfind, covered]
      apply Eq.symm
      apply List.any_eq_false.mpr
      exact List.find?_eq_none.mp hfind

theorem toNat_physical {C : Type} {w : VolumeView C} {s : UInt64}
    (h : w.metadata.Addressable s) (hcovered : w.covered s = false) :
    (w.physical s).toNat = w.metadata.storedAt s := by
  have hnone : w.metadata.metadataOffsets.toList.find?
      (covers w.metadata.metadataSize.toUInt64 s) = none :=
    List.find?_eq_none.mpr (List.any_eq_false.mp hcovered)
  rw [FveMetadata.Addressable, hnone] at h
  have hs := s.toNat_lt
  rw [physical_eq, FveMetadata.storedAt]
  split
  · rename_i hmoved
    exact UInt64.toNat_ofNat_of_lt (h hmoved)
  · exact UInt64.toNat_ofNat_of_lt hs

theorem plainByte_eq_logicalByte {w : VolumeView (SectorCipher P)} {q : UInt64}
    (hmethod : w.metadata.encryptionMethod ≠ methodNone)
    (h : w.metadata.Addressable (sectorStart q)) : w.plainByte q = w.logicalByte q := by
  have hwithin := within_lt q
  change (w.plainSector (sectorStart q)).getD _ _ = _
  rw [plainSector, logicalByte, blanked_eq_covered h]
  by_cases hcovered : w.covered (sectorStart q) = true
  · rw [if_pos hcovered, if_pos hcovered, List.getD_replicate _ hwithin]
  · have hphysical := toNat_physical h (Bool.eq_false_of_not_eq_true hcovered)
    have hplain : w.storedPlain (w.physical (sectorStart q)) = true ↔
        w.metadata.encryptedVolumeSize ≠ 0 ∧
          w.metadata.encryptedVolumeSize.toNat ≤ w.metadata.storedAt (sectorStart q) := by
      rw [storedPlain, decide_eq_true_eq, ← hphysical]
      exact or_iff_right hmethod
    rw [if_neg hcovered, if_neg hcovered]
    dsimp only
    rw [sub_sectorStart, storedSector_eq_storedBytes, hphysical]
    by_cases hstored : w.storedPlain (w.physical (sectorStart q)) = true
    · rw [if_pos hstored, if_pos (hplain.mp hstored)]
    · have hlen : (w.cipher.decryptSector
          (storedBytes w.image (w.metadata.storedAt (sectorStart q)))
          (w.physical (sectorStart q))).length = sectorSize := by
        rw [SectorCipher.length_decryptSector, storedBytes, List.length_map, List.length_range]
        rfl
      rw [if_neg hstored, if_neg (mt hplain.mpr hstored), ← physical_eq]
      exact congrArg (fun sector ↦ sector.getD (q % 512).toNat 0) (fitSector_eq hlen)

theorem logicalByte_congr {w w' : VolumeView (SectorCipher P)} {q : UInt64}
    (hmd : w'.metadata = w.metadata) (hcipher : w'.cipher = w.cipher)
    (hbytes : w.covered (sectorStart q) = false →
      storedBytes w'.image (w.metadata.storedAt (sectorStart q)) =
        storedBytes w.image (w.metadata.storedAt (sectorStart q))) :
    w'.logicalByte q = w.logicalByte q := by
  have hcovered : w'.covered (sectorStart q) = w.covered (sectorStart q) := by
    rw [covered, covered, hmd]
  rw [logicalByte, logicalByte, hcovered]
  by_cases hcase : w.covered (sectorStart q) = true
  · rw [if_pos hcase, if_pos hcase]
  · rw [if_neg hcase, if_neg hcase]
    dsimp only
    rw [hmd, hcipher, hbytes (Bool.eq_false_of_not_eq_true hcase)]

variable {C : Type} [SectorDecrypt C]

theorem plainBytes_append (w : VolumeView C) (offset : UInt64) (m n : ℕ) :
    w.plainBytes offset (m + n) =
      w.plainBytes offset m ++ w.plainBytes (offset + UInt64.ofNat m) n := by
  rw [plainBytes, List.range_add, List.map_append, List.map_map]
  apply congrArg (w.plainBytes offset m ++ ·)
  apply List.map_congr_left
  intro i _
  rw [Function.comp_apply, UInt64.ofNat_add, UInt64.add_assoc]

end VolumeView

/-! ## Reads and their pieces -/

/-- A volume some calls after it was unlocked. -/
def Unlocked (p : Profile) (v : DecryptedVolume (SectorCipher P)) : Prop :=
  ∃ (protectorType : UInt16) (protectorName : String) (unwrap : VmkUnwrap) (r : Reader)
    (v₀ : DecryptedVolume (SectorCipher P)) (ls : List (Call × Outcome)),
    unlock P p protectorType protectorName unwrap r = .ok v₀ ∧
      Lts.Run (DecryptedVolume.Step p) v₀ ls v

theorem Unlocked.method_ne_none {p : Profile} {v : DecryptedVolume (SectorCipher P)}
    (h : Unlocked p v) : v.metadata.encryptionMethod ≠ methodNone := by
  obtain ⟨protectorType, protectorName, unwrap, r, v₀, ls, hunlock, hrun⟩ := h
  obtain ⟨kind, hkind, -⟩ := (opened_of_unlock P hunlock).kind
  rw [(DecryptedVolume.Run.frame hrun).metadata]
  exact (Bitlocker.method_ne_none hkind).1

/-- Reads of consecutive pieces from `offset` on: the buffer of each, and the
bytes it returned. -/
def pieceLabels : UInt64 → List (Bytes × List UInt8) → List (Call × Outcome)
  | _, [] => []
  | offset, piece :: rest =>
      (.readAt offset piece.1, .readAt (.ok piece.2)) ::
        pieceLabels (offset + UInt64.ofNat piece.1.length) rest

namespace DecryptedVolume

variable {C : Type} [SectorDecrypt C]

theorem bytes_of_readAt {p : Profile} {v v' : DecryptedVolume C} {offset : UInt64} {buf : Bytes}
    {bytes : List UInt8} (h : readAt p offset buf v = (.ok bytes, v')) :
    bytes = v.view.plainBytes offset buf.length := by
  obtain ⟨hout, -⟩ := (yields_readAt p offset buf v).of_ok h
  exact VolumeView.bytesFrom_eq_of_ok (Eval.toRes_eq_ok.mp hout)

/-- Every successful `read_at` of a run returns the bytes of the view that the
run started from. -/
theorem bytes_of_run {p : Profile} {v v' : DecryptedVolume C} {ls : List (Call × Outcome)}
    (hrun : Lts.Run (Step p) v ls v') {offset : UInt64} {buf : Bytes} {bytes : List UInt8}
    (hmem : (.readAt offset buf, .readAt (.ok bytes)) ∈ ls) :
    bytes = v.view.plainBytes offset buf.length := by
  have hstep : ∀ u l u', Frame v u → Step p u l u' → Frame v u' ∧
      ∀ offset buf bytes, l = (.readAt offset buf, .readAt (.ok bytes)) →
        bytes = v.view.plainBytes offset buf.length := by
    intro u l u' hframe hstep
    refine ⟨hframe.trans hstep.frame, ?_⟩
    intro offset buf bytes hl
    subst hl
    obtain ⟨hout, hstate⟩ := Prod.mk.inj hstep
    have hread : readAt p offset buf u = (.ok bytes, u') :=
      Prod.ext (Outcome.readAt.inj hout) hstate
    rw [bytes_of_readAt hread, hframe.view]
  exact hrun.forall_labels hstep (Frame.refl v) _ hmem offset buf bytes rfl

theorem flatMap_pieces {p : Profile} {v v' : DecryptedVolume C} {ls : List (Call × Outcome)}
    (hrun : Lts.Run (Step p) v ls v') {offset : UInt64} {pieces : List (Bytes × List UInt8)}
    (hpieces : pieceLabels offset pieces ⊆ ls) :
    pieces.flatMap Prod.snd =
      v.view.plainBytes offset (pieces.map fun piece ↦ piece.1.length).sum := by
  induction pieces generalizing offset with
  | nil => rfl
  | cons piece rest ih =>
      obtain ⟨hfirst, hrest⟩ := List.cons_subset.mp hpieces
      rw [List.flatMap_cons, List.map_cons, List.sum_cons, VolumeView.plainBytes_append,
        ← bytes_of_run hrun hfirst, ih hrest]

theorem plainBytes_eq_logicalBytes {p : Profile} {v : DecryptedVolume (SectorCipher P)}
    (hv : Unlocked p v) {offset : UInt64} {count : ℕ}
    (hfits : ∀ i < count, v.metadata.Addressable (sectorStart (offset + UInt64.ofNat i))) :
    v.view.plainBytes offset count =
      (List.range count).map fun i ↦ v.view.logicalByte (offset + UInt64.ofNat i) := by
  apply List.map_congr_left
  intro i hi
  exact VolumeView.plainByte_eq_logicalByte hv.method_ne_none (hfits i (List.mem_range.mp hi))

/-- Two images that agree on the physical sectors of a range have the same bytes
there. -/
theorem bytesFrom_eq_of_same_sectors {p : Profile} {v u : DecryptedVolume (SectorCipher P)}
    (hv : Unlocked p v) (hmd : u.metadata = v.metadata) (hcipher : u.cipher = v.cipher)
    {offset : UInt64} {count : ℕ} (hrange : offset.toNat + count < 2 ^ 64)
    (hfits : ∀ i < count, v.metadata.Addressable (sectorStart (offset + UInt64.ofNat i)))
    (hsame : ∀ i < count, v.view.covered (sectorStart (offset + UInt64.ofNat i)) = false →
      storedBytes u.reader.image (v.metadata.storedAt (sectorStart (offset + UInt64.ofNat i))) =
        storedBytes v.reader.image
          (v.metadata.storedAt (sectorStart (offset + UInt64.ofNat i)))) :
    u.view.bytesFrom p offset 0 count = .ok (v.view.plainBytes offset count) := by
  have haddress : ∀ i < count,
      u.view.metadata.Addressable (sectorStart (offset + UInt64.ofNat i)) := by
    intro i hi
    change u.metadata.Addressable _
    rw [hmd]
    exact hfits i hi
  have hmethod : u.view.metadata.encryptionMethod ≠ methodNone := by
    change u.metadata.encryptionMethod ≠ methodNone
    rw [hmd]
    exact hv.method_ne_none
  obtain ⟨out, hout⟩ := (VolumeView.exists_bytesFrom_eq_ok (le_of_lt hrange)).mpr
    fun i hi ↦ Or.inr (haddress i hi)
  rw [hout, VolumeView.bytesFrom_eq_of_ok hout]
  apply congrArg Except.ok
  apply List.map_congr_left
  intro i hi
  have hin := List.mem_range.mp hi
  have hother : u.view.plainByte (offset + UInt64.ofNat i) =
      u.view.logicalByte (offset + UInt64.ofNat i) :=
    VolumeView.plainByte_eq_logicalByte hmethod (haddress i hin)
  have hthis : v.view.plainByte (offset + UInt64.ofNat i) =
      v.view.logicalByte (offset + UInt64.ofNat i) :=
    VolumeView.plainByte_eq_logicalByte hv.method_ne_none (hfits i hin)
  rw [hother, hthis]
  exact VolumeView.logicalByte_congr hmd hcipher (hsame i hin)

/-- `read_at` is pointwise: byte `i` of the buffer is the byte at `offset + i`.
So consecutive pieces, read in any order and between any other calls, concatenate
to the single read; and an image that agrees on the physical sectors of the range
gives the same bytes, unless its device fails. -/
theorem read_at_pointwise {p : Profile} {v v' : DecryptedVolume (SectorCipher P)}
    (hv : Unlocked p v) {offset : UInt64} {buf : Bytes} {bytes : List UInt8}
    (hrange : offset.toNat + buf.length < 2 ^ 64)
    (hfits : ∀ i < buf.length, v.metadata.Addressable (sectorStart (offset + UInt64.ofNat i)))
    (hread : readAt p offset buf v = (.ok bytes, v')) :
    (bytes.length = buf.length ∧ ∀ i < buf.length,
      bytes[i]? = some (v.view.logicalByte (offset + UInt64.ofNat i))) ∧
    (∀ (pieces : List (Bytes × List UInt8)) (ls : List (Call × Outcome))
        (v'' : DecryptedVolume (SectorCipher P)),
      (pieces.map fun piece ↦ piece.1.length).sum = buf.length →
      Lts.Run (Step p) v ls v'' → pieceLabels offset pieces ⊆ ls →
      pieces.flatMap Prod.snd = bytes) ∧
    ∀ u : DecryptedVolume (SectorCipher P), u.metadata = v.metadata → u.cipher = v.cipher →
      (∀ i < buf.length, v.view.covered (sectorStart (offset + UInt64.ofNat i)) = false →
        storedBytes u.reader.image
            (v.metadata.storedAt (sectorStart (offset + UInt64.ofNat i))) =
          storedBytes v.reader.image
            (v.metadata.storedAt (sectorStart (offset + UInt64.ofNat i)))) →
      (readAt p offset buf u).1 = .ok bytes ∨
        ∃ e, u.reader.Reports e ∧ (readAt p offset buf u).1 = .error (.err (.io e)) := by
  have hbytes := bytes_of_readAt hread
  refine ⟨⟨?_, ?_⟩, ?_, ?_⟩
  · rw [hbytes, VolumeView.length_plainBytes]
  · intro i hi
    rw [hbytes, plainBytes_eq_logicalBytes hv hfits, List.getElem?_map, List.getElem?_range hi]
    rfl
  · intro pieces ls v'' hsum hrun hpieces
    rw [flatMap_pieces hrun hpieces, hsum, hbytes]
  · intro u hmd hcipher hsame
    have hview := bytesFrom_eq_of_same_sectors hv hmd hcipher hrange hfits hsame
    rw [← hbytes] at hview
    obtain ⟨r, -, hok | ⟨e, he, herr⟩⟩ := yields_readAt p offset buf u
    · left
      rw [hok, hview]
      rfl
    · right
      exact ⟨e, he, by rw [herr]⟩

theorem read_at_pointwise_sample :
    ∃ (v v' : DecryptedVolume (SectorCipher sampleCrates)) (bytes : List UInt8),
      Unlocked .release v ∧
      readAt .release 1024 (Bytes.ofList [0, 0]) v = (.ok bytes, v') ∧
      bytes[1]? = some (v.view.logicalByte (1024 + UInt64.ofNat 1)) := by
  have hfree := Reader.errorFree_ofImage (sampleImage 0 0)
  obtain ⟨v, hunlock, hlater, -, hmd, -⟩ := sampleBlock_unlocks .release 0 0 hfree rfl
  have hopen : unlock sampleCrates .release protectionClear "clear key" .clear
      (Reader.ofImage (sampleImage 0 0)) = .ok v := hunlock
  have hunlocked : Unlocked .release v :=
    ⟨protectionClear, "clear key", .clear, _, v, [], hopen, .nil v⟩
  have hfits : ∀ i < (Bytes.ofList [0, 0]).length,
      v.metadata.Addressable (sectorStart (1024 + UInt64.ofNat i)) := by
    have hsector : ∀ i < 2, sectorStart (1024 + UInt64.ofNat i) = 1024 := by decide
    intro i hi
    rw [hsector i hi, hmd, addressable_sample]
    exact fun h ↦ absurd h (by decide)
  obtain ⟨r, -, hread⟩ := (yields_readAt .release 1024 (Bytes.ofList [0, 0]) v).of_errorFree
    (hlater.errorFree hfree)
  rw [VolumeView.bytesFrom_release] at hread
  obtain ⟨⟨-, hbyte⟩, -⟩ := read_at_pointwise hunlocked (by decide) hfits hread
  exact ⟨v, _, _, hunlocked, hread, hbyte 1 (by decide)⟩

end DecryptedVolume

/-! ## Metadata blocks

A block is 64 bytes of block header and `metadata_size` bytes of metadata.  The
view blanks the sectors that start less than `metadata_size` bytes into it, so
the last 64 bytes may reach into a sector that is not blanked. -/

/-- The first sector that the block at `m` does not blank. -/
def FveMetadata.blockTail (md : FveMetadata) (m : UInt64) : ℕ :=
  m.toNat + 512 * ((md.metadataSize.toNat + 511) / 512)

namespace DecryptedVolume

variable {C : Type}

/-- A successful read puts zero at every position of the block at `m`. -/
def BlanksBlock [SectorDecrypt C] (p : Profile) (v : DecryptedVolume C) (m : UInt64) : Prop :=
  ∀ (offset : UInt64) (buf : Bytes) (bytes : List UInt8) (v' : DecryptedVolume C),
    readAt p offset buf v = (.ok bytes, v') → ∀ i < buf.length,
      m.toNat ≤ offset.toNat + i →
      offset.toNat + i < m.toNat + 64 + v.metadata.metadataSize.toNat → bytes[i]? = some 0

/-- The block ends inside the sectors that it blanks, or what it has past them
is zero whatever the cipher; in a checked build, unless the sum that places that
sector overflows. -/
def TailZero (p : Profile) (v : DecryptedVolume C) (m : UInt64) : Prop :=
  (1 ≤ v.metadata.metadataSize.toNat % 512 ∧ v.metadata.metadataSize.toNat % 512 ≤ 448) ∨
    (p = .release ∨ v.metadata.Addressable (UInt64.ofNat (v.metadata.blockTail m)) →
      ∀ q, v.metadata.blockTail m ≤ q →
        q < m.toNat + 64 + v.metadata.metadataSize.toNat → v.view.ZeroAt (UInt64.ofNat q))

theorem toNat_sectorStart {q : ℕ} (hq : q < 2 ^ 64) :
    (sectorStart (UInt64.ofNat q)).toNat = q - q % 512 := by
  have hnat : (UInt64.ofNat q).toNat = q := UInt64.toNat_ofNat_of_lt hq
  rw [sectorStart, VolumeView.toNat_base, hnat]

section Block

variable {v : DecryptedVolume C} {m : UInt64} (haligned : m.toNat % 512 = 0)
  (hend : m.toNat + 64 + v.metadata.metadataSize.toNat < 2 ^ 64)

include haligned hend

theorem sectorStart_of_tail {q : ℕ} (hlow : v.metadata.blockTail m ≤ q)
    (hhigh : q < m.toNat + 64 + v.metadata.metadataSize.toNat) :
    sectorStart (UInt64.ofNat q) = UInt64.ofNat (v.metadata.blockTail m) := by
  have htail : (UInt64.ofNat (v.metadata.blockTail m)).toNat = v.metadata.blockTail m :=
    UInt64.toNat_ofNat_of_lt (show v.metadata.blockTail m < 2 ^ 64 by omega)
  apply UInt64.toNat_inj.mp
  rw [toNat_sectorStart (by omega), htail]
  unfold FveMetadata.blockTail at hlow ⊢
  omega

theorem zeroAt_of_tailZero {p : Profile} (hmem : m ∈ v.metadata.metadataOffsets.toList)
    (hzero : m ≠ 0) (htail : v.TailZero p m) {q : ℕ} (hlow : m.toNat ≤ q)
    (hhigh : q < m.toNat + 64 + v.metadata.metadataSize.toNat)
    (hfits : p = .release ∨ v.metadata.Addressable (sectorStart (UInt64.ofNat q))) :
    v.view.ZeroAt (UInt64.ofNat q) := by
  have hstart := toNat_sectorStart (show q < 2 ^ 64 by omega)
  have hsize : v.metadata.metadataSize.toUInt64.toNat = v.metadata.metadataSize.toNat :=
    UInt32.toNat_toUInt64 _
  by_cases hcovered : q - q % 512 < m.toNat + v.metadata.metadataSize.toNat
  · left
    have hcovers : covers v.metadata.metadataSize.toUInt64 (sectorStart (UInt64.ofNat q)) m =
        true := by
      rw [covers_eq_true, UInt64.le_iff_toNat_le, hstart, hsize]
      exact ⟨hzero, by omega, hcovered⟩
    have hfit : m.toNat + v.metadata.metadataSize.toUInt64.toNat < 2 ^ 64 := by
      rw [hsize]
      omega
    exact VolumeView.blanked_of_covers hmem hcovers hfit
  · have hreach : v.metadata.blockTail m ≤ q := by
      unfold FveMetadata.blockTail
      omega
    rcases htail with hmod | hbytes
    · unfold FveMetadata.blockTail at hreach
      omega
    · rw [sectorStart_of_tail haligned hend hreach hhigh] at hfits
      exact hbytes hfits q hreach hhigh

/-- A cipher that decrypts to no zero byte shows that the tail is zero by itself. -/
theorem tailZero_of_ones {p : Profile} (hfree : v.reader.ErrorFree)
    (hblanks : (v.withCipher LengthPreserving.ones).BlanksBlock p m) : v.TailZero p m := by
  right
  intro hfits q hlow hhigh
  have hnat : (UInt64.ofNat q).toNat = q := UInt64.toNat_ofNat_of_lt (show q < 2 ^ 64 by omega)
  have hone : (Bytes.ofList [0]).length = 1 := by decide
  have hfirst : UInt64.ofNat q + UInt64.ofNat 0 = UInt64.ofNat q := UInt64.add_zero _
  have hok : ∃ bytes, (v.withCipher LengthPreserving.ones).view.bytesFrom p (UInt64.ofNat q) 0
      (Bytes.ofList [0]).length = .ok bytes := by
    apply (VolumeView.exists_bytesFrom_eq_ok (by rw [hnat, hone]; omega)).mpr
    intro i hi
    obtain rfl : i = 0 := by omega
    rw [hfirst, sectorStart_of_tail haligned hend hlow hhigh]
    exact hfits
  obtain ⟨bytes, hview⟩ := hok
  obtain ⟨r, -, hread⟩ := (yields_readAt p (UInt64.ofNat q) (Bytes.ofList [0])
    (v.withCipher LengthPreserving.ones)).of_errorFree hfree
  rw [hview] at hread
  have hstart : m.toNat ≤ q := (Nat.le_add_right _ _).trans hlow
  have hbyte := hblanks _ _ bytes _ hread 0 (by rw [hone]; decide) (by rw [hnat]; exact hstart)
    (by rw [hnat]; exact hhigh)
  rw [VolumeView.bytesFrom_eq_of_ok hview, VolumeView.getElem?_plainBytes (by rw [hone]; decide),
    hfirst] at hbyte
  exact VolumeView.zeroAt_of_ones (w := (v.withCipher LengthPreserving.ones).view) rfl
    (Option.some.inj hbyte)

end Block

theorem addressable_of_bytesFrom [SectorDecrypt C] {p : Profile} {w : VolumeView C}
    {offset : UInt64} {count : ℕ} {bytes : List UInt8}
    (h : w.bytesFrom p offset 0 count = .ok bytes) {i : ℕ} (hi : i < count) :
    p = .release ∨ w.metadata.Addressable (sectorStart (offset + UInt64.ofNat i)) := by
  have hall := exists_mapM_eq_ok.mp ⟨bytes, h⟩ i (List.mem_range'_1.mpr (by omega))
  obtain ⟨b, hb⟩ := hall
  obtain ⟨q, hq, hbyte⟩ := bind_eq_ok.mp hb
  rw [← Profile.addU64_eq_of_ok hq]
  exact VolumeView.exists_byteAt_eq_ok.mp ⟨b, hbyte⟩

/-- Every byte of a metadata block reads back as zero, whatever the cipher, if and
only if the block does not end in a sector that it does not blank, or that sector
holds zeros there; over any device this is enough. -/
theorem metadata_block_blanked_iff [SectorDecrypt C] (p : Profile) (v : DecryptedVolume C)
    {m : UInt64} (hmem : m ∈ v.metadata.metadataOffsets.toList) (hzero : m ≠ 0)
    (haligned : m.toNat % 512 = 0)
    (hend : m.toNat + 64 + v.metadata.metadataSize.toNat < 2 ^ 64) :
    (v.reader.ErrorFree →
      ((∀ cipher : LengthPreserving, (v.withCipher cipher).BlanksBlock p m) ↔
        v.TailZero p m)) ∧
    (v.TailZero p m → v.BlanksBlock p m) := by
  have hblanks : ∀ {D : Type} [SectorDecrypt D] (u : DecryptedVolume D),
      (∀ q : ℕ, m.toNat ≤ q → q < m.toNat + 64 + u.metadata.metadataSize.toNat →
        p = .release ∨ u.metadata.Addressable (sectorStart (UInt64.ofNat q)) →
          u.view.ZeroAt (UInt64.ofNat q)) → u.BlanksBlock p m := by
    intro D _ u hzeros offset buf bytes u' hread i hi hlow hhigh
    obtain ⟨hout, -⟩ := (yields_readAt p offset buf u).of_ok hread
    have hview := Eval.toRes_eq_ok.mp hout
    have hposition : offset + UInt64.ofNat i = UInt64.ofNat (offset.toNat + i) := by
      rw [UInt64.ofNat_add, UInt64.ofNat_toNat]
    have hfits := addressable_of_bytesFrom hview hi
    rw [hposition] at hfits
    rw [VolumeView.bytesFrom_eq_of_ok hview, VolumeView.getElem?_plainBytes hi, hposition,
      VolumeView.plainByte_of_zeroAt (hzeros _ hlow hhigh hfits)]
  have hzeros := fun htail q ↦ @zeroAt_of_tailZero C v m haligned hend p hmem hzero htail q
  constructor
  · intro hfree
    constructor
    · intro hall
      exact tailZero_of_ones haligned hend hfree (hall .ones)
    · intro htail cipher
      exact hblanks (v.withCipher cipher) (hzeros htail)
  · intro htail
    exact hblanks v (hzeros htail)

theorem metadata_block_blanked_sample :
    ∃ v, Credential.clearKey.unlock sampleCrates .release (Reader.ofImage (sampleImage 0 0)) =
        .ok v ∧
      512 ∈ v.metadata.metadataOffsets.toList ∧ v.TailZero .release 512 ∧
      v.BlanksBlock .release 512 := by
  obtain ⟨v, hunlock, -, -, hmd, -⟩ := sampleBlock_unlocks .release 0 0
    (Reader.errorFree_ofImage (sampleImage 0 0)) rfl
  have hsize : v.metadata.metadataSize.toNat = 272 := by
    rw [hmd]
    decide +kernel
  have hmem : 512 ∈ v.metadata.metadataOffsets.toList := by
    rw [hmd]
    exact List.mem_cons_self
  have htail : v.TailZero .release 512 := by
    left
    rw [hsize]
    decide
  refine ⟨v, hunlock, hmem, htail, ?_⟩
  exact (metadata_block_blanked_iff .release v hmem (by decide) (by decide)
    (by rw [hsize]; decide)).2 htail

/-- The sample block with one more entry, of `0xff` bytes, that makes
`metadata_size` a whole sector; the volume is encrypted up to byte 1024. -/
def fillerBlock : BlockLayout :=
  { sampleBlock 0 0 with
    encryptedVolumeSize := 1024
    entries := sampleEntries ++ [⟨0, 2, 1, Bytes.ofList (List.replicate 232 0xff)⟩]
    encodable := by decide +kernel
    size_lt := by decide +kernel }

theorem carriesSampleKeys_fillerBlock : CarriesSampleKeys fillerBlock where
  entries := by
    refine ⟨_, rfl, ?_⟩
    decide +kernel
  method := rfl
  size_le := by decide +kernel

def fillerImage : Image := toGoImage fillerBlock (Bytes.ofList (List.replicate 448 0))

theorem plainByte_fillerImage :
    (⟨fillerImage, SectorCipher.newCbc sampleFvek, fillerBlock.metadata 512⟩ :
      VolumeView (SectorCipher sampleCrates)).plainByte 1087 = 0xff := by
  decide +kernel

/-- The last byte of the block at 512 comes back as it is stored. -/
theorem metadata_block_tail_not_blanked :
    ∃ v v', Credential.clearKey.unlock sampleCrates .release (Reader.ofImage fillerImage) =
        .ok v ∧
      512 ∈ v.metadata.metadataOffsets.toList ∧ v.metadata.metadataSize.toNat = 512 ∧
      readAt .release 1087 (Bytes.ofList [0]) v = (.ok [0xff], v') ∧
      ¬ v.BlanksBlock .release 512 := by
  have hfree := Reader.errorFree_ofImage fillerImage
  obtain ⟨v, hunlock, hlater, hcipher, hmd, -⟩ :=
    carriesSampleKeys_fillerBlock.unlocks .release hfree rfl
  have hview : v.view = ⟨fillerImage, SectorCipher.newCbc sampleFvek,
      fillerBlock.metadata 512⟩ := view_eq hlater.image hcipher hmd
  have hsize : v.metadata.metadataSize.toNat = 512 := by
    rw [hmd]
    decide +kernel
  obtain ⟨r, -, hread⟩ := (yields_readAt .release 1087 (Bytes.ofList [0]) v).of_errorFree
    (hlater.errorFree hfree)
  have hbytes : v.view.plainBytes 1087 (Bytes.ofList [0]).length = [v.view.plainByte 1087] := rfl
  rw [VolumeView.bytesFrom_release, hbytes, hview, plainByte_fillerImage] at hread
  refine ⟨v, _, hunlock, ?_, hsize, hread, ?_⟩
  · rw [hmd]
    exact List.mem_cons_self
  · intro hblanks
    have hbyte := hblanks 1087 (Bytes.ofList [0]) [0xff] _ hread 0 (by decide) (by decide)
      (by rw [hsize]; decide)
    exact absurd hbyte (by decide)

end DecryptedVolume

end Bitlocker
