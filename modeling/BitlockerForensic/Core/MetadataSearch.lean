import BitlockerForensic.Core.ClearKey

/-!
# The search for a metadata block

A header names three copies of the metadata block.  `read_metadata` returns the
first that starts with the block signature, so any one copy is enough when the
signatures of those before it are damaged.
-/

namespace Bitlocker

open RustStd

/-! ## The first copy -/

theorem metadataIn_of_startsBlock {image : Image} (hlen : sectorSize ≤ image.length)
    {offsets : FixedArray UInt64 3} (hoffsets : candidates image.bytes = some offsets)
    {c : UInt64} (hfirst : offsets.toList.find? (startsBlock image) = some c) :
    ∃ md, metadataIn image = .ok md ∧
      metadataOf (copyAt image c) (sectorBytes image.bytes) = some md := by
  obtain ⟨md, hmd⟩ := blockAt_of_startsBlock (List.find?_some hfirst) (sectorBytes image.bytes)
  refine ⟨md, ?_, (blockAt_eq image _ c).symm.trans hmd⟩
  rw [metadataIn_of_candidates hlen hoffsets, firstBlock_eq, hfirst, Option.bind_some, hmd]
  rfl

theorem sectorBytes_take {bytes : List UInt8} (h : 512 ≤ bytes.length) :
    sectorBytes (bytes.take 512) = sectorBytes bytes := by
  rw [sectorBytes, sectorBytes, leAt_take (by decide) h]

theorem candidates_take {bytes : List UInt8} (h : 512 ≤ bytes.length) :
    candidates (bytes.take 512) = candidates bytes := by
  have hfield : ∀ off w, off + w ≤ 512 → leAt (bytes.take 512) off w = leAt bytes off w :=
    fun off w hoff ↦ leAt_take hoff h
  have hoffsets : ∀ base, base + 24 ≤ 512 →
      offsetsAt (bytes.take 512) base = offsetsAt bytes base := by
    intro base hbase
    simp only [offsetsAt, hfield base 8 (by omega), hfield (base + 8) 8 (by omega),
      hfield (base + 16) 8 (by omega)]
  have hcluster : (bytes.take 512).getD 13 0 = bytes.getD 13 0 := by
    rw [List.getD_eq_getElem?_getD, List.getD_eq_getElem?_getD,
      List.getElem?_take_of_lt (by decide)]
  simp only [candidates, List.take_take, hoffsets 440 (by omega), hoffsets 176 (by omega),
    hfield 56 8 (by omega), sectorBytes_take h, hcluster]
  rfl

theorem find?_of_getElem? {α : Type} {q : α → Bool} {l : List α} {k : ℕ} {a : α}
    (hk : l[k]? = some a) (ha : q a = true)
    (hbefore : ∀ j < k, ∀ b, l[j]? = some b → q b = false) : l.find? q = some a := by
  obtain ⟨hlt, hget⟩ := List.getElem?_eq_some_iff.mp hk
  apply List.find?_eq_some_iff_getElem.mpr
  refine ⟨ha, k, hlt, hget, ?_⟩
  intro j hj
  rw [hbefore j hj _ (List.getElem?_eq_getElem (hj.trans hlt))]
  rfl

theorem startsBlock_of_copyAt {image image' : Image} {c : UInt64}
    (hsame : copyAt image' c = copyAt image c) :
    startsBlock image' c = startsBlock image c := by
  have hcopy : ∀ image : Image,
      (image.bytes.drop c.toNat).take 8 = (copyAt image c).toList.take 8 := by
    intro image
    rw [copyAt_toList, List.take_take, metadataReadLen]
    rfl
  rw [startsBlock, startsBlock, hcopy, hcopy, hsame]

theorem candidates_congr {image image' : Image} (hlen : 512 ≤ image.length)
    (hsame : image'.bytes.take 512 = image.bytes.take 512) :
    512 ≤ image'.length ∧ candidates image'.bytes = candidates image.bytes ∧
      sectorBytes image'.bytes = sectorBytes image.bytes := by
  have hlen' : 512 ≤ image'.length := by
    have hcount := congrArg List.length hsame
    rw [List.length_take, List.length_take] at hcount
    rw [Image.length] at hlen ⊢
    omega
  refine ⟨hlen', ?_, ?_⟩
  · rw [← candidates_take hlen', hsame, candidates_take hlen]
  · rw [← sectorBytes_take hlen', hsame, sectorBytes_take hlen]

/-- Over a device without errors, `read_metadata` parses the first candidate
that starts with the block signature, and reports the signature or the offsets
when there is none; a damaged copy hides nothing behind it. -/
theorem read_metadata_finds_first_copy (p : Profile) {r : Reader} (hfree : r.ErrorFree)
    (hlen : 512 ≤ r.image.length) :
    (candidates r.image.bytes = none → ∃ signature : Octets 8,
      signature.toList = (r.image.bytes.take 11).drop 3 ∧
      (readMetadata p r).1 = .error (.err (.notBitLocker signature))) ∧
    (∀ offsets, candidates r.image.bytes = some offsets →
      (∀ c, offsets.toList.find? (startsBlock r.image) = some c →
        ∃ md, (readMetadata p r).1 = .ok md ∧
          FveMetadata.parse p (copyAt r.image c) (sectorBytes r.image.bytes) = .ok (some md)) ∧
      (offsets.toList.find? (startsBlock r.image) = none →
        (readMetadata p r).1 = .error (.err (.noValidMetadata offsets)))) ∧
    ∀ (offsets : FixedArray UInt64 3) (k : ℕ) (c : UInt64) (r' : Reader),
      candidates r.image.bytes = some offsets → offsets.toList[k]? = some c →
      startsBlock r.image c = true → r'.ErrorFree →
      r'.image.bytes.take 512 = r.image.bytes.take 512 →
      copyAt r'.image c = copyAt r.image c →
      (∀ j < k, ∀ c', offsets.toList[j]? = some c' → startsBlock r'.image c' = false) →
      ∃ md, (readMetadata p r').1 = .ok md ∧
        FveMetadata.parse p (copyAt r.image c) (sectorBytes r.image.bytes) = .ok (some md) := by
  have hread : ∀ {r : Reader}, r.ErrorFree → (readMetadata p r).1 = metadataIn r.image := by
    intro r hfree
    exact (yields_readMetadata p r).outcome_eq hfree
  refine ⟨?_, ?_, ?_⟩
  · intro hnone
    rcases headerIn_cases hlen with ⟨-, signature, hsig, hheader⟩ | ⟨vh, -, -, hsome⟩
    · refine ⟨signature, hsig, ?_⟩
      rw [hread hfree, metadataIn, hheader]
      rfl
    · rw [hsome] at hnone
      cases hnone
  · intro offsets hoffsets
    rw [hread hfree]
    constructor
    · intro c hfirst
      obtain ⟨md, hmd, hparse⟩ := metadataIn_of_startsBlock hlen hoffsets hfirst
      exact ⟨md, hmd, by rw [FveMetadata.parse_eq, hparse]⟩
    · intro hnone
      rw [metadataIn_of_candidates hlen hoffsets, firstBlock_eq, hnone]
      rfl
  · intro offsets k c r' hoffsets hk hstarts hfree' hheader hcopy hdamaged
    obtain ⟨hlen', hcandidates, hbytes⟩ := candidates_congr hlen hheader
    have hfirst : offsets.toList.find? (startsBlock r'.image) = some c :=
      find?_of_getElem? hk ((startsBlock_of_copyAt hcopy).trans hstarts) hdamaged
    obtain ⟨md, hmd, hparse⟩ :=
      metadataIn_of_startsBlock hlen' (hcandidates.trans hoffsets) hfirst
    refine ⟨md, (hread hfree').trans hmd, ?_⟩
    rw [FveMetadata.parse_eq, ← hcopy, ← hbytes, hparse]

theorem read_metadata_finds_sample :
    (Reader.ofImage (sampleImage 0 0)).ErrorFree ∧ 512 ≤ (sampleImage 0 0).length ∧
      ∃ md, (readMetadata .debug (Reader.ofImage (sampleImage 0 0))).1 = .ok md ∧
        FveMetadata.parse .debug (copyAt (sampleImage 0 0) 512)
          (sectorBytes (sampleImage 0 0).bytes) = .ok (some md) := by
  have hfree := Reader.errorFree_ofImage (sampleImage 0 0)
  have hlen : 512 ≤ (sampleImage 0 0).length := by
    rw [length_sampleImage]
    decide
  have hoffsets : candidates (sampleImage 0 0).bytes = some ⟨[512, 0, 0], rfl⟩ :=
    candidates_of_layout (headerLayout_toGoImage (sampleBlock 0 0) _)
  have hfirst : [512, 0, 0].find? (startsBlock (sampleImage 0 0)) = some 512 := by
    decide +kernel
  have hsearch := (read_metadata_finds_first_copy .debug hfree hlen).2.1 _ hoffsets
  exact ⟨hfree, hlen, hsearch.1 512 hfirst⟩

end Bitlocker
