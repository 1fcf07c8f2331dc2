import BitlockerForensic.Core.LogicalBytes

/-!
# Damaged images

How far a change of the stored bytes reaches in the decrypted view.  XTS keeps it
in its block, CBC lets it into the block behind, and only the diffuser spreads it
over the sector.
-/

namespace Bitlocker

open RustStd
open BlockModes

/-! ## Blocks of a sector -/

namespace SectorTransform

def mode : SectorTransform → CipherMode
  | cbc128 _ _ _ => .cbc
  | cbc256 _ _ => .cbc
  | xts128 _ _ => .xts
  | xts256 _ _ => .xts

def diffused : SectorTransform → Bool
  | cbc128 _ _ (some _) => true
  | _ => false

end SectorTransform

namespace SectorCipher

variable {P : Crates}

/-- The AES decryption under the data key of a transform. -/
def blockDecrypt (laws : CipherLaws P) (cipher : SectorCipher P) : Block → Block :=
  match cipher.transform with
  | .cbc128 fvek _ _ => laws.aes128Decrypt fvek
  | .cbc256 fvek _ => laws.aes256Decrypt fvek
  | .xts128 data _ => laws.aes128Decrypt data
  | .xts256 data _ => laws.aes256Decrypt data

theorem blockDecrypt_injective (laws : CipherInverses P) (cipher : SectorCipher P) :
    Function.Injective (cipher.blockDecrypt laws.toCipherLaws) := by
  obtain ⟨transform⟩ := cipher
  cases transform with
  | cbc128 fvek fvekEcb tweak => exact Function.LeftInverse.injective (laws.aes128_cancel fvek)
  | cbc256 fvek fvekEcb => exact Function.LeftInverse.injective (laws.aes256_cancel fvek)
  | xts128 data tweak => exact Function.LeftInverse.injective (laws.aes128_cancel data)
  | xts256 data tweak => exact Function.LeftInverse.injective (laws.aes256_cancel data)

theorem cbc_blocks (laws : CipherLaws P) (cipher : SectorCipher P)
    (hmode : cipher.transform.mode = .cbc) (hplain : cipher.transform.diffused = false)
    (byteOffset : UInt64) :
    ∃ iv : Block, ∀ ct : List UInt8, ct.length % 16 = 0 →
      cipher.decryptSector ct byteOffset = cbcDecryptBytes (cipher.blockDecrypt laws) iv ct := by
  obtain ⟨transform⟩ := cipher
  cases transform with
  | cbc128 fvek fvekEcb tweak =>
      cases tweak with
      | some tweak => cases hplain
      | none =>
          refine ⟨P.aes128Encrypt fvekEcb (le128 byteOffset), ?_⟩
          intro ct h
          exact (onWholeBlocks_of_dvd _ h).trans (laws.cbc128Decrypt_run fvek _ ct h)
  | cbc256 fvek fvekEcb =>
      refine ⟨P.aes256Encrypt fvekEcb (le128 byteOffset), ?_⟩
      intro ct h
      exact (onWholeBlocks_of_dvd _ h).trans (laws.cbc256Decrypt_run fvek _ ct h)
  | xts128 data tweak => cases hmode
  | xts256 data tweak => cases hmode

theorem xts_blocks (laws : CipherLaws P) (cipher : SectorCipher P)
    (hmode : cipher.transform.mode = .xts) (byteOffset : UInt64) :
    ∃ tweak : Block, ∀ ct : List UInt8, ct.length % 16 = 0 → 16 ≤ ct.length →
      cipher.decryptSector ct byteOffset = xtsBytes (cipher.blockDecrypt laws) tweak ct := by
  obtain ⟨transform⟩ := cipher
  cases transform with
  | cbc128 fvek fvekEcb tweak => cases hmode
  | cbc256 fvek fvekEcb => cases hmode
  | xts128 data tweak =>
      refine ⟨P.aes128Encrypt tweak (sectorTweak P byteOffset), ?_⟩
      intro ct h hpos
      exact (if_pos hpos).trans (laws.xts128Decrypt_run data tweak _ ct h hpos)
  | xts256 data tweak =>
      refine ⟨P.aes256Encrypt tweak (sectorTweak P byteOffset), ?_⟩
      intro ct h hpos
      exact (if_pos hpos).trans (laws.xts256Decrypt_run data tweak _ ct h hpos)

/-- The bytes of a sector that byte `j` of its plaintext is made from. -/
def Reaches (cipher : SectorCipher P) (j i : ℕ) : Prop :=
  if cipher.transform.diffused then True
  else match cipher.transform.mode with
    | .cbc => i / 16 = j / 16 ∨ i / 16 + 1 = j / 16
    | .xts => i / 16 = j / 16

theorem getElem?_decryptSector (laws : CipherLaws P) (cipher : SectorCipher P)
    {ct ct' : List UInt8} (h : ct.length % 16 = 0) (hlen : ct'.length = ct.length) {j : ℕ}
    (hj : j < ct.length) (hsame : ∀ i < ct.length, cipher.Reaches j i → ct'[i]? = ct[i]?)
    (byteOffset : UInt64) :
    (cipher.decryptSector ct' byteOffset)[j]? = (cipher.decryptSector ct byteOffset)[j]? := by
  have hblock : ∀ k, 16 * k + 16 ≤ ct.length → (∀ i, i / 16 = k → cipher.Reaches j i) →
      block ct' k = block ct k := by
    intro k hk hreach
    apply block_ext (by omega) hk
    intro i hi
    exact hsame _ (by omega) (hreach _ (by omega))
  have hbytes : block (cipher.decryptSector ct' byteOffset) (j / 16) =
      block (cipher.decryptSector ct byteOffset) (j / 16) →
      (cipher.decryptSector ct' byteOffset)[j]? = (cipher.decryptSector ct byteOffset)[j]? := by
    intro heq
    have hget : ∀ l : List UInt8, 16 * (j / 16) + 16 ≤ l.length →
        l[j]? = (block l (j / 16)).toList[j % 16]? := by
      intro l hl
      rw [getElem?_block hl (Nat.mod_lt j (by decide)), Nat.div_add_mod]
    rw [hget _ (by rw [length_decryptSector]; omega), heq,
      ← hget _ (by rw [length_decryptSector]; omega)]
  by_cases hdiffused : cipher.transform.diffused = true
  · have heq : ct' = ct := by
      apply List.ext_getElem?
      intro i
      by_cases hi : i < ct.length
      · exact hsame i hi (by rw [Reaches, if_pos hdiffused]; trivial)
      · rw [List.getElem?_eq_none (by omega), List.getElem?_eq_none (by omega)]
    rw [heq]
  · have hplain := Bool.eq_false_of_not_eq_true hdiffused
    apply hbytes
    cases hmode : cipher.transform.mode with
    | cbc =>
        have hreach : ∀ i, i / 16 = j / 16 ∨ i / 16 + 1 = j / 16 → cipher.Reaches j i := by
          intro i hi
          rw [Reaches, if_neg hdiffused, hmode]
          exact hi
        obtain ⟨iv, hcbc⟩ := cbc_blocks laws cipher hmode hplain byteOffset
        rw [hcbc ct h, hcbc ct' (by omega), block_cbcDecryptBytes _ iv h (by omega),
          block_cbcDecryptBytes _ iv (by omega) (by omega),
          hblock (j / 16) (by omega) fun i hi ↦ hreach i (Or.inl hi)]
        by_cases hfirst : j / 16 = 0
        · rw [if_pos hfirst, if_pos hfirst]
        · rw [if_neg hfirst, if_neg hfirst,
            hblock (j / 16 - 1) (by omega) fun i hi ↦ hreach i (Or.inr (by omega))]
    | xts =>
        have hreach : ∀ i, i / 16 = j / 16 → cipher.Reaches j i := by
          intro i hi
          rw [Reaches, if_neg hdiffused, hmode]
          exact hi
        obtain ⟨tweak, hxts⟩ := xts_blocks laws cipher hmode byteOffset
        rw [hxts ct h (by omega), hxts ct' (by omega) (by omega),
          block_xtsBytes _ tweak h (by omega), block_xtsBytes _ tweak (by omega) (by omega),
          hblock (j / 16) (by omega) hreach]

section ChangedBlock

variable (laws : CipherInverses P) (cipher : SectorCipher P) {ct ct' : List UInt8}
  (h : ct.length % 16 = 0) (hlen : ct'.length = ct.length) {k : ℕ}
  (hk : 16 * k + 16 ≤ ct.length)
  (hsame : ∀ n, n ≠ k → 16 * n + 16 ≤ ct.length → block ct' n = block ct n)
  (hchanged : block ct' k ≠ block ct k) (byteOffset : UInt64)

include laws h hlen hk hsame hchanged

/-- Under XTS a changed block changes its own block of the plaintext, and no
other. -/
theorem xts_changedBlock (hmode : cipher.transform.mode = .xts) {n : ℕ}
    (hn : 16 * n + 16 ≤ ct.length) :
    block (cipher.decryptSector ct' byteOffset) n = block (cipher.decryptSector ct byteOffset) n ↔
      n ≠ k := by
  obtain ⟨tweak, hxts⟩ := xts_blocks laws.toCipherLaws cipher hmode byteOffset
  rw [hxts ct h (by omega), hxts ct' (by omega) (by omega), block_xtsBytes _ tweak h hn,
    block_xtsBytes _ tweak (by omega) (by omega), xorBlock_left_inj,
    (cipher.blockDecrypt_injective laws).eq_iff, xorBlock_left_inj]
  constructor
  · rintro heq rfl
    exact hchanged heq
  · intro hne
    exact hsame n hne hn

/-- Under CBC without the diffuser a changed block changes its own block of the
plaintext, flips the same bits in the block behind, and changes no other. -/
theorem cbc_changedBlock (hmode : cipher.transform.mode = .cbc)
    (hplain : cipher.transform.diffused = false) {n : ℕ} (hn : 16 * n + 16 ≤ ct.length) :
    (n = k → block (cipher.decryptSector ct' byteOffset) n ≠
      block (cipher.decryptSector ct byteOffset) n) ∧
    (n = k + 1 → block (cipher.decryptSector ct' byteOffset) n =
      xorBlock (block (cipher.decryptSector ct byteOffset) n)
        (xorBlock (block ct k) (block ct' k))) ∧
    (n ≠ k → n ≠ k + 1 → block (cipher.decryptSector ct' byteOffset) n =
      block (cipher.decryptSector ct byteOffset) n) := by
  obtain ⟨iv, hcbc⟩ := cbc_blocks laws.toCipherLaws cipher hmode hplain byteOffset
  have hbefore : n ≠ k + 1 →
      (if n = 0 then iv else block ct' (n - 1)) = if n = 0 then iv else block ct (n - 1) := by
    intro hne
    by_cases hfirst : n = 0
    · rw [if_pos hfirst, if_pos hfirst]
    · rw [if_neg hfirst, if_neg hfirst, hsame (n - 1) (by omega) (by omega)]
  rw [hcbc ct h, hcbc ct' (by omega), block_cbcDecryptBytes _ iv h hn,
    block_cbcDecryptBytes _ iv (by omega) (by omega)]
  refine ⟨?_, ?_, ?_⟩
  · rintro rfl
    rw [hbefore (by omega), Ne, xorBlock_left_inj, (cipher.blockDecrypt_injective laws).eq_iff]
    exact hchanged
  · rintro rfl
    rw [if_neg (Nat.succ_ne_zero k), if_neg (Nat.succ_ne_zero k), Nat.add_sub_cancel,
      hsame (k + 1) (by omega) hn, xorBlock_xorBlock]
  · intro hne hne'
    rw [hbefore hne', hsame n hne hn]

end ChangedBlock

end SectorCipher

/-! ## Positions of the view -/

variable {P : Crates}

namespace VolumeView

/-- The stored bytes that the byte at `q` of the view is made from. -/
def Touches (w : VolumeView (SectorCipher P)) (q : UInt64) (a : ℕ) : Prop :=
  w.blanked (sectorStart q) = false ∧ ∃ i < sectorSize,
    a = (w.physical (sectorStart q)).toNat + i ∧
      if w.storedPlain (w.physical (sectorStart q)) then i = (q % 512).toNat
      else w.cipher.Reaches (q % 512).toNat i

theorem getElem?_storedSector (image : Image) (physical : UInt64) {i : ℕ} (hi : i < sectorSize) :
    (storedSector image physical)[i]? = some (image.bytes.getD (physical.toNat + i) 0) := by
  have hlen : i < (storedSector image physical).length := by
    rw [length_storedSector]
    exact hi
  rw [← getD_storedSector image physical hi, List.getD_eq_getElem _ _ hlen,
    List.getElem?_eq_getElem hlen]

/-- Where a sector is stored, and how, is a matter of the metadata alone. -/
theorem layout_congr {C : Type} {w w' : VolumeView C} (hmd : w'.metadata = w.metadata) :
    w'.blanked = w.blanked ∧ w'.physical = w.physical ∧ w'.storedPlain = w.storedPlain := by
  refine ⟨funext fun s ↦ ?_, funext fun s ↦ ?_, funext fun s ↦ ?_⟩
  · rw [blanked, blanked, hmd]
  · rw [physical, physical, hmd]
  · rw [storedPlain, storedPlain, hmd]

theorem plainByte_of_touches (laws : CipherLaws P) {w w' : VolumeView (SectorCipher P)}
    (hmd : w'.metadata = w.metadata) (hcipher : w'.cipher = w.cipher) {q : UInt64}
    (hsame : ∀ a, w.Touches q a → w'.image.bytes.getD a 0 = w.image.bytes.getD a 0) :
    w'.plainByte q = w.plainByte q := by
  have hwithin := within_lt q
  obtain ⟨hblanked, hphysical, hstored⟩ := layout_congr hmd
  change (w'.plainSector (sectorStart q)).getD _ _ = (w.plainSector (sectorStart q)).getD _ _
  rw [plainSector, plainSector, hblanked, hphysical, hstored, hcipher]
  by_cases hzero : w.blanked (sectorStart q) = true
  · rw [if_pos hzero, if_pos hzero]
  · rw [if_neg hzero, if_neg hzero]
    have hbyte : ∀ i < sectorSize,
        (if w.storedPlain (w.physical (sectorStart q)) then i = (q % 512).toNat
          else w.cipher.Reaches (q % 512).toNat i) →
        (storedSector w'.image (w.physical (sectorStart q)))[i]? =
          (storedSector w.image (w.physical (sectorStart q)))[i]? := by
      intro i hi hreach
      rw [getElem?_storedSector _ _ hi, getElem?_storedSector _ _ hi,
        hsame _ ⟨Bool.eq_false_of_not_eq_true hzero, i, hi, rfl, hreach⟩]
    dsimp only
    by_cases hplain : w.storedPlain (w.physical (sectorStart q)) = true
    · rw [if_pos hplain, if_pos hplain, List.getD_eq_getElem?_getD, List.getD_eq_getElem?_getD,
        hbyte _ hwithin (by rw [if_pos hplain])]
    · have hlen := length_storedSector w.image (w.physical (sectorStart q))
      have hlen' := length_storedSector w'.image (w.physical (sectorStart q))
      have hdecrypted : ∀ ct : List UInt8, ct.length = sectorSize →
          fitSector (SectorDecrypt.decryptSector w.cipher ct (w.physical (sectorStart q))) =
            w.cipher.decryptSector ct (w.physical (sectorStart q)) := by
        intro ct hct
        exact fitSector_eq ((SectorCipher.length_decryptSector _ _ _).trans hct)
      rw [if_neg hplain, if_neg hplain, hdecrypted _ hlen, hdecrypted _ hlen',
        List.getD_eq_getElem?_getD, List.getD_eq_getElem?_getD,
        SectorCipher.getElem?_decryptSector laws w.cipher (by rw [hlen]; rfl)
          (hlen'.trans hlen.symm) (by rw [hlen]; exact hwithin)]
      intro i hi hreach
      rw [hlen] at hi
      exact hbyte i hi (by rw [if_neg hplain]; exact hreach)

end VolumeView

namespace DecryptedVolume

/-- Two volumes with one set of keys over images that differ: whatever calls came
before on either, in either build, two reads of one range agree at every position
made from stored bytes that the images share. -/
theorem damage_contained (laws : CipherLaws P) {p p' : Profile}
    {v₀ v v' u₀ u u' : DecryptedVolume (SectorCipher P)} {ls ls' : List (Call × Outcome)}
    (hmd : u₀.metadata = v₀.metadata) (hcipher : u₀.cipher = v₀.cipher)
    (hv : Lts.Run (Step p) v₀ ls v) (hu : Lts.Run (Step p') u₀ ls' u) {offset : UInt64}
    {buf buf' : Bytes} {bytes bytes' : List UInt8} (hlen : buf'.length = buf.length)
    (hread : readAt p offset buf v = (.ok bytes, v'))
    (hread' : readAt p' offset buf' u = (.ok bytes', u')) :
    ∀ i < buf.length,
      (∀ a, v₀.view.Touches (offset + UInt64.ofNat i) a →
        u₀.reader.image.bytes.getD a 0 = v₀.reader.image.bytes.getD a 0) →
      bytes'[i]? = bytes[i]? := by
  intro i hi hsame
  rw [bytes_of_readAt hread, bytes_of_readAt hread', (Run.frame hv).view, (Run.frame hu).view,
    VolumeView.getElem?_plainBytes hi, VolumeView.getElem?_plainBytes (by omega),
    @VolumeView.plainByte_of_touches P laws v₀.view u₀.view hmd hcipher _ hsame]

/-- The sample image with the byte at 1024 changed. -/
def damagedImage : Image :=
  toGoImage (sampleBlock 0 0) (Bytes.ofList (List.replicate 176 0 ++ 1 :: List.replicate 511 0))

theorem unlock_damagedImage :
    ∃ v u, Credential.clearKey.unlock sampleCrates .release (Reader.ofImage (sampleImage 0 0)) =
        .ok v ∧
      Credential.clearKey.unlock sampleCrates .release (Reader.ofImage damagedImage) = .ok u ∧
      v.reader.ErrorFree ∧ u.reader.ErrorFree ∧
      v.view = ⟨sampleImage 0 0, SectorCipher.newCbc sampleFvek, (sampleBlock 0 0).metadata 512⟩ ∧
      u.view = ⟨damagedImage, SectorCipher.newCbc sampleFvek, (sampleBlock 0 0).metadata 512⟩ := by
  have hfree := Reader.errorFree_ofImage (sampleImage 0 0)
  have hfree' := Reader.errorFree_ofImage damagedImage
  obtain ⟨v, hv, hlater, hcipher, hmd, -⟩ := sampleBlock_unlocks .release 0 0 hfree rfl
  obtain ⟨u, hu, hlater', hcipher', hmd', -⟩ := sampleBlock_unlocks .release 0 0 hfree' rfl
  exact ⟨v, u, hv, hu, hlater.errorFree hfree, hlater'.errorFree hfree',
    view_eq hlater.image hcipher hmd, view_eq hlater'.image hcipher' hmd'⟩

/-- What the two samples share, and where the sector at 1024 is stored. -/
theorem damagedImage_layout {v u : DecryptedVolume (SectorCipher sampleCrates)}
    (hview : v.view =
      ⟨sampleImage 0 0, SectorCipher.newCbc sampleFvek, (sampleBlock 0 0).metadata 512⟩)
    (hview' : u.view =
      ⟨damagedImage, SectorCipher.newCbc sampleFvek, (sampleBlock 0 0).metadata 512⟩) :
    u.metadata = v.metadata ∧ u.cipher = v.cipher ∧ v.reader.image = sampleImage 0 0 ∧
      u.reader.image = damagedImage ∧ v.view.physical 1024 = 1024 ∧
      v.view.blanked 1024 = false ∧ v.view.storedPlain 1024 = false := by
  have hmd : u.view.metadata = v.view.metadata := by rw [hview, hview']
  have hcipher : u.view.cipher = v.view.cipher := by rw [hview, hview']
  have himage : v.view.image = sampleImage 0 0 := by rw [hview]
  have himage' : u.view.image = damagedImage := by rw [hview']
  refine ⟨hmd, hcipher, himage, himage', ?_⟩
  rw [hview]
  refine ⟨?_, ?_, ?_⟩ <;> decide +kernel

theorem readAt_release {v : DecryptedVolume (SectorCipher P)} (hfree : v.reader.ErrorFree)
    (offset : UInt64) (buf : Bytes) :
    ∃ v', readAt .release offset buf v = (.ok (v.view.plainBytes offset buf.length), v') := by
  obtain ⟨r, -, hread⟩ := (yields_readAt .release offset buf v).of_errorFree hfree
  rw [VolumeView.bytesFrom_release] at hread
  exact ⟨_, hread⟩

theorem damagedImage_agrees : ∀ i < 512, i / 16 ≠ 0 →
    damagedImage.bytes.getD (1024 + i) 0 = (sampleImage 0 0).bytes.getD (1024 + i) 0 := by
  have hrest : damagedImage.bytes.drop 1040 = (sampleImage 0 0).bytes.drop 1040 := by
    decide +kernel
  intro i _ hblock
  have hget : ∀ l : List UInt8, l.getD (1024 + i) 0 = (l.drop 1040).getD (i - 16) 0 := by
    intro l
    rw [List.getD_eq_getElem?_getD, List.getD_eq_getElem?_getD, List.getElem?_drop,
      show 1040 + (i - 16) = 1024 + i by omega]
  rw [hget, hget, hrest]

/-- The third block of the damaged sector reads as before. -/
theorem damage_contained_sample :
    ∃ (v v' u u' : DecryptedVolume (SectorCipher sampleCrates)) (bytes bytes' : List UInt8),
      Credential.clearKey.unlock sampleCrates .release (Reader.ofImage (sampleImage 0 0)) = .ok v ∧
      Credential.clearKey.unlock sampleCrates .release (Reader.ofImage damagedImage) = .ok u ∧
      readAt .release 1056 (Bytes.ofList [0]) v = (.ok bytes, v') ∧
      readAt .release 1056 (Bytes.ofList [0]) u = (.ok bytes', u') ∧ bytes'[0]? = bytes[0]? := by
  obtain ⟨v, u, hv, hu, hfree, hfree', hview, hview'⟩ := unlock_damagedImage
  obtain ⟨v', hread⟩ := readAt_release hfree 1056 (Bytes.ofList [0])
  obtain ⟨u', hread'⟩ := readAt_release hfree' 1056 (Bytes.ofList [0])
  refine ⟨v, v', u, u', _, _, hv, hu, hread, hread', ?_⟩
  obtain ⟨hmd, hcipher, himage, himage', hphysical, -, hstored⟩ :=
    damagedImage_layout hview hview'
  refine damage_contained sampleInverses.toCipherLaws hmd hcipher (.nil v) (.nil u) rfl hread
    hread' 0 (by decide) ?_
  rintro a ⟨-, i, hi, rfl, hreach⟩
  have hstart : sectorStart (1056 + UInt64.ofNat 0) = 1024 := by decide
  have hsector : i / 16 ≠ 0 := by
    have hreach' : v.view.cipher.Reaches 32 i := by
      rw [hstart, hphysical, if_neg (by rw [hstored]; decide)] at hreach
      exact hreach
    rw [hview] at hreach'
    have hblocks : i / 16 = 32 / 16 ∨ i / 16 + 1 = 32 / 16 := hreach'
    omega
  rw [hstart, hphysical, himage, himage']
  exact damagedImage_agrees i hi hsector

end DecryptedVolume

/-! ## A changed block -/

namespace VolumeView

theorem plainBytes_sector {C : Type} [SectorDecrypt C] (w : VolumeView C) {s : UInt64}
    (haligned : s.toNat % 512 = 0) : w.plainBytes s 512 = w.plainSector s := by
  have hs := s.toNat_lt
  have hrange := @map_getD_range (w.plainSector s) 0 512
    (by rw [length_plainSector, sectorSize])
  rw [List.drop_zero, List.take_of_length_le (by rw [length_plainSector, sectorSize])] at hrange
  rw [← hrange, plainBytes]
  apply List.map_congr_left
  intro i hi
  have hin := List.mem_range.mp hi
  have hposition : s + UInt64.ofNat i = UInt64.ofNat (s.toNat + i) := by
    rw [UInt64.ofNat_add, UInt64.ofNat_toNat]
  have hmod : (s.toNat + i) % 512 = i := by omega
  rw [hposition, plainByte_ofNat w (by omega), hmod, Nat.add_sub_cancel, UInt64.ofNat_toNat,
    Nat.zero_add]

theorem plainSector_encrypted {w : VolumeView (SectorCipher P)} {s : UInt64}
    (hblanked : w.blanked s = false) (hstored : w.storedPlain (w.physical s) = false) :
    w.plainSector s =
      w.cipher.decryptSector (storedSector w.image (w.physical s)) (w.physical s) := by
  have hlen : (w.cipher.decryptSector (storedSector w.image (w.physical s))
      (w.physical s)).length = sectorSize := by
    rw [SectorCipher.length_decryptSector, length_storedSector]
  rw [plainSector, if_neg (by rw [hblanked]; decide)]
  dsimp only
  rw [if_neg (by rw [hstored]; decide)]
  exact fitSector_eq hlen

end VolumeView

namespace DecryptedVolume

theorem block_storedSector {image image' : Image} {physical : UInt64} {n : ℕ} (hn : n < 32) :
    block (storedSector image' physical) n = block (storedSector image physical) n ↔
      ∀ i < 16, image'.bytes.getD (physical.toNat + (16 * n + i)) 0 =
        image.bytes.getD (physical.toNat + (16 * n + i)) 0 := by
  have hlen := length_storedSector image physical
  have hlen' := length_storedSector image' physical
  rw [sectorSize] at hlen hlen'
  have hbyte : ∀ (image : Image) {i}, i < 16 → (storedSector image physical)[16 * n + i]? =
      some (image.bytes.getD (physical.toNat + (16 * n + i)) 0) := by
    intro image i hi
    exact VolumeView.getElem?_storedSector image physical (by rw [sectorSize]; omega)
  constructor
  · intro heq i hi
    have hget := @getElem?_block (storedSector image' physical) n i (by omega) hi
    rw [heq, getElem?_block (by omega) hi, hbyte image hi, hbyte image' hi] at hget
    exact (Option.some.inj hget).symm
  · intro hsame
    apply block_ext (by omega) (by omega)
    intro i hi
    rw [hbyte image hi, hbyte image' hi, hsame i hi]

theorem bytes_of_readAt_sector {p : Profile} {v v' : DecryptedVolume (SectorCipher P)}
    {s : UInt64} (haligned : s.toNat % 512 = 0) (hblanked : v.view.blanked s = false)
    (hstored : v.view.storedPlain (v.view.physical s) = false) {buf : Bytes} {bytes : List UInt8}
    (hbuf : buf.length = 512) (hread : readAt p s buf v = (.ok bytes, v')) :
    bytes = v.cipher.decryptSector (storedSector v.reader.image (v.view.physical s))
      (v.view.physical s) := by
  rw [bytes_of_readAt hread, hbuf, VolumeView.plainBytes_sector _ haligned,
    VolumeView.plainSector_encrypted hblanked hstored]
  rfl

/-- One changed block of a stored sector.  The plaintext never stays the same.
XTS confines the change to its block; CBC without the diffuser garbles its block and
flips the very bits of the change in the block behind it. -/
theorem changed_block_effect (laws : CipherInverses P) {p p' : Profile}
    {v v' u u' : DecryptedVolume (SectorCipher P)} (hmd : u.metadata = v.metadata)
    (hcipher : u.cipher = v.cipher) {s : UInt64} (haligned : s.toNat % 512 = 0)
    (hblanked : v.view.blanked s = false)
    (hstored : v.view.storedPlain (v.view.physical s) = false) {k : ℕ} (hk : k < 32)
    (hsame : ∀ i < 512, i / 16 ≠ k →
      u.reader.image.bytes.getD ((v.view.physical s).toNat + i) 0 =
        v.reader.image.bytes.getD ((v.view.physical s).toNat + i) 0)
    (hchanged : ∃ i < 512, i / 16 = k ∧
      u.reader.image.bytes.getD ((v.view.physical s).toNat + i) 0 ≠
        v.reader.image.bytes.getD ((v.view.physical s).toNat + i) 0)
    {buf buf' : Bytes} {bytes bytes' : List UInt8} (hbuf : buf.length = 512)
    (hbuf' : buf'.length = 512) (hread : readAt p s buf v = (.ok bytes, v'))
    (hread' : readAt p' s buf' u = (.ok bytes', u')) :
    bytes' ≠ bytes ∧
    (v.cipher.transform.mode = .xts → ∀ n < 32, block bytes' n = block bytes n ↔ n ≠ k) ∧
    (v.cipher.transform.mode = .cbc → v.cipher.transform.diffused = false → ∀ n < 32,
      (n = k → block bytes' n ≠ block bytes n) ∧
      (n = k + 1 → block bytes' n = xorBlock (block bytes n)
        (xorBlock (block (storedSector v.reader.image (v.view.physical s)) k)
          (block (storedSector u.reader.image (v.view.physical s)) k))) ∧
      (n ≠ k → n ≠ k + 1 → block bytes' n = block bytes n)) := by
  obtain ⟨hblanked', hphysical, hstored'⟩ := @VolumeView.layout_congr _ v.view u.view hmd
  have hbytes := bytes_of_readAt_sector haligned hblanked hstored hbuf hread
  have hbytes' := bytes_of_readAt_sector haligned (hblanked'.symm ▸ hblanked)
    (by rw [hphysical, hstored']; exact hstored) hbuf' hread'
  rw [hphysical, hcipher] at hbytes'
  have hlen := length_storedSector v.reader.image (v.view.physical s)
  have hlen' := length_storedSector u.reader.image (v.view.physical s)
  rw [sectorSize] at hlen hlen'
  have hblock : ∀ n, n ≠ k →
      16 * n + 16 ≤ (storedSector v.reader.image (v.view.physical s)).length →
      block (storedSector u.reader.image (v.view.physical s)) n =
        block (storedSector v.reader.image (v.view.physical s)) n := by
    intro n hne hn
    apply (block_storedSector (by omega)).mpr
    intro i hi
    exact hsame _ (by omega) (by omega)
  have hdiff : block (storedSector u.reader.image (v.view.physical s)) k ≠
      block (storedSector v.reader.image (v.view.physical s)) k := by
    intro heq
    obtain ⟨i, hi, hik, hne⟩ := hchanged
    have hagree := (block_storedSector hk).mp heq (i % 16) (Nat.mod_lt i (by decide))
    rw [← hik, Nat.div_add_mod] at hagree
    exact hne hagree
  generalize storedSector v.reader.image (v.view.physical s) = ct at *
  generalize storedSector u.reader.image (v.view.physical s) = ct' at *
  subst hbytes hbytes'
  refine ⟨?_, ?_, ?_⟩
  · intro heq
    have hinverse := congrArg (v.cipher.encryptSector · (v.view.physical s)) heq
    rw [SectorCipher.encryptSector_decryptSector laws _ (by omega) (by omega),
      SectorCipher.encryptSector_decryptSector laws _ (by omega) (by omega)] at hinverse
    exact hdiff (by rw [hinverse])
  · intro hmode n hn
    exact SectorCipher.xts_changedBlock laws v.cipher (by omega) (by omega) (by omega) hblock hdiff
      _ hmode (by omega)
  · intro hmode hplain n hn
    exact SectorCipher.cbc_changedBlock laws v.cipher (by omega) (by omega) (by omega) hblock hdiff
      _ hmode hplain (by omega)

/-- The changed byte garbles its block, and its bit comes back flipped sixteen bytes
later. -/
theorem changed_block_sample :
    ∃ (v v' u u' : DecryptedVolume (SectorCipher sampleCrates)) (bytes bytes' : List UInt8),
      Credential.clearKey.unlock sampleCrates .release (Reader.ofImage (sampleImage 0 0)) = .ok v ∧
      Credential.clearKey.unlock sampleCrates .release (Reader.ofImage damagedImage) = .ok u ∧
      readAt .release 1024 (Bytes.ofList (List.replicate 512 0)) v = (.ok bytes, v') ∧
      readAt .release 1024 (Bytes.ofList (List.replicate 512 0)) u = (.ok bytes', u') ∧
      block bytes' 0 ≠ block bytes 0 ∧
      block bytes' 1 = xorBlock (block bytes 1)
        (xorBlock (block (storedSector (sampleImage 0 0) 1024) 0)
          (block (storedSector damagedImage 1024) 0)) := by
  obtain ⟨v, u, hv, hu, hfree, hfree', hview, hview'⟩ := unlock_damagedImage
  obtain ⟨v', hread⟩ := readAt_release hfree 1024 (Bytes.ofList (List.replicate 512 0))
  obtain ⟨u', hread'⟩ := readAt_release hfree' 1024 (Bytes.ofList (List.replicate 512 0))
  refine ⟨v, v', u, u', _, _, hv, hu, hread, hread', ?_⟩
  obtain ⟨hmd, hcipher, himage, himage', hphysical, hblanked, hstored⟩ :=
    damagedImage_layout hview hview'
  have hmode : v.view.cipher.transform.mode = .cbc := by rw [hview]; rfl
  have hplain : v.view.cipher.transform.diffused = false := by rw [hview]; rfl
  have hbuf : (Bytes.ofList (List.replicate 512 0)).length = 512 := by decide +kernel
  have hsame : ∀ i < 512, i / 16 ≠ 0 →
      u.reader.image.bytes.getD ((v.view.physical 1024).toNat + i) 0 =
        v.reader.image.bytes.getD ((v.view.physical 1024).toNat + i) 0 := by
    rw [hphysical, himage, himage']
    exact damagedImage_agrees
  have hfirst : u.reader.image.bytes.getD ((v.view.physical 1024).toNat + 0) 0 ≠
      v.reader.image.bytes.getD ((v.view.physical 1024).toNat + 0) 0 := by
    rw [hphysical, himage, himage']
    decide +kernel
  rw [← hphysical] at hstored
  have heffect := changed_block_effect sampleInverses hmd hcipher (by decide) hblanked hstored
    (show 0 < 32 by decide) hsame ⟨0, by decide, rfl, hfirst⟩ hbuf hbuf hread hread'
  have hcbc := heffect.2.2 hmode hplain
  rw [hphysical, himage, himage'] at hcbc
  exact ⟨(hcbc 0 (by decide)).1 rfl, (hcbc 1 (by decide)).2.1 rfl⟩

end DecryptedVolume

end Bitlocker
