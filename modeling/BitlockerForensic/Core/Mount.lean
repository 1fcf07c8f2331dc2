import BitlockerForensic.Core.Layer
import BitlockerForensic.Core.MetadataSearch
import BitlockerForensic.Core.RoundTrip
import BitlockerForensic.Core.SharedSource

/-!
# From the image to the threads

A volume with a header of any variant, perhaps with its first metadata copies
damaged, is opened by a credential for the only protector of its type, and its source
is shared by threads.  Each of their reads returns the plaintext that was encrypted.
-/

namespace Bitlocker

open RustStd
open RustStd.Reader
open BitlockerSource

variable {P : Crates}

/-! ## The bytes that threads receive -/

/-- The bytes of a range, sector by sector from their plaintexts. -/
def plaintextBytes (plain : UInt64 → List UInt8) (offset : UInt64) (count : ℕ) : List UInt8 :=
  (List.range count).map fun i ↦
    (plain (sectorStart (offset + UInt64.ofNat i))).getD ((offset + UInt64.ofNat i) % 512).toNat 0

theorem bytesFrom_of_storesSector (laws : CipherLaws P) (p : Profile)
    {w : VolumeView (SectorCipher P)} (hmethod : w.metadata.encryptionMethod ≠ methodNone)
    {plain : UInt64 → List UInt8} {offset : UInt64} {count : ℕ}
    (hrange : offset.toNat + count < 2 ^ 64)
    (hstored : ∀ i < count, StoresSector P w.image w.metadata w.cipher
      (sectorStart (offset + UInt64.ofNat i)) (plain (sectorStart (offset + UInt64.ofNat i)))) :
    w.bytesFrom p offset 0 count = .ok (plaintextBytes plain offset count) := by
  rw [VolumeView.bytesFrom, ← List.range_eq_range', plaintextBytes]
  refine mapM_ok fun i hi ↦ ?_
  have hin := List.mem_range.mp hi
  have hindex : (UInt64.ofNat i).toNat = i :=
    UInt64.toNat_ofNat_of_lt (show i < 2 ^ 64 by omega)
  have hsector := (hstored i hin).sector_eq laws p hmethod
  rw [sectorStart] at hsector
  rw [p.addU64_ok (by omega), ok_bind, VolumeView.byteAt, hsector]
  rfl

/-- A volume with an intact copy of its metadata opens with a credential that the only
VMK entry of its type protects the VMK for.  That is the volume a layer mounts when no
credential offered before opens one; and in every interleaving of the threads that
share its source, each `read_at` of a range stored encrypted returns the plaintext of
the range. -/
theorem mounted_volume_serves_plaintext (laws : CipherLaws P) (ccm : CcmLaws P) {p : Profile}
    {r : Reader} (hfree : r.ErrorFree) {b : BlockLayout} {vmk : Octets 32} {key : KeyMaterial}
    (hvolume : RecoverableVolume P r.image b vmk key) {cred : Credential} {e : MetadataEntry}
    (he : e ∈ b.entries) (hprotects : Protects P cred vmk e)
    (honly : ∀ e' ∈ b.entries, e'.isVmk = true → e'.typeField = cred.protectorType → e' = e) :
    ∃ v, cred.unlock P p r = .ok v ∧
      (∀ (V : VfsCrate) (layer : BitlockerLayer V) (creds : CredentialSource V)
          (before after : List (VfsCredential V)) (c : VfsCredential V),
        V.sourceCursor layer.encrypted 0 layer.len = r →
        creds V.bitlocker "" = before ++ c :: after →
        (∀ c' ∈ before, ¬ layer.Unlocks P p c') → c.toCredential = some cred →
        layer.openWith P p creds = .ok (BitlockerSource.new v)) ∧
      ∀ (θ : Type) [DecidableEq θ] (evs : List (ReadEvent θ)) (c : Threads θ (SectorCipher P)),
        Lts.Run (Mutex.Step (code p v.totalSize)) (.start v) evs c →
        ∀ (t : θ) (call : ReadCall) (out : Res VfsError (ℕ × List UInt8))
            (plain : UInt64 → List UInt8), .respond t call out ∈ evs →
          (∀ i < availableCount v.totalSize call.offset call.buf.length,
            StoresSector P r.image (b.metadata (sectorBytes r.image.bytes)) (key.cipher P)
              (sectorStart (call.offset + UInt64.ofNat i))
              (plain (sectorStart (call.offset + UInt64.ofNat i)))) →
          out = .ok (availableCount v.totalSize call.offset call.buf.length,
            plaintextBytes plain call.offset
                (availableCount v.totalSize call.offset call.buf.length) ++
              call.buf.toList.drop
                (availableCount v.totalSize call.offset call.buf.length)) := by
  obtain ⟨v, hunlock, hlater, hcipher, hmd, -⟩ :=
    unlock_of_recoverable ccm hfree hvolume he hprotects honly
  refine ⟨v, hunlock, ?_, ?_⟩
  · intro V layer creds before after c hcursor hcands hbefore hcred
    rw [← hcursor] at hunlock
    have hattempt := (layer.attempt_eq_some P p).mpr ⟨cred, hcred, hunlock⟩
    rw [BitlockerLayer.openWith_eq_result, BitlockerLayer.result, hcands,
      BitlockerLayer.opened_of_first hbefore hattempt]
  · intro θ _ evs c hrun t call out plain hmem hstored
    have hview : v.view = ⟨r.image, key.cipher P, b.metadata (sectorBytes r.image.bytes)⟩ :=
      DecryptedVolume.view_eq hlater.image hcipher hmd
    have hmethod : v.view.metadata.encryptionMethod ≠ methodNone := by
      have hkind : b.encryptionMethod ≠ methodNone := by
        rw [hvolume.method]
        cases key.kind <;> decide
      rw [hview]
      exact hkind
    have hrange : call.offset.toNat +
        availableCount v.totalSize call.offset call.buf.length < 2 ^ 64 := by
      have hsize := v.totalSize.toNat_lt
      have hoffset := call.offset.toNat_lt
      unfold availableCount
      omega
    have hsectors : ∀ i < availableCount v.totalSize call.offset call.buf.length,
        StoresSector P v.view.image v.view.metadata v.view.cipher
          (sectorStart (call.offset + UInt64.ofNat i))
          (plain (sectorStart (call.offset + UInt64.ofNat i))) := by
      rw [hview]
      exact hstored
    have hbytes := bytesFrom_of_storesSector laws p hmethod hrange hsectors
    have hout := (delivers_of_respond hrun hmem).2 (hlater.errorFree hfree)
    exact hout.trans (congrArg Eval.toRes (VolumeView.delivered_of_ok call.buf hbytes))

theorem sectorStart_add {offset : UInt64} {i : ℕ} (h : offset.toNat % 512 + i < 512) :
    sectorStart (offset + UInt64.ofNat i) = sectorStart offset :=
  (VolumeView.position_add h).2

theorem plaintextBytes_within {plain : UInt64 → List UInt8} {offset : UInt64} {count : ℕ}
    (hsector : offset.toNat % 512 + count ≤ 512)
    (hlen : (plain (sectorStart offset)).length = 512) :
    plaintextBytes plain offset count =
      ((plain (sectorStart offset)).drop (offset.toNat % 512)).take count := by
  rw [← VolumeView.map_getD_range (by omega), plaintextBytes]
  apply List.map_congr_left
  intro i hi
  have hin := List.mem_range.mp hi
  rw [sectorStart_add (by omega), (VolumeView.position_add (by omega)).1]

/-- A call for the first sector, and one for 16 bytes inside it. -/
def sectorCall : ReadCall := ⟨0, Bytes.ofList (List.replicate 512 0)⟩

def insideCall : ReadCall := ⟨256, Bytes.ofList (List.replicate 16 0)⟩

/-- The layer fails with a malformed recovery password and mounts the volume with the
password offered next.  Two threads that then call at the same time both receive the
plaintext. -/
theorem mounted_volume_sample :
    ∃ (v : DecryptedVolume (SectorCipher sampleCrates)) (evs : List (ReadEvent Bool))
        (c : Threads Bool (SectorCipher sampleCrates)),
      (BitlockerLayer.new (V := imageVfs) xtsImage).openWith sampleCrates .debug
          (fun _ _ ↦ [.recoveryKey "x", .password samplePassword]) =
        .ok (BitlockerSource.new v) ∧
      Lts.Run (Mutex.Step (code .debug v.totalSize)) (.start v)
        (.invoke true sectorCall :: .invoke false insideCall :: evs) c ∧
      .respond true sectorCall (.ok (512, xtsPlaintext)) ∈ evs ∧
      .respond false insideCall (.ok (16, (xtsPlaintext.drop 256).take 16)) ∈ evs := by
  have hfree := Reader.errorFree_ofImage xtsImage
  have hlen : xtsPlaintext.length = 512 := storesSector_xtsImage.length_eq
  obtain ⟨v, hv, hmounts, hserves⟩ := mounted_volume_serves_plaintext sampleInverses.toCipherLaws
    sampleCcmLaws (p := .debug) hfree xtsVolume.recoverable (SampleVolumeKey.mem_block .password)
    passwordProtects (SampleVolumeKey.only_block .password)
  have hmalformed : (Credential.recoveryPassword "x").unwrap sampleCrates .debug =
      .error (.err (.invalidRecoveryPassword "each recovery group must be 6 digits")) := by rfl
  have hmounted := hmounts imageVfs (BitlockerLayer.new xtsImage)
    (fun _ _ ↦ [.recoveryKey "x", .password samplePassword]) [.recoveryKey "x"] []
    (.password samplePassword) rfl rfl (by
      intro c' hc'
      cases List.mem_singleton.mp hc'
      exact BitlockerLayer.not_unlocks_of_unwrap rfl hmalformed) rfl
  obtain ⟨evs, c, out, out', hrun, hmem, hmem'⟩ :=
    (terminating .debug v.totalSize).both_respond v Bool.false_ne_true.symm sectorCall insideCall
  obtain ⟨unwrap, -, hopened⟩ := Credential.opened sampleCrates hv
  have hsize : v.totalSize.toNat = 2048 :=
    hopened.totalSize.trans (xtsVolumeKey.length_image (by decide +kernel))
  have hreads : ∀ t (call : ReadCall) out, .respond t call out ∈ evs →
      sectorStart call.offset = 0 → call.offset.toNat + call.buf.length ≤ 512 →
        out = .ok (call.buf.length,
          (xtsPlaintext.drop (call.offset.toNat % 512)).take call.buf.length) := by
    intro t call out hrespond hstart hinside
    have hcount : availableCount v.totalSize call.offset call.buf.length = call.buf.length := by
      rw [availableCount, hsize]
      omega
    have hout := hserves Bool _ c hrun t call out (fun _ ↦ xtsPlaintext)
      (List.mem_cons_of_mem _ (List.mem_cons_of_mem _ hrespond)) (by
        intro i hi
        rw [hcount] at hi
        rw [sectorStart_add (by omega), hstart, Reader.ofImage_image,
          ← xtsVolume.bytesPerSector_eq]
        exact storesSector_xtsImage)
    rw [hout, hcount, plaintextBytes_within (by omega) hlen, List.drop_length, List.append_nil]
  have hsectorCall : sectorCall.buf.length = 512 := by decide +kernel
  have hinsideCall : insideCall.buf.length = 16 := by decide +kernel
  have hfirst := hreads true sectorCall out hmem (by decide) (by rw [hsectorCall]; decide)
  have hsecond := hreads false insideCall out' hmem' (by decide) (by rw [hinsideCall]; decide)
  rw [hsectorCall, List.take_of_length_le (by rw [List.length_drop, hlen]; omega)] at hfirst
  rw [hinsideCall] at hsecond
  rw [hfirst] at hmem
  rw [hsecond] at hmem'
  exact ⟨v, evs, c, hmounted, hrun, hmem, hmem'⟩

end Bitlocker
