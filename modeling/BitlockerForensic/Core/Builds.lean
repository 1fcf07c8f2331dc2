import BitlockerForensic.Std.Builds
import BitlockerForensic.Core.Diagnosis
import BitlockerForensic.Core.Layer
import BitlockerForensic.Core.Calls
import BitlockerForensic.Core.ReadLimits

/-!
# The checked build and the wrapping build

Opening a volume does the same in both.  The read path adds fields of the metadata
without a check of its own, so there the checked build may panic where the wrapping
build goes on; until it does, the two cannot be told apart.
-/

namespace Bitlocker

open RustStd

/-! ## Opening -/

theorem readAvailable_profile (p p' : Profile) {buf : List UInt8} (hlen : buf.length < 2 ^ 64) :
    readAvailable p buf = readAvailable p' buf := by
  funext r
  rw [readAvailable, readAvailable, readAvailableLoop_eq_fill p _ buf 0 r (Nat.zero_le _) hlen,
    readAvailableLoop_eq_fill p' _ buf 0 r (Nat.zero_le _) hlen]

theorem readBlock_profile (p p' : Profile) : readBlock p = readBlock p' := by
  have hlen : (List.replicate metadataReadLen (0 : UInt8)).length < 2 ^ 64 := by
    rw [List.length_replicate]
    decide
  funext bytesPerSector offset
  simp only [readBlock, readAvailable_profile p p' hlen, FveMetadata.parse_eq]

theorem readMetadataLoop_profile (p p' : Profile) (bytesPerSector : UInt16)
    (offsets : FixedArray UInt64 3) (rest : List UInt64) :
    readMetadataLoop p bytesPerSector offsets rest =
      readMetadataLoop p' bytesPerSector offsets rest := by
  induction rest with
  | nil => rfl
  | cons offset rest ih => rw [readMetadataLoop, readMetadataLoop, ih, readBlock_profile p p']

theorem readMetadata_profile (p p' : Profile) : readMetadata p = readMetadata p' := by
  simp only [readMetadata, VolumeHeader.parse_eq, readMetadataLoop_profile p p']

variable (P : Crates)

theorem buildCipher_profile (p p' : Profile) (container : Bytes) (kind : SectorCipherKind) :
    buildCipher P p container kind = buildCipher P p' container kind := by
  by_cases hlen : kind.keyEnd ≤ container.length
  · rw [buildCipher_ok P p hlen, buildCipher_ok P p' hlen]
  · rw [buildCipher_needed P p (Nat.lt_of_not_le hlen),
      buildCipher_needed P p' (Nat.lt_of_not_le hlen)]

theorem unlock_profile (p p' : Profile) : unlock P p = unlock P p' := by
  have hproc : unlockProc P p = unlockProc P p' := by
    funext protectorType protectorName unwrap
    simp only [unlockProc, readMetadata_profile p p', deriveCipher_eq, buildCipher_profile P p p']
  funext protectorType protectorName unwrap reader
  rw [unlock, unlock, hproc]

theorem Credential.unlock_profile (p p' : Profile) (r : Reader) (cred : Credential) :
    cred.unlock P p r = cred.unlock P p' r := by
  have hunwrap : cred.unwrap P p = cred.unwrap P p' := by
    cases cred with
    | startupKey bek => rw [unwrap, unwrap, parseStartupKey_eq, parseStartupKey_eq]
    | _ => rfl
  rw [unlock_eq, unlock_eq, hunwrap, Bitlocker.unlock_profile P p p']

theorem BitlockerLayer.openWith_profile {V : VfsCrate} (p p' : Profile) (layer : BitlockerLayer V)
    (creds : CredentialSource V) : layer.openWith P p creds = layer.openWith P p' creds := by
  have hattempt : layer.attempt P p = layer.attempt P p' := by
    funext cred
    cases cred with
    | password text => rw [attempt, attempt, unlockWithPassword, unlockWithPassword,
        unlock_profile P p p']
    | recoveryKey text => rw [attempt, attempt, unlockWithRecoveryPassword,
        unlockWithRecoveryPassword, unlock_profile P p p']
    | other cred => rfl
  have hloop : ∀ (cands : List (VfsCredential V)) (lastErr : Option BdeError),
      layer.openLoop P p cands lastErr = layer.openLoop P p' cands lastErr := by
    intro cands
    induction cands with
    | nil => exact fun _ ↦ rfl
    | cons cred cands ih =>
        intro lastErr
        simp only [openLoop, hattempt, ih]
  rw [openWith, openWith, hloop]

/-! ## Reading -/

namespace DecryptedVolume

theorem checks_inMetadataRegion (metaSize sectorStart : UInt64) (offsets : List UInt64) :
    (inMetadataRegion .debug metaSize sectorStart offsets).Checks
      (inMetadataRegion .release metaSize sectorStart offsets) := by
  induction offsets with
  | nil => exact .refl _
  | cons m ms ih =>
      rw [inMetadataRegion, inMetadataRegion]
      split
      · refine (Eval.Checks.addU64 m metaSize).bind fun stop ↦ ?_
        split
        · exact .refl _
        · exact ih
      · exact ih

theorem checks_physicalAddress (md : FveMetadata) (sectorStart : UInt64) :
    (physicalAddress .debug md sectorStart).Checks (physicalAddress .release md sectorStart) := by
  rw [physicalAddress, physicalAddress]
  split
  · exact .addU64 _ _
  · exact .refl _

variable {C : Type} [SectorDecrypt C]

theorem checks_decryptLogicalSector (sectorStart : UInt64) :
    Proc.Checks (decryptLogicalSector .debug sectorStart : Proc (DecryptedVolume C) _ _)
      (decryptLogicalSector .release sectorStart) := by
  have hlen : (List.replicate sectorSize (0 : UInt8)).length < 2 ^ 64 := by
    rw [List.length_replicate]
    decide
  intro v
  rw [decryptLogicalSector, decryptLogicalSector]
  refine Proc.Checks.bind (.lift (checks_inMetadataRegion _ _ _)) (fun covered ↦ ?_) v
  refine .ite (.refl _) ?_
  refine Proc.Checks.bind (.lift (checks_physicalAddress _ _)) fun physical ↦ ?_
  rw [readAvailable_profile .debug .release hlen]
  exact .refl _

theorem checks_readAtLoop (offset : UInt64) (fuel : ℕ) (buf : List UInt8) (done : ℕ) :
    Proc.Checks (readAtLoop .debug offset fuel buf done : Proc (DecryptedVolume C) _ _)
      (readAtLoop .release offset fuel buf done) := by
  induction fuel generalizing buf done with
  | zero => exact .refl _
  | succ fuel ih =>
      rw [readAtLoop, readAtLoop]
      refine .ite ?_ (.refl _)
      refine Proc.Checks.bind (.lift (.addU64 _ _)) fun pos ↦ ?_
      refine (checks_decryptLogicalSector _).bind fun plain ↦ ?_
      refine Proc.Checks.bind (.lift (.addUsize _ _)) fun stop ↦ ?_
      refine Proc.Checks.bind (.lift (.addUsize _ _)) fun stop' ↦ ?_
      refine Proc.Checks.bind (.refl _) fun src ↦ ?_
      exact Proc.Checks.bind (.refl _) fun buf' ↦ ih _ _

theorem checks_readAt (offset : UInt64) (buf : Bytes) :
    Proc.Checks (readAt .debug offset buf : Proc (DecryptedVolume C) _ _)
      (readAt .release offset buf) :=
  checks_readAtLoop offset _ _ 0

theorem checks_read (buf : Bytes) :
    Proc.Checks (read .debug buf : Proc (DecryptedVolume C) _ _) (read .release buf) := by
  intro v
  rw [read, read]
  split
  · exact Or.inr rfl
  · refine Proc.Checks.bind (.refl _) (fun head ↦ ?_) v
    refine (checks_readAt _ _).mapErr.bind fun out ↦ ?_
    exact Proc.Checks.bind (.lift (.addU64 _ _)) fun position ↦ .refl _

/-! ## Runs of calls -/

end DecryptedVolume

def Outcome.Overflows : Outcome → Prop
  | seek out => out = .error (.panic .overflow)
  | read out => out = .error (.panic .overflow)
  | readAt out => out = .error (.panic .overflow)

namespace DecryptedVolume

variable {C : Type} [SectorDecrypt C]

theorem exec_checks (call : Call) (v : DecryptedVolume C) :
    (exec .debug call v).1.Overflows ∨ exec .debug call v = exec .release call v := by
  cases call with
  | seek whence => exact Or.inr rfl
  | read buf =>
      rcases checks_read buf v with ⟨v', hpanic⟩ | heq
      · exact Or.inl (congrArg Prod.fst hpanic)
      · right
        rw [exec, exec, heq]
  | readAt offset buf =>
      rcases checks_readAt offset buf v with ⟨v', hpanic⟩ | heq
      · exact Or.inl (congrArg Prod.fst hpanic)
      · right
        rw [exec, exec, heq]

theorem release_of_debug {v v' : DecryptedVolume C} {l : Call × Outcome}
    (h : Step .debug v l v') (hfits : ¬ l.2.Overflows) : Step .release v l v' := by
  rcases exec_checks l.1 v with hover | heq
  · rw [h] at hover
    exact absurd hover hfits
  · exact heq.symm.trans h

theorem debug_of_release {v v' : DecryptedVolume C} {l : Call × Outcome}
    (h : Step .release v l v') :
    Step .debug v l v' ∨
      ∃ l' v'', Step .debug v l' v'' ∧ l'.1 = l.1 ∧ l'.2.Overflows := by
  rcases exec_checks l.1 v with hover | heq
  · exact Or.inr ⟨(l.1, (exec .debug l.1 v).1), (exec .debug l.1 v).2, rfl, rfl, hover⟩
  · exact Or.inl (heq.trans h)

theorem run_release_of_debug {v v' : DecryptedVolume C} {ls : List (Call × Outcome)}
    (hrun : Lts.Run (Step .debug) v ls v') (hfits : ∀ l ∈ ls, ¬ l.2.Overflows) :
    Lts.Run (Step .release) v ls v' := by
  induction hrun with
  | nil v => exact .nil v
  | cons h _ ih =>
      obtain ⟨hfirst, hrest⟩ := List.forall_mem_cons.mp hfits
      exact .cons (release_of_debug h hfirst) (ih hrest)

end DecryptedVolume

/-- Both builds open the same volumes in the same way, whatever the device does.
On an open volume a checked run that meets no overflow is a wrapping run, and a
wrapping run is a checked one up to the call, if any, over which the checked build
panics. -/
theorem builds_agree :
    (∀ (cred : Credential) (r : Reader), cred.unlock P .debug r = cred.unlock P .release r) ∧
    (∀ (V : VfsCrate) (layer : BitlockerLayer V) (creds : CredentialSource V),
      layer.openWith P .debug creds = layer.openWith P .release creds) ∧
    ∀ (v v' : DecryptedVolume (SectorCipher P)) (ls : List (Call × Outcome)),
      (Lts.Run (DecryptedVolume.Step .debug) v ls v' → (∀ l ∈ ls, ¬ l.2.Overflows) →
        Lts.Run (DecryptedVolume.Step .release) v ls v') ∧
      (Lts.Run (DecryptedVolume.Step .release) v ls v' →
        Lts.Run (DecryptedVolume.Step .debug) v ls v' ∨
          ∃ before l after u l' u', ls = before ++ l :: after ∧
            Lts.Run (DecryptedVolume.Step .debug) v before u ∧
            DecryptedVolume.Step .debug u l' u' ∧ l'.1 = l.1 ∧ l'.2.Overflows) := by
  refine ⟨fun cred r ↦ cred.unlock_profile P .debug .release r,
    fun V layer creds ↦ layer.openWith_profile P .debug .release creds, ?_⟩
  intro v v' ls
  refine ⟨DecryptedVolume.run_release_of_debug, ?_⟩
  have hfollow : ∀ (u : DecryptedVolume (SectorCipher P)) l u',
      DecryptedVolume.Step .release u l u' → DecryptedVolume.Step .debug u l u' ∨
        ∃ l' u'', DecryptedVolume.Step .debug u l' u'' ∧ l'.1 = l.1 ∧ l'.2.Overflows :=
    fun _ _ _ hstep ↦ DecryptedVolume.debug_of_release hstep
  exact fun hrun ↦ hrun.follow hfollow

theorem builds_agree_sample :
    ∃ (v v' : DecryptedVolume (SectorCipher sampleCrates)) (bytes : List UInt8),
      Credential.clearKey.unlock sampleCrates .release (Reader.ofImage (sampleImage 0 0)) = .ok v ∧
      Lts.Run (DecryptedVolume.Step .debug) v
        [(.readAt 1024 (Bytes.ofList [0]), .readAt (.ok bytes))] v' ∧
      Lts.Run (DecryptedVolume.Step .release) v
        [(.readAt 1024 (Bytes.ofList [0]), .readAt (.ok bytes))] v' := by
  have hfree := Reader.errorFree_ofImage (sampleImage 0 0)
  obtain ⟨v, hunlock, hlater, -, hmd, -⟩ := sampleBlock_unlocks .debug 0 0 hfree rfl
  have hfits : ∀ i < (Bytes.ofList [0]).length, Profile.debug = .release ∨
      v.view.metadata.Addressable (sectorStart (1024 + UInt64.ofNat i)) := by
    intro i hi
    obtain rfl : i = 0 := Nat.lt_one_iff.mp hi
    right
    change v.metadata.Addressable _
    rw [hmd, DecryptedVolume.sectorStart_sample, DecryptedVolume.addressable_sample]
    exact fun h ↦ absurd h (by decide)
  obtain ⟨bytes, hbytes⟩ := (VolumeView.exists_bytesFrom_eq_ok (by decide)).mpr hfits
  obtain ⟨r, -, hread⟩ :=
    (DecryptedVolume.yields_readAt .debug 1024 (Bytes.ofList [0]) v).of_errorFree
      (hlater.errorFree hfree)
  rw [hbytes] at hread
  have hstep : DecryptedVolume.Step .debug v (.readAt 1024 (Bytes.ofList [0]), .readAt (.ok bytes))
      { v with reader := r } := by
    rw [DecryptedVolume.Step, DecryptedVolume.exec, hread]
    rfl
  obtain ⟨hopen, -, hruns⟩ := builds_agree sampleCrates
  refine ⟨v, { v with reader := r }, bytes, (hopen .clearKey _).symm.trans hunlock, .single hstep,
    (hruns v _ _).1 (.single hstep) ?_⟩
  intro l hl
  rw [List.mem_singleton.mp hl]
  rintro ⟨⟩

end Bitlocker
