import BitlockerForensic.Core.Calls
import BitlockerForensic.Core.Keyring

/-!
# One volume for all credentials

Which credential opened a volume cannot be seen from it.  Over devices without
errors two volumes of one view answer every sequence of calls alike, and two
credentials for one image lead to one view, unless the stored FVEK opens under
two different VMKs.
-/

namespace Bitlocker

open RustStd
open RustStd.Reader

namespace DecryptedVolume

variable {C : Type}

/-! ## Volumes that answer alike -/

/-- Two volumes with the same view, size and position, whatever their devices have
done so far and however they deliver their bytes. -/
structure Alike (v u : DecryptedVolume C) : Prop where
  view : u.view = v.view
  totalSize : u.totalSize = v.totalSize
  position : u.position = v.position
  errorFree : v.reader.ErrorFree
  errorFree' : u.reader.ErrorFree

theorem Alike.symm {v u : DecryptedVolume C} (h : Alike v u) : Alike u v :=
  ⟨h.view.symm, h.totalSize.symm, h.position.symm, h.errorFree', h.errorFree⟩

theorem Alike.seekTarget_eq {v u : DecryptedVolume C} (h : Alike v u) (whence : SeekFrom) :
    u.seekTarget whence = v.seekTarget whence := by
  cases whence with
  | start o => rfl
  | fromEnd o => rw [seekTarget, seekTarget, h.totalSize]
  | current o => rw [seekTarget, seekTarget, h.position]

variable [SectorDecrypt C]

/-- A `read` before the end, where the device reports no errors. -/
theorem read_of_bytesFrom (p : Profile) (buf : Bytes) {v : DecryptedVolume C}
    (hfree : v.reader.ErrorFree) (hpos : v.position < v.totalSize) :
    ∃ r, read p buf v =
      match v.view.bytesFrom p v.position 0 (v.readCount buf.length) with
      | .ok bytes =>
          (.ok (v.readCount buf.length, bytes ++ buf.toList.drop (v.readCount buf.length)),
            { v with
              reader := r
              position := v.position + UInt64.ofNat (v.readCount buf.length) })
      | .error cause => (.error (.panic cause), { v with reader := r }) := by
  obtain ⟨r, -, ⟨bytes, hbytes, hread⟩ | ⟨cause, hbytes, hread⟩ | ⟨e, he, -⟩⟩ :=
    read_cases p buf v hpos
  · exact ⟨r, by rw [hbytes, hread]⟩
  · exact ⟨r, by rw [hbytes, hread]⟩
  · exact absurd he (hfree e)

theorem Alike.exec_eq {v u : DecryptedVolume C} (h : Alike v u) (p : Profile) (call : Call) :
    (exec p call u).1 = (exec p call v).1 ∧
      (exec p call u).2.position = (exec p call v).2.position := by
  cases call with
  | seek whence =>
      simp only [exec, seek_eq, h.seekTarget_eq]
      by_cases hneg : v.seekTarget whence < 0
      · simp only [if_pos hneg, h.position, and_self]
      · simp only [if_neg hneg, and_self]
  | read buf =>
      simp only [exec]
      by_cases hpos : v.position < v.totalSize
      · have hpos' : u.position < u.totalSize := by rwa [h.position, h.totalSize]
        have hcount : u.readCount buf.length = v.readCount buf.length := by
          rw [readCount, readCount, h.totalSize, h.position]
        obtain ⟨r, hread⟩ := read_of_bytesFrom p buf h.errorFree hpos
        obtain ⟨r', hread'⟩ := read_of_bytesFrom p buf h.errorFree' hpos'
        rw [h.view, h.position, hcount] at hread'
        rw [hread, hread']
        cases v.view.bytesFrom p v.position 0 (v.readCount buf.length) with
        | ok bytes => exact ⟨rfl, rfl⟩
        | error cause => exact ⟨rfl, rfl⟩
      · have hend := UInt64.not_lt.mp hpos
        rw [read_at_end p buf hend, read_at_end p buf (by rwa [h.position, h.totalSize])]
        exact ⟨rfl, h.position⟩
  | readAt offset buf =>
      obtain ⟨r, -, hread⟩ := (yields_readAt p offset buf v).of_errorFree h.errorFree
      obtain ⟨r', -, hread'⟩ := (yields_readAt p offset buf u).of_errorFree h.errorFree'
      simp only [exec, hread, hread', h.view, true_and]
      exact h.position

theorem Alike.step {v u v' : DecryptedVolume C} (h : Alike v u) {p : Profile}
    {l : Call × Outcome} (hstep : Step p v l v') : ∃ u', Step p u l u' ∧ Alike v' u' := by
  obtain ⟨hout, hposition⟩ := h.exec_eq p l.1
  have hframe := frame_exec p l.1 u
  have hframe' := hstep.frame
  rw [hstep] at hout hposition
  refine ⟨(exec p l.1 u).2, Prod.ext hout rfl, ?_, ?_, hposition, ?_, ?_⟩
  · rw [hframe.view, hframe'.view, h.view]
  · rw [hframe.totalSize, hframe'.totalSize, h.totalSize]
  · exact hframe'.reader.errorFree h.errorFree
  · exact hframe.reader.errorFree h.errorFree'

theorem Alike.run {v u : DecryptedVolume C} (h : Alike v u) {p : Profile}
    {ls : List (Call × Outcome)} (hrun : ∃ v', Lts.Run (Step p) v ls v') :
    ∃ u', Lts.Run (Step p) u ls u' := by
  obtain ⟨v', hrun⟩ := hrun
  obtain ⟨u', hrun', -⟩ := hrun.simulate (fun _ _ _ _ hrel hstep ↦ hrel.step hstep) h
  exact ⟨u', hrun'⟩

end DecryptedVolume

/-! ## Two credentials -/

variable (P : Crates)

/-- The VMK that a credential unwraps from the protector of its type. -/
def Unwraps (p : Profile) (cred : Credential) (md : FveMetadata) (vmk : Octets 32) : Prop :=
  ∃ unwrap entry, cred.unwrap P p = .ok unwrap ∧ vmkFor md cred.protectorType = some entry ∧
    vmkOf P entry unwrap = .ok vmk

/-- The keys that a credential opened a volume with. -/
theorem unwraps_of_unlock {p : Profile} {r : Reader} {cred : Credential}
    {v : DecryptedVolume (SectorCipher P)} (h : cred.unlock P p r = .ok v) :
    ∃ vmk fvek container kind, Unwraps P p cred v.metadata vmk ∧
      v.metadata.fvekEntry = some fvek ∧ ccmOpen P vmk fvek.data = some container ∧
      gatedKind v.metadata.encryptionMethod = some kind ∧
      v.cipher = ⟨keyedTransform container kind⟩ := by
  obtain ⟨unwrap, hunwrap, hopened⟩ := Credential.opened P h
  obtain ⟨kind, hkind, hderive⟩ := hopened.kind
  obtain ⟨entry, vmk, container, hentry, hvmk, hcontainer, -, hcipher⟩ :=
    (deriveCipher_eq_ok P).mp hderive
  obtain ⟨fvek, hfvek, hopen⟩ := (fvekContainer_eq_ok P).mp hcontainer
  exact ⟨vmk, fvek, container, kind, ⟨unwrap, entry, hunwrap, hentry, hvmk⟩, hfvek, hopen, hkind,
    hcipher⟩

theorem metadata_of_unlocks {p p' : Profile} {r r' : Reader} (himage : r'.image = r.image)
    {cred cred' : Credential} {v v' : DecryptedVolume (SectorCipher P)}
    (h : cred.unlock P p r = .ok v) (h' : cred'.unlock P p' r' = .ok v') :
    v'.metadata = v.metadata := by
  obtain ⟨unwrap, -, hopened⟩ := Credential.opened P h
  obtain ⟨unwrap', -, hopened'⟩ := Credential.opened P h'
  have hmd := hopened'.metadata
  rw [himage, hopened.metadata] at hmd
  exact (Except.ok.inj hmd).symm

/-- Two credentials of any kinds that open one image, in either build and through any
two devices without errors, open one volume: every sequence of calls has the same
outcomes on both.  Otherwise the credentials unwrap different VMKs, under both of
which the tag of the stored FVEK verifies. -/
theorem credentials_open_one_volume {p p' : Profile} {r r' : Reader} (hfree : r.ErrorFree)
    (hfree' : r'.ErrorFree) (himage : r'.image = r.image) {cred cred' : Credential}
    {v v' : DecryptedVolume (SectorCipher P)} (h : cred.unlock P p r = .ok v)
    (h' : cred'.unlock P p' r' = .ok v') :
    (∀ (q : Profile) (ls : List (Call × Outcome)),
      (∃ u, Lts.Run (DecryptedVolume.Step q) v ls u) ↔
        ∃ u', Lts.Run (DecryptedVolume.Step q) v' ls u') ∨
    ∃ vmk vmk' fvek, Unwraps P p cred v.metadata vmk ∧ Unwraps P p' cred' v.metadata vmk' ∧
      vmk ≠ vmk' ∧ v.metadata.fvekEntry = some fvek ∧ (ccmOpen P vmk fvek.data).isSome ∧
      (ccmOpen P vmk' fvek.data).isSome := by
  obtain ⟨unwrap, -, hopened⟩ := Credential.opened P h
  obtain ⟨unwrap', -, hopened'⟩ := Credential.opened P h'
  have hmd := metadata_of_unlocks P himage h h'
  obtain ⟨vmk, fvek, container, kind, hvmk, hfvek, hopen, hkind, hcipher⟩ := unwraps_of_unlock P h
  obtain ⟨vmk', fvek', container', kind', hvmk', hfvek', hopen', hkind', hcipher'⟩ :=
    unwraps_of_unlock P h'
  rw [hmd] at hvmk' hfvek' hkind'
  obtain rfl : fvek = fvek' := Option.some.inj (hfvek.symm.trans hfvek')
  obtain rfl : kind = kind' := Option.some.inj (hkind.symm.trans hkind')
  by_cases hsame : vmk = vmk'
  · subst hsame
    obtain rfl : container = container' := Option.some.inj (hopen.symm.trans hopen')
    have hview : v'.view = v.view := by
      rw [DecryptedVolume.view_eq (hopened'.later.image.trans himage) hcipher' hmd,
        DecryptedVolume.view_eq hopened.later.image hcipher rfl]
    have hsize : v'.totalSize = v.totalSize := by
      apply UInt64.toNat_inj.mp
      rw [hopened'.totalSize, hopened.totalSize, himage]
    have halike : DecryptedVolume.Alike v v' :=
      ⟨hview, hsize, hopened'.position.trans hopened.position.symm,
        hopened.later.errorFree hfree, hopened'.later.errorFree hfree'⟩
    exact Or.inl fun q ls ↦ ⟨halike.run, halike.symm.run⟩
  · refine Or.inr ⟨vmk, vmk', fvek, hvmk, hvmk', hsame, hfvek, ?_, ?_⟩
    · rw [hopen]
      rfl
    · rw [hopen']
      rfl

/-- A credential unwraps the VMK that it is protected for. -/
theorem Protects.eq_of_unwraps {p : Profile} (ccm : CcmLaws P) {cred : Credential}
    {vmk vmk' : Octets 32} {e : MetadataEntry} {md : FveMetadata} (h : Protects P cred vmk e)
    (hfirst : vmkFor md cred.protectorType = some e) (hunwraps : Unwraps P p cred md vmk') :
    vmk' = vmk := by
  obtain ⟨unwrap, hunwrap, hvmk⟩ := h.vmkOf_eq p ccm
  obtain ⟨unwrap', entry, hunwrap', hentry, hvmk'⟩ := hunwraps
  cases hunwrap.symm.trans hunwrap'
  cases hfirst.symm.trans hentry
  exact Except.ok.inj (hvmk'.symm.trans hvmk)

/-- The password and the startup key of the keyring open one volume, in two builds. -/
theorem credentials_open_sample :
    ∃ v v' : DecryptedVolume (SectorCipher sampleCrates),
      (Credential.password samplePassword).unlock sampleCrates .debug (Reader.ofImage cbcImage) =
        .ok v ∧
      (Credential.startupKey (bekFile (zeros 48) sampleClearKey)).unlock sampleCrates .release
          (Reader.ofImage cbcImage) = .ok v' ∧
      ∀ (q : Profile) (ls : List (Call × Outcome)),
        (∃ u, Lts.Run (DecryptedVolume.Step q) v ls u) ↔
          ∃ u', Lts.Run (DecryptedVolume.Step q) v' ls u' := by
  have hfree := Reader.errorFree_ofImage cbcImage
  have hpassword := InKeyring.password
  have hstartup := InKeyring.startup (zeros 48)
  obtain ⟨v, hv, -, -, hmd, -⟩ := SampleVolumeKey.unlocks hpassword .debug hfree rfl
  obtain ⟨v', hv', -⟩ := SampleVolumeKey.unlocks hstartup .release hfree rfl
  refine ⟨v, v', hv, hv', ?_⟩
  rcases credentials_open_one_volume sampleCrates hfree hfree rfl hv hv' with
    halike | ⟨vmk, vmk', -, hunwraps, hunwraps', hne, -⟩
  · exact halike
  · rw [hmd] at hunwraps hunwraps'
    have hsame := hpassword.protects.eq_of_unwraps sampleCrates sampleCcmLaws
      (SampleVolumeKey.vmkFor_block hpassword) hunwraps
    have hsame' := hstartup.protects.eq_of_unwraps sampleCrates sampleCcmLaws
      (SampleVolumeKey.vmkFor_block hstartup) hunwraps'
    exact absurd (hsame.trans hsame'.symm) hne

end Bitlocker
