import BitlockerForensic.Core.Calls
import BitlockerForensic.Core.ClearKey
import BitlockerForensic.Core.Vfs

/-!
# The VFS source and the Read + Seek view agree

Each successful `read_at` of a `BitlockerSource`, after whatever calls, returns
what a seek and a read return on a freshly unlocked volume of the same image.
-/

namespace Bitlocker

open RustStd
open RustStd.Reader

def VolumeView.delivered {C : Type} [SectorDecrypt C] (p : Profile) (w : VolumeView C)
    (offset : UInt64) (n : ℕ) (buf : Bytes) : Eval (ℕ × List UInt8) := do
  let bytes ← w.bytesFrom p offset 0 n
  pure (n, bytes ++ buf.toList.drop n)

section Delivered

variable {C : Type} [SectorDecrypt C] {p : Profile} {w : VolumeView C} {offset : UInt64} {n : ℕ}

theorem VolumeView.delivered_of_ok {bytes : List UInt8} (buf : Bytes)
    (h : w.bytesFrom p offset 0 n = .ok bytes) :
    w.delivered p offset n buf = .ok (n, bytes ++ buf.toList.drop n) := by
  rw [delivered, h]
  rfl

theorem VolumeView.delivered_of_error {cause : Panic} (buf : Bytes)
    (h : w.bytesFrom p offset 0 n = .error cause) :
    w.delivered p offset n buf = .error cause := by
  rw [delivered, h]
  rfl

theorem VolumeView.delivered_eq_ok {buf : Bytes} {count : ℕ} {out : List UInt8}
    (h : w.delivered p offset n buf = .ok (count, out)) :
    count = n ∧ ∃ bytes, bytes.length = n ∧ out = bytes ++ buf.toList.drop n := by
  cases hbytes : w.bytesFrom p offset 0 n with
  | error cause =>
      rw [delivered_of_error buf hbytes] at h
      cases h
  | ok bytes =>
      rw [delivered_of_ok buf hbytes] at h
      cases h
      refine ⟨rfl, bytes, ?_, rfl⟩
      rw [bytesFrom_eq_of_ok hbytes, length_plainBytes]

end Delivered

def availableCount (len offset : UInt64) (n : ℕ) : ℕ := min n (len.toNat - offset.toNat)

namespace BitlockerSource

variable {C : Type}

instance : HoldsReader (BitlockerSource C) where
  reader s := s.inner.reader
  withReader s r := { s with inner := { s.inner with reader := r } }
  reader_withReader _ _ := rfl
  withReader_withReader _ _ _ := rfl
  withReader_reader _ := rfl

variable [SectorDecrypt C]

theorem yields_readAt (p : Profile) (offset : UInt64) (buf : Bytes) (s : BitlockerSource C) :
    Yields (fun e ↦ mapBdeErr (.io e)) (readAt p offset buf) s
      (s.inner.view.delivered p offset (availableCount s.len offset buf.length) buf).toRes := by
  by_cases hend : s.len.toNat - offset.toNat = 0
  · have hcount : availableCount s.len offset buf.length = 0 := by
      rw [availableCount, hend, Nat.min_zero]
    refine Yields.of_eq ?_
    simp only [readAt]
    rw [if_pos hend, hcount]
    rfl
  · have hwant : availableCount s.len offset buf.length ≤ buf.length := Nat.min_le_left _ _
    have hget : buf.get 0 (availableCount s.len offset buf.length) =
        some (buf.window 0 (availableCount s.len offset buf.length)) :=
      Bytes.get_eq_some.mpr ⟨Nat.zero_le _, hwant, rfl⟩
    have hlen : (buf.window 0 (availableCount s.len offset buf.length)).length =
        availableCount s.len offset buf.length := by
      rw [Bytes.window_length _ hwant, Nat.sub_zero]
    have hopen : readAt p offset buf s = (do
        let out ← ((DecryptedVolume.readAt p offset
            (buf.window 0 (availableCount s.len offset buf.length))).mapErr mapBdeErr).onField
          (fun s ↦ s.inner) (fun v s ↦ { s with inner := v })
        pure (availableCount s.len offset buf.length,
          out ++ buf.toList.drop (availableCount s.len offset buf.length)) :
            Proc (BitlockerSource C) VfsError (ℕ × List UInt8)) s := by
      simp only [readAt]
      rw [if_neg hend]
      rw [availableCount] at hget
      simp only [hget]
      rfl
    obtain ⟨r, hlater, hok | ⟨e, he, herr⟩⟩ := (DecryptedVolume.yields_readAt p offset
      (buf.window 0 (availableCount s.len offset buf.length)) s.inner).mapErr mapBdeErr
    · refine ⟨r, hlater, Or.inl ?_⟩
      rw [hlen] at hok
      rw [hopen]
      cases hbytes : s.inner.view.bytesFrom p offset 0
          (availableCount s.len offset buf.length) with
      | ok bytes =>
          rw [hbytes] at hok
          rw [VolumeView.delivered_of_ok buf hbytes]
          simp only [Proc.bind_apply, Proc.onField, hok]
          rfl
      | error cause =>
          rw [hbytes] at hok
          rw [VolumeView.delivered_of_error buf hbytes]
          simp only [Proc.bind_apply, Proc.onField, hok]
          rfl
    · refine ⟨r, hlater, Or.inr ⟨e, he, ?_⟩⟩
      simp only [hopen, Proc.bind_apply, Proc.onField, herr]
      rfl

/-! ## Runs of calls -/

structure ReadAt where
  offset : UInt64
  buf : Bytes
  out : Res VfsError (ℕ × List UInt8)

def Step (p : Profile) (s : BitlockerSource C) (l : ReadAt) (s' : BitlockerSource C) : Prop :=
  readAt p l.offset l.buf s = (l.out, s')

/-- The source still wraps the volume it was built from. -/
structure Wraps (v : DecryptedVolume C) (s : BitlockerSource C) : Prop where
  inner : DecryptedVolume.Frame v s.inner
  len : s.len = v.totalSize

theorem Step.delivers {p : Profile} {v : DecryptedVolume C} {s s' : BitlockerSource C}
    {l : ReadAt} (hwraps : Wraps v s) (hstep : Step p s l s') :
    Wraps v s' ∧ ∀ result, l.out = .ok result →
      v.view.delivered p l.offset (availableCount v.totalSize l.offset l.buf.length) l.buf =
        .ok result := by
  have hyields := yields_readAt p l.offset l.buf s
  rw [hwraps.inner.view, hwraps.len] at hyields
  constructor
  · have hframe : ∀ r, Later s.inner.reader r →
        Wraps v (HoldsReader.withReader s r : BitlockerSource C) := by
      intro r hlater
      exact ⟨hwraps.inner.trans ⟨hlater, rfl, rfl, rfl⟩, hwraps.len⟩
    obtain ⟨r, hlater, hok | ⟨e, -, herr⟩⟩ := hyields
    · have hstate : s' = HoldsReader.withReader s r := congrArg Prod.snd (hstep.symm.trans hok)
      rw [hstate]
      exact hframe r hlater
    · have hstate : s' = HoldsReader.withReader s r := congrArg Prod.snd (hstep.symm.trans herr)
      rw [hstate]
      exact hframe r hlater
  · intro result hresult
    rw [Step, hresult] at hstep
    exact Eval.toRes_eq_ok.mp (hyields.of_ok hstep).1

end BitlockerSource

/-! ## The same read on a fresh volume -/

namespace DecryptedVolume

variable {C : Type} [SectorDecrypt C]

omit [SectorDecrypt C] in
theorem seek_start (offset : UInt64) (v : DecryptedVolume C) :
    seek (.start offset) v = (.ok offset, { v with position := offset }) := by
  have htarget : v.seekTarget (.start offset) = (offset.toNat : ℤ) := rfl
  have hmod : (offset.toNat : ℤ) % 2 ^ 64 = offset.toNat := by
    have := offset.toNat_lt
    omega
  rw [seek_eq, htarget, if_neg (by omega), UInt64.ofInt, hmod, Int.toNat_natCast,
    UInt64.ofNat_toNat]

theorem read_of_errorFree (p : Profile) (offset : UInt64) (buf : Bytes) {v : DecryptedVolume C}
    (hfree : v.reader.ErrorFree) :
    (read p buf { v with position := offset }).1 =
      (v.view.delivered p offset (availableCount v.totalSize offset buf.length) buf).toRes := by
  by_cases hpos : offset < v.totalSize
  · obtain ⟨r, -, ⟨bytes, hbytes, hread⟩ | ⟨cause, hbytes, hread⟩ | ⟨e, he, -⟩⟩ :=
      read_cases p buf { v with position := offset } hpos
    · rw [hread]
      exact (congrArg Eval.toRes (VolumeView.delivered_of_ok buf hbytes)).symm
    · rw [hread]
      exact (congrArg Eval.toRes (VolumeView.delivered_of_error buf hbytes)).symm
    · exact absurd he (hfree e)
  · have hcount : availableCount v.totalSize offset buf.length = 0 := by
      have hle := UInt64.le_iff_toNat_le.mp (UInt64.not_lt.mp hpos)
      rw [availableCount, Nat.sub_eq_zero_of_le hle, Nat.min_zero]
    have hend : read p buf { v with position := offset } =
        (.ok (0, buf.toList), { v with position := offset }) :=
      read_at_end p buf (UInt64.not_lt.mp hpos)
    rw [hend, hcount]
    rfl

end DecryptedVolume

/-- Every successful `read_at` of a source, after any calls on the volume and on
the source, failing ones included, returns what a seek and a read return on a
freshly unlocked volume. -/
theorem source_reads_like_fresh_volume (P : Crates) {p : Profile} {cred : Credential}
    {r : Reader} {v u : DecryptedVolume (SectorCipher P)} {calls : List (Call × Outcome)}
    {s : BitlockerSource (SectorCipher P)} {ls : List BitlockerSource.ReadAt}
    (hunlock : cred.unlock P p r = .ok v) (hcalls : Lts.Run (DecryptedVolume.Step p) v calls u)
    (hrun : Lts.Run (BitlockerSource.Step p) (BitlockerSource.new u) ls s) :
    ∀ l ∈ ls, ∀ count out, l.out = .ok (count, out) →
      count = (if v.totalSize ≤ l.offset then 0
        else min l.buf.length (v.totalSize.toNat - l.offset.toNat)) ∧
      out.length = l.buf.length ∧ out.drop count = l.buf.toList.drop count ∧
      ∀ fresh : Reader, fresh.ErrorFree → fresh.image = r.image →
        ∃ v₁ v₂, cred.unlock P p fresh = .ok v₁ ∧
          DecryptedVolume.seek (.start l.offset) v₁ = (.ok l.offset, v₂) ∧
          (DecryptedVolume.read p l.buf v₂).1 = .ok (count, out) := by
  have hframe := DecryptedVolume.Run.frame hcalls
  have hstart : BitlockerSource.Wraps v (BitlockerSource.new u) := ⟨hframe, hframe.totalSize⟩
  have hdelivers := hrun.forall_labels (fun _ _ _ ↦ BitlockerSource.Step.delivers) hstart
  intro l hl count out hout
  have hview := hdelivers l hl (count, out) hout
  obtain ⟨hcount, bytes, hlength, hsplit⟩ := VolumeView.delivered_eq_ok hview
  have havailable : availableCount v.totalSize l.offset l.buf.length ≤ l.buf.length :=
    Nat.min_le_left _ _
  refine ⟨?_, ?_, ?_, ?_⟩
  · rw [hcount, availableCount]
    split
    · rename_i hend
      have := UInt64.le_iff_toNat_le.mp hend
      omega
    · rfl
  · rw [hsplit, List.length_append, List.length_drop, hlength]
    rw [Bytes.length] at havailable ⊢
    omega
  · rw [hsplit, hcount, List.drop_append_of_le_length (le_of_eq hlength.symm),
      List.drop_eq_nil_of_le (le_of_eq hlength), List.nil_append]
  · intro fresh hfree himage
    obtain ⟨v₁, hagain, hlater, hmd, hcipher, hsize⟩ :=
      Credential.unlock_again P hunlock hfree himage
    refine ⟨v₁, _, hagain, DecryptedVolume.seek_start l.offset v₁, ?_⟩
    have hsame : v₁.view = v.view := by
      obtain ⟨unwrap, -, hopened⟩ := Credential.opened P hunlock
      have himage₁ : v₁.reader.image = v.reader.image := by
        rw [hlater.image, himage, hopened.later.image]
      exact DecryptedVolume.view_eq himage₁ hcipher hmd
    rw [DecryptedVolume.read_of_errorFree p l.offset l.buf (hlater.errorFree hfree), hsame, hsize,
      hview]
    rfl

theorem source_reads_like_fresh_volume_sample :
    ∃ v s out out', Credential.clearKey.unlock sampleCrates .release
        (Reader.ofImage (sampleImage 0 0)) = .ok v ∧
      Lts.Run (BitlockerSource.Step .release) (BitlockerSource.new v)
        [⟨4000, Bytes.ofList [7], out⟩, ⟨1535, Bytes.ofList [7, 7], .ok out'⟩] s ∧
      out'.1 = 1 ∧ out'.2.drop 1 = [7] ∧
      ∃ v₁ v₂ : DecryptedVolume (SectorCipher sampleCrates),
        DecryptedVolume.seek (.start 1535) v₁ = (.ok 1535, v₂) ∧
        (DecryptedVolume.read .release (Bytes.ofList [7, 7]) v₂).1 = .ok out' := by
  have hfree := Reader.errorFree_ofImage (sampleImage 0 0)
  obtain ⟨v, hv⟩ := sampleImage_unlocks .release 0 0 hfree rfl
  obtain ⟨unwrap, -, hopened⟩ := Credential.opened sampleCrates hv
  have hsize : v.totalSize.toNat = 1536 := hopened.totalSize.trans (length_sampleImage 0 0)
  -- The first call finds nothing and leaves the source as it was.
  have hpast : BitlockerSource.readAt .release 4000 (Bytes.ofList [7]) (BitlockerSource.new v) =
      (.ok (0, [7]), BitlockerSource.new v) := by
    rw [BitlockerSource.readAt]
    exact if_pos (show v.totalSize.toNat - (4000 : UInt64).toNat = 0 by rw [hsize]; rfl)
  obtain ⟨r, -, hread⟩ := (BitlockerSource.yields_readAt .release 1535 (Bytes.ofList [7, 7])
    (BitlockerSource.new v)).of_errorFree (hopened.later.errorFree hfree)
  rw [VolumeView.delivered_of_ok _ (VolumeView.bytesFrom_release ..)] at hread
  have hrun := Lts.Run.cons (show BitlockerSource.Step .release (BitlockerSource.new v)
    ⟨4000, Bytes.ofList [7], _⟩ _ from hpast) (Lts.Run.single (show BitlockerSource.Step .release
      (BitlockerSource.new v) ⟨1535, Bytes.ofList [7, 7], _⟩ _ from hread))
  obtain ⟨hcount, -, hrest, hfresh⟩ := source_reads_like_fresh_volume sampleCrates hv
    (Lts.Run.nil v) hrun _ (List.mem_cons_of_mem _ List.mem_cons_self) _ _ rfl
  have hone : (if v.totalSize ≤ 1535 then 0
      else min (Bytes.ofList [7, 7]).length (v.totalSize.toNat - (1535 : UInt64).toNat)) = 1 := by
    rw [if_neg (by rw [UInt64.le_iff_toNat_le, hsize]; decide), hsize]
    rfl
  obtain ⟨v₁, v₂, -, hseek, hagain⟩ := hfresh _ hfree rfl
  have huntouched : ∀ (count : ℕ) (out : List UInt8), count = 1 →
      out.drop count = (Bytes.ofList [7, 7]).toList.drop count → out.drop 1 = [7] := by
    rintro _ _ rfl h
    exact h
  exact ⟨v, _, _, _, hv, hrun, hcount.trans hone, huntouched _ _ (hcount.trans hone) hrest,
    v₁, v₂, hseek, hagain⟩

end Bitlocker
