import BitlockerForensic.Core.Calls
import BitlockerForensic.Core.ClearKey

/-!
# Seeking

The target of a seek is an exact integer before it is cast back to 64 bits.
Below zero a seek fails and moves nothing; from `2 ^ 64` on the cast wraps.
-/

namespace Bitlocker

open RustStd

theorem ofInt_natCast (t : ℕ) : UInt64.ofInt (t : ℤ) = UInt64.ofNat t := by
  have hmod : ((t : ℤ) % 2 ^ 64).toNat = t % 2 ^ 64 := by omega
  apply UInt64.toNat_inj.mp
  rw [UInt64.ofInt, hmod, UInt64.toNat_ofNat', UInt64.toNat_ofNat', Nat.mod_mod]

namespace DecryptedVolume

variable {C : Type}

/-- A target in range is returned and becomes the position; any other is an
error that leaves the position. -/
def ExactSeek (v : DecryptedVolume C) (whence : SeekFrom) (out : Res IoError UInt64)
    (v' : DecryptedVolume C) : Prop :=
  if 0 ≤ v.seekTarget whence ∧ v.seekTarget whence < 2 ^ 64 then
    ∃ t : UInt64, (t.toNat : ℤ) = v.seekTarget whence ∧ out = .ok t ∧ v'.position = t
  else (∃ e, out = .error (.err e)) ∧ v'.position = v.position

theorem exactSeek_of_lt {v : DecryptedVolume C} {whence : SeekFrom}
    (hlt : v.seekTarget whence < 2 ^ 64) :
    v.ExactSeek whence (seek whence v).1 (seek whence v).2 := by
  rw [ExactSeek, seek_eq]
  by_cases hneg : v.seekTarget whence < 0
  · rw [if_pos hneg, if_neg (by omega)]
    exact ⟨⟨seekBeforeStart, rfl⟩, rfl⟩
  · rw [if_neg hneg, if_pos ⟨by omega, hlt⟩]
    obtain ⟨t, ht⟩ := Int.eq_ofNat_of_zero_le (Int.not_lt.mp hneg)
    have hnat : (UInt64.ofNat t).toNat = t :=
      UInt64.toNat_ofNat_of_lt (show t < 2 ^ 64 by omega)
    rw [ht, ofInt_natCast]
    exact ⟨UInt64.ofNat t, by rw [hnat], rfl, rfl⟩

theorem lt_of_exactSeek {v : DecryptedVolume C} {whence : SeekFrom}
    (hexact : v.ExactSeek whence (seek whence v).1 (seek whence v).2) :
    v.seekTarget whence < 2 ^ 64 := by
  by_contra hwraps
  rw [ExactSeek, seek_eq, if_neg (fun h ↦ hwraps h.2),
    if_neg (show ¬ v.seekTarget whence < 0 by omega)] at hexact
  obtain ⟨⟨e, he⟩, -⟩ := hexact
  cases he

variable [SectorDecrypt C]

def BoundedStep (p : Profile) (v : DecryptedVolume C) (l : Call × Outcome)
    (v' : DecryptedVolume C) : Prop :=
  Step p v l v' ∧ ∀ whence, l.1 = .seek whence → v.seekTarget whence < 2 ^ 64

def ExactStep (p : Profile) (v : DecryptedVolume C) (l : Call × Outcome)
    (v' : DecryptedVolume C) : Prop :=
  Step p v l v' ∧ ∀ whence out, l = (.seek whence, .seek out) → v.ExactSeek whence out v'

theorem BoundedStep.exact {p : Profile} {v v' : DecryptedVolume C} {l : Call × Outcome}
    (h : BoundedStep p v l v') : ExactStep p v l v' := by
  obtain ⟨hstep, hbound⟩ := h
  refine ⟨hstep, ?_⟩
  intro whence out hl
  subst hl
  cases hstep
  exact exactSeek_of_lt (hbound whence rfl)

/-- A seek is exact or fails without effect if and only if its target is below
`2 ^ 64`; in a run whose seeks all aim below it, every seek is exact. -/
theorem seek_exact_iff (p : Profile) :
    (∀ (v : DecryptedVolume C) (whence : SeekFrom),
      v.ExactSeek whence (seek whence v).1 (seek whence v).2 ↔ v.seekTarget whence < 2 ^ 64) ∧
    ∀ (v v' : DecryptedVolume C) (ls : List (Call × Outcome)),
      Lts.Run (BoundedStep p) v ls v' → Lts.Run (ExactStep p) v ls v' := by
  constructor
  · intro v whence
    exact ⟨lt_of_exactSeek, exactSeek_of_lt⟩
  · intro v v' ls hrun
    apply hrun.mono
    intro u l u' hstep
    exact hstep.exact

/-- From the last 64-bit position one byte forward: the seek succeeds, at
position zero. -/
theorem seek_wraps_to_start :
    ∃ v v' ls, Credential.clearKey.unlock sampleCrates .release
        (Reader.ofImage (sampleImage 0 0)) = .ok v ∧
      Lts.Run (Step .release) v ls v' ∧
      ls.map Prod.fst = [.seek (.start 0xffffffffffffffff)] ∧
      (seek (.current 1) v').1 = .ok 0 ∧ (seek (.current 1) v').2.position = 0 ∧
      ¬ v'.ExactSeek (.current 1) (seek (.current 1) v').1 (seek (.current 1) v').2 := by
  obtain ⟨v, hunlock⟩ := sampleImage_unlocks .release 0 0
    (Reader.errorFree_ofImage (sampleImage 0 0)) rfl
  have hlast : seek (.start 0xffffffffffffffff) v =
      (.ok 0xffffffffffffffff, { v with position := 0xffffffffffffffff }) := by
    rw [seek_eq]
    have hstart : v.seekTarget (.start 0xffffffffffffffff) = (2 ^ 64 - 1 : ℕ) := by
      rfl
    have hcast : UInt64.ofNat (2 ^ 64 - 1) = 0xffffffffffffffff := by
      rfl
    rw [hstart, if_neg (by omega), ofInt_natCast, hcast]
  have hstep : Step .release v
      (.seek (.start 0xffffffffffffffff), .seek (.ok 0xffffffffffffffff))
      { v with position := 0xffffffffffffffff } := by
    rw [Step, exec, hlast]
  have htarget : ({ v with position := 0xffffffffffffffff } :
      DecryptedVolume (SectorCipher sampleCrates)).seekTarget (.current 1) = (2 ^ 64 : ℕ) := by
    have hlast : (0xffffffffffffffff : UInt64).toNat = 2 ^ 64 - 1 := by decide
    have hone : (1 : Int64).toInt = 1 := by decide
    rw [seekTarget, hlast, hone]
    omega
  have hwraps : seek (.current 1) { v with position := 0xffffffffffffffff } =
      (.ok 0, { v with position := 0 }) := by
    have hzero : UInt64.ofNat (2 ^ 64) = 0 := by
      apply UInt64.toNat_inj.mp
      rw [UInt64.toNat_ofNat', Nat.mod_self]
      rfl
    rw [seek_eq, htarget, if_neg (by omega), ofInt_natCast, hzero]
  refine ⟨v, _, _, hunlock, Lts.Run.single hstep, rfl, ?_, ?_, ?_⟩
  · rw [hwraps]
  · rw [hwraps]
  · refine mt lt_of_exactSeek ?_
    rw [htarget]
    omega

end DecryptedVolume

end Bitlocker
