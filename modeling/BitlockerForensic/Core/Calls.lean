import BitlockerForensic.Std.Lts
import BitlockerForensic.Core.Unlock
import BitlockerForensic.Core.View

/-!
# Call sequences on an unlocked volume

The calls a client can make on a `DecryptedVolume`, as labelled transitions.
Whatever a call returns, it leaves the metadata, the cipher, the size and the
image as they were; once unlocked, a volume stays the volume that was unlocked.
-/

namespace Bitlocker

open RustStd
open RustStd.Reader

inductive Call where
  | seek (whence : SeekFrom)
  | read (buf : Bytes)
  | readAt (offset : UInt64) (buf : Bytes)

inductive Outcome where
  | seek (out : Res IoError UInt64)
  | read (out : Res IoError (ℕ × List UInt8))
  | readAt (out : Res BdeError (List UInt8))

namespace DecryptedVolume

variable {C : Type}

/-! ## The frame of a call -/

/-- Everything but the position is as it was, up to a later reader. -/
structure Frame (v v' : DecryptedVolume C) : Prop where
  reader : Later v.reader v'.reader
  cipher : v'.cipher = v.cipher
  metadata : v'.metadata = v.metadata
  totalSize : v'.totalSize = v.totalSize

theorem Frame.refl (v : DecryptedVolume C) : Frame v v := ⟨Later.refl _, rfl, rfl, rfl⟩

theorem Frame.trans {v v' v'' : DecryptedVolume C} (h : Frame v v') (h' : Frame v' v'') :
    Frame v v'' :=
  ⟨h.reader.trans h'.reader, h'.cipher.trans h.cipher, h'.metadata.trans h.metadata,
    h'.totalSize.trans h.totalSize⟩

theorem Frame.view {v v' : DecryptedVolume C} (h : Frame v v') : v'.view = v.view :=
  view_eq h.reader.image h.cipher h.metadata

theorem frame_of_yields {ε α : Type} {wrap : IoError → ε} {x : Proc (DecryptedVolume C) ε α}
    {v : DecryptedVolume C} {out : Res ε α} (h : Yields wrap x v out) : Frame v (x v).2 := by
  obtain ⟨r, hlater, hok | ⟨e, -, herr⟩⟩ := h
  · rw [hok]
    exact ⟨hlater, rfl, rfl, rfl⟩
  · rw [herr]
    exact ⟨hlater, rfl, rfl, rfl⟩

def seekTarget (v : DecryptedVolume C) : SeekFrom → ℤ
  | .start o => o.toNat
  | .fromEnd o => v.totalSize.toNat + o.toInt
  | .current o => v.position.toNat + o.toInt

theorem seek_eq (whence : SeekFrom) (v : DecryptedVolume C) :
    seek whence v =
      if v.seekTarget whence < 0 then (.error (.err seekBeforeStart), v)
      else (.ok (UInt64.ofInt (v.seekTarget whence)),
        { v with position := UInt64.ofInt (v.seekTarget whence) }) := by
  cases whence <;> rfl

variable [SectorDecrypt C]

def readCount (v : DecryptedVolume C) (len : ℕ) : ℕ :=
  min len (v.totalSize.toNat - v.position.toNat)

/-- Before the end a `read` delivers the bytes of the view and advances past
them; otherwise nothing but the reader has moved. -/
theorem read_cases (p : Profile) (buf : Bytes) (v : DecryptedVolume C)
    (hpos : v.position < v.totalSize) :
    ∃ r, Later v.reader r ∧
      ((∃ bytes, v.view.bytesFrom p v.position 0 (v.readCount buf.length) = .ok bytes ∧
          read p buf v =
            (.ok (v.readCount buf.length, bytes ++ buf.toList.drop (v.readCount buf.length)),
              { v with
                reader := r
                position := v.position + UInt64.ofNat (v.readCount buf.length) })) ∨
        (∃ cause, v.view.bytesFrom p v.position 0 (v.readCount buf.length) = .error cause ∧
          read p buf v = (.error (.panic cause), { v with reader := r })) ∨
        ∃ e, v.reader.Reports e ∧
          read p buf v =
            (.error (.err ⟨.other, (BdeError.io e).display⟩), { v with reader := r })) := by
  have hlt : v.position.toNat < v.totalSize.toNat := UInt64.lt_iff_toNat_lt.mp hpos
  have hsize := v.totalSize.toNat_lt
  have hbuf := buf.length_lt
  have hremaining : (v.totalSize - v.position).toNat = v.totalSize.toNat - v.position.toNat :=
    UInt64.toNat_sub_of_le _ _ (UInt64.le_iff_toNat_le.mpr (le_of_lt hlt))
  have hcount : v.readCount buf.length ≤ buf.length := Nat.min_le_left _ _
  have hadvance : v.position.toNat + v.readCount buf.length ≤ v.totalSize.toNat := by
    unfold readCount
    omega
  have hwindow : (buf.window 0 (v.readCount buf.length)).length = v.readCount buf.length := by
    rw [Bytes.window_length _ hcount, Nat.sub_zero]
  have hfield : (UInt64.ofNat (v.readCount buf.length)).toNat = v.readCount buf.length :=
    UInt64.toNat_ofNat_of_lt (show v.readCount buf.length < 2 ^ 64 by omega)
  have hsum : p.addU64 v.position (UInt64.ofNat (v.readCount buf.length)) =
      .ok (v.position + UInt64.ofNat (v.readCount buf.length)) :=
    p.addU64_ok (by omega)
  have hopen : read p buf v = (do
      let out ← (readAt p v.position (buf.window 0 (v.readCount buf.length))).mapErr
        fun e ↦ ⟨.other, e.display⟩
      let position ← p.addU64 v.position (UInt64.ofNat (v.readCount buf.length))
      Proc.modify fun v ↦ { v with position := position }
      pure (v.readCount buf.length, out ++ buf.toList.drop (v.readCount buf.length)) :
        Proc (DecryptedVolume C) IoError (ℕ × List UInt8)) v := by
    rw [read, if_neg (UInt64.not_le.mpr hpos)]
    simp only [hremaining]
    exact Proc.bind_of_ok (congrArg (fun out ↦ (Eval.toRes out, v))
      (Bytes.slice_ok (Nat.zero_le _) hcount)) _
  obtain ⟨r, hlater, hok | ⟨e, he, herr⟩⟩ := (yields_readAt p v.position
    (buf.window 0 (v.readCount buf.length)) v).mapErr fun e ↦ (⟨.other, e.display⟩ : IoError)
  · refine ⟨r, hlater, ?_⟩
    rw [hwindow] at hok
    cases hbytes : v.view.bytesFrom p v.position 0 (v.readCount buf.length) with
    | ok bytes =>
        rw [hbytes] at hok
        refine Or.inl ⟨bytes, rfl, ?_⟩
        rw [hopen, Proc.bind_of_ok hok, hsum]
        rfl
    | error cause =>
        rw [hbytes] at hok
        refine Or.inr (Or.inl ⟨cause, rfl, ?_⟩)
        rw [hopen, Proc.bind_of_error hok]
        rfl
  · refine ⟨r, hlater, Or.inr (Or.inr ⟨e, he, ?_⟩)⟩
    rw [hopen, Proc.bind_of_error herr]
    rfl

theorem read_at_end (p : Profile) (buf : Bytes) {v : DecryptedVolume C}
    (hpos : v.totalSize ≤ v.position) : read p buf v = (.ok (0, buf.toList), v) := by
  rw [read, if_pos hpos]

/-! ## Transitions -/

def exec (p : Profile) : Call → DecryptedVolume C → Outcome × DecryptedVolume C
  | .seek whence, v => (.seek (seek whence v).1, (seek whence v).2)
  | .read buf, v => (.read (read p buf v).1, (read p buf v).2)
  | .readAt offset buf, v => (.readAt (readAt p offset buf v).1, (readAt p offset buf v).2)

def Step (p : Profile) (v : DecryptedVolume C) (l : Call × Outcome) (v' : DecryptedVolume C) :
    Prop :=
  exec p l.1 v = (l.2, v')

theorem frame_exec (p : Profile) (call : Call) (v : DecryptedVolume C) :
    Frame v (exec p call v).2 := by
  cases call with
  | seek whence =>
      rw [exec, seek_eq]
      split
      · exact Frame.refl v
      · exact ⟨Later.refl _, rfl, rfl, rfl⟩
  | read buf =>
      rw [exec]
      by_cases hpos : v.position < v.totalSize
      · obtain ⟨r, hlater, ⟨bytes, -, hread⟩ | ⟨cause, -, hread⟩ | ⟨e, -, hread⟩⟩ :=
          read_cases p buf v hpos
        all_goals
          rw [hread]
          exact ⟨hlater, rfl, rfl, rfl⟩
      · rw [read_at_end p buf (UInt64.not_lt.mp hpos)]
        exact Frame.refl v
  | readAt offset buf => exact frame_of_yields (yields_readAt p offset buf v)

theorem Step.frame {p : Profile} {v v' : DecryptedVolume C} {l : Call × Outcome}
    (h : Step p v l v') : Frame v v' := by
  have hexec := frame_exec p l.1 v
  rw [h] at hexec
  exact hexec

theorem Run.frame {p : Profile} {v v' : DecryptedVolume C} {ls : List (Call × Outcome)}
    (h : Lts.Run (Step p) v ls v') : Frame v v' := by
  have hstep : ∀ u l u', Frame v u → Step p u l u' → Frame v u' :=
    fun _ _ _ hframe hstep ↦ hframe.trans hstep.frame
  exact h.invariant hstep (Frame.refl v)

end DecryptedVolume

end Bitlocker
