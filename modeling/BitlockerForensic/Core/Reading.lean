import BitlockerForensic.Std.Device
import BitlockerForensic.Core.Parsing
import BitlockerForensic.Core.Volume

/-!
# What the volume reads from its image

`read_available` and `read_metadata` as functions of the image alone: however
the device cuts its reads, they yield what the image holds, or an error the
device reports.
-/

namespace Bitlocker

open RustStd
open RustStd.Reader

/-! ## Reading into a buffer -/

def padded (len : ℕ) (got : List UInt8) : ℕ × List UInt8 :=
  (got.length, got ++ List.replicate (len - got.length) 0)

theorem length_of_read {n : ℕ} {r r' : Reader} {chunk : List UInt8}
    (h : Reader.read n r = (.ok chunk, r')) : chunk.length ≤ n := by
  unfold Reader.read at h
  split at h
  · exact length_deliver r n [] h
  · rename_i limit reads _
    exact (length_deliver r _ reads h).trans (Nat.min_le_left _ _)
  · cases h

/-- `read_available` runs in step with the abstract fill of a buffer. -/
theorem readAvailableLoop_eq_fill (p : Profile) (fuel : ℕ) (buf : List UInt8) (filled : ℕ)
    (r : Reader) (hfilled : filled ≤ buf.length) (hlen : buf.length < 2 ^ 64) :
    readAvailableLoop p fuel buf filled r =
      match fill fuel (buf.length - filled) (buf.take filled) r with
      | (.ok got, r') => (.ok (padded buf.length got), r')
      | (.error (.err e), r') => (.error (.err (.io e)), r')
      | (.error (.panic cause), r') => (.error (.panic cause), r') := by
  induction fuel generalizing buf filled r with
  | zero => rfl
  | succ fuel ih =>
      have hfinish : padded buf.length (buf.take filled) =
          (filled, buf.take filled ++ List.replicate (buf.length - filled) 0) := by
        rw [padded, List.length_take, Nat.min_eq_left hfilled]
      have hslice : RustStd.slice buf filled buf.length = .ok (buf.drop filled) := by
        rw [slice_ok hfilled (le_refl _), List.take_length]
      by_cases hmore : filled < buf.length
      · have hdrop : (buf.drop filled).length = buf.length - filled := List.length_drop
        simp only [readAvailableLoop, if_pos hmore, Proc.bind_apply, Proc.lift_eval_apply, hslice,
          Eval.toRes_ok, Proc.attempt, hdrop, fill, if_neg (by omega : ¬ buf.length - filled = 0)]
        rcases hread : Reader.read (buf.length - filled) r with ⟨(e | cause) | chunk, r'⟩
        · by_cases hkind : e.kind = .interrupted
          · simp only [hkind, if_true]
            exact ih buf filled r' hfilled hlen
          · simp only [hkind, if_false]
            rfl
        · rfl
        · cases chunk with
          | nil =>
              simp only [Proc.bind_apply, Proc.lift_eval_apply, Eval.toRes_ok, Proc.pure_apply,
                hfinish, hdrop]
          | cons b bs =>
              have hchunk := length_of_read hread
              have hcopy : copyInto buf filled (filled + (b :: bs).length) (b :: bs) =
                  .ok (buf.take filled ++ (b :: bs) ++ buf.drop (filled + (b :: bs).length)) :=
                copyInto_ok (by omega) (by omega) (by omega)
              have hhead : (buf.take filled ++ (b :: bs)).length = filled + (b :: bs).length := by
                rw [List.length_append, List.length_take, Nat.min_eq_left hfilled]
              have hbuf : (buf.take filled ++ (b :: bs) ++
                  buf.drop (filled + (b :: bs).length)).length = buf.length := by
                rw [List.length_append, hhead, List.length_drop]
                omega
              simp only [Proc.bind_apply, Proc.lift_eval_apply, hcopy, Eval.toRes_ok,
                p.addUsize_ok (by omega : filled + (b :: bs).length < 2 ^ 64)]
              rw [ih _ _ r' (by omega) (by omega), hbuf, List.take_left' hhead, Nat.sub_sub]
      · simp only [readAvailableLoop, if_neg hmore, Proc.bind_apply, Proc.lift_eval_apply, hslice,
          Eval.toRes_ok, fill, if_pos (by omega : buf.length - filled = 0), Proc.pure_apply,
          hfinish, List.length_drop]

theorem readAvailable_eq (p : Profile) (buf : List UInt8) (hlen : buf.length < 2 ^ 64)
    (r : Reader) :
    ∃ r', Later r r' ∧ readAvailable p buf r =
      (match stopError buf.length r.cursor.rest.length r.reads with
        | none => .ok (padded buf.length (r.cursor.rest.take buf.length))
        | some e => .error (.err (.io e)), r') := by
  have hloop := readAvailableLoop_eq_fill p (r.fillFuel buf.length) buf 0 r (Nat.zero_le _) hlen
  obtain ⟨r', hlater, hfill⟩ :=
    fill_eq_filled (r.fillFuel buf.length) buf.length [] r (Nat.lt_succ_self _)
  refine ⟨r', hlater, ?_⟩
  rw [readAvailable, hloop, Nat.sub_zero, List.take_zero, hfill, filled]
  cases stopError buf.length r.cursor.rest.length r.reads <;> rfl

theorem yields_readAvailable (p : Profile) (buf : List UInt8) (hlen : buf.length < 2 ^ 64)
    (r : Reader) :
    Yields .io (readAvailable p buf) r
      (.ok (padded buf.length (r.cursor.rest.take buf.length))) := by
  obtain ⟨r', hlater, hread⟩ := readAvailable_eq p buf hlen r
  refine ⟨r', hlater, ?_⟩
  rw [hread]
  cases hstop : stopError buf.length r.cursor.rest.length r.reads with
  | none => exact Or.inl rfl
  | some e => exact Or.inr ⟨e, Or.inl (mem_of_stopError hstop), rfl⟩

/-- However a device cuts its reads and however often it interrupts them,
`read_available` fills the buffer with the bytes that remain, zeros behind them.
The first other error is returned if it comes before the buffer is full and before
a read has found the end. -/
theorem read_available_ignores_delivery (p : Profile) (buf : Bytes) (r : Reader) :
    (OnlyInterrupted r.reads → stopError buf.length r.cursor.rest.length r.reads = none) ∧
    (∀ before e after, r.reads = before ++ .fail e :: after → OnlyInterrupted before →
      e.kind ≠ .interrupted → promised before < buf.length →
      promised before ≤ r.cursor.rest.length →
      stopError buf.length r.cursor.rest.length r.reads = some e) ∧
    (stopError buf.length r.cursor.rest.length r.reads = none →
      (readAvailable p buf.toList r).1 =
        .ok (min buf.length r.cursor.rest.length, r.cursor.rest.take buf.length ++
          List.replicate (buf.length - min buf.length r.cursor.rest.length) 0)) ∧
    ∀ e, stopError buf.length r.cursor.rest.length r.reads = some e →
      (readAvailable p buf.toList r).1 = .error (.err (.io e)) := by
  have hsmall : buf.toList.length < 2 ^ 64 := buf.length_lt.trans (by decide)
  obtain ⟨r', -, hread⟩ := readAvailable_eq p buf.toList hsmall r
  rw [hread]
  refine ⟨stopError_of_onlyInterrupted, ?_, ?_, ?_⟩
  · intro before e after hreads hbefore hkind hspace hleft
    rw [hreads]
    exact stopError_of_promised hbefore hkind hspace hleft
  · intro hnone
    rw [hnone, padded, List.length_take]
  · intro e hstop
    rw [hstop]

theorem yields_readFill (len : ℕ) (r : Reader) :
    Yields .io (readFill len) r
      (if len ≤ r.cursor.rest.length then .ok (r.cursor.rest.take len)
        else .error (.err (.io unexpectedEof))) := by
  have hread := (yields_readExact len r).mapErr BdeError.io
  unfold exactly at hread
  split at hread
  · rename_i h
    rw [if_pos h]
    exact hread
  · rename_i h
    rw [if_neg h]
    exact hread

/-! ## Reading the metadata -/

def blockAt (image : Image) (bytesPerSector : UInt16) (offset : UInt64) : Option FveMetadata :=
  metadataOf (Bytes.ofList ((image.bytes.drop offset.toNat).take metadataReadLen)) bytesPerSector

def firstBlock (image : Image) (bytesPerSector : UInt16) (offsets : List UInt64) :
    Option FveMetadata :=
  (offsets.filter (· ≠ 0)).findSome? (blockAt image bytesPerSector)

def headerIn (image : Image) : Res BdeError VolumeHeader :=
  if sectorSize ≤ image.length then
    let sector := Bytes.ofList (image.bytes.take sectorSize)
    okOr (headerOf sector) (.notBitLocker (arrayAt 8 sector 3))
  else .error (.err (.io unexpectedEof))

def metadataIn (image : Image) : Res BdeError FveMetadata := do
  let vh ← headerIn image
  okOr (firstBlock image vh.bytesPerSector vh.fveMetadataOffsets.toList)
    (.noValidMetadata vh.fveMetadataOffsets)

theorem yields_readHeader {α : Type} (p : Profile) (r : Reader)
    {f : VolumeHeader → Proc Reader BdeError α} {g : VolumeHeader → Res BdeError α}
    (hf : ∀ vh r', Later r r' → Yields .io (f vh) r' (g vh)) :
    Yields .io (do
      let _ ← seekReader (.start 0)
      let header ← readFill sectorSize
      let vh ← VolumeHeader.parse p (Bytes.ofList header)
      f vh) r (headerIn r.image >>= g) := by
  refine Yields.seek_start fun r₁ hlater₁ hrest ↦ ?_
  have hzero : (0 : UInt64).toNat = 0 := rfl
  rw [hzero, List.drop_zero] at hrest
  have hread := yields_readFill sectorSize r₁
  rw [hrest] at hread
  unfold headerIn
  by_cases hlen : sectorSize ≤ r.image.length
  · rw [if_pos hlen] at hread
    rw [if_pos hlen]
    refine hread.bind_ok fun r₂ hlater₂ ↦ ?_
    rw [VolumeHeader.parse_eq]
    exact (Yields.lift _).bind fun vh _ r₃ hlater₃ ↦
      hf vh r₃ ((hlater₁.trans hlater₂).trans hlater₃)
  · rw [if_neg hlen] at hread
    rw [if_neg hlen]
    exact hread.bind_error

theorem yields_readBlock (p : Profile) (bytesPerSector : UInt16) (offset : UInt64) (r : Reader) :
    Yields .io (readBlock p bytesPerSector offset) r
      (.ok (blockAt r.image bytesPerSector offset)) := by
  refine Yields.seek_start fun r₁ hlater hrest ↦ ?_
  have hsmall : (List.replicate metadataReadLen (0 : UInt8)).length < 2 ^ 64 := by
    rw [List.length_replicate]
    decide
  have hread := yields_readAvailable p (List.replicate metadataReadLen 0) hsmall r₁
  rw [hrest, List.length_replicate] at hread
  refine hread.bind_ok fun r₂ _ ↦ ?_
  simp only [padded, List.take_left, FveMetadata.parse_eq]
  exact Yields.liftEval _

theorem yields_readMetadataLoop (p : Profile) (bytesPerSector : UInt16)
    (offsets : FixedArray UInt64 3) (rest : List UInt64) (r : Reader) :
    Yields .io (readMetadataLoop p bytesPerSector offsets rest) r
      (okOr (firstBlock r.image bytesPerSector rest) (.noValidMetadata offsets)) := by
  induction rest generalizing r with
  | nil => exact Yields.fail _
  | cons offset rest ih =>
      rw [readMetadataLoop]
      by_cases hzero : offset = 0
      · rw [if_pos hzero, firstBlock, List.filter_cons_of_neg (by simpa using hzero)]
        exact ih r
      · rw [if_neg hzero, firstBlock, List.filter_cons_of_pos (by simpa using hzero),
          List.findSome?_cons]
        refine (yields_readBlock p bytesPerSector offset r).bind_ok fun r₁ hlater ↦ ?_
        cases hblock : blockAt r.image bytesPerSector offset with
        | some md => exact Yields.pure md
        | none =>
            have hnext := ih r₁
            rw [hlater.image] at hnext
            exact hnext

/-- `read_metadata` depends on the image alone, not on the position of the
reader it is handed. -/
theorem yields_readMetadata (p : Profile) (r : Reader) :
    Yields .io (readMetadata p) r (metadataIn r.image) := by
  refine yields_readHeader p r fun vh r' hlater ↦ ?_
  rw [← hlater.image]
  exact yields_readMetadataLoop p _ _ _ r'

end Bitlocker
