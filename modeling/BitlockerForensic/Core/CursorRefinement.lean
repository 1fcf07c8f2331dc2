import BitlockerForensic.Core.Seeking

/-!
# A decrypted volume is a cursor over its plaintext

The abstract machine is the in-memory cursor over the plaintext of the volume,
which may also fail with an error its device reports and then stays where it
is.  Every run of calls on an unlocked volume is a run of that machine, call by
call and outcome by outcome.
-/

namespace Bitlocker

open RustStd
open RustStd.Reader

/-! ## The abstract cursor -/

/-- One call on a cursor at `pos` over `plain`, behind a device that may report
the given errors.  Seek errors are matched by their kind. -/
inductive CursorStep (plain : Image) (reports : IoError → Prop) :
    ℕ → Call × Outcome → ℕ → Prop where
  | seek {pos t : ℕ} {whence : SeekFrom}
      (h : (Cursor.mk plain pos).seek whence = (.ok t, ⟨plain, t⟩)) :
      CursorStep plain reports pos (.seek whence, .seek (.ok (UInt64.ofNat t))) t
  | seekFails {pos : ℕ} {whence : SeekFrom} {e e' : IoError}
      (h : (Cursor.mk plain pos).seek whence = (.error e', ⟨plain, pos⟩))
      (hkind : e.kind = e'.kind) :
      CursorStep plain reports pos (.seek whence, .seek (.error (.err e))) pos
  | read {pos pos' count : ℕ} {buf : Bytes} {out : List UInt8}
      (h : (Cursor.mk plain pos).read buf.toList = ((count, out), ⟨plain, pos'⟩)) :
      CursorStep plain reports pos (.read buf, .read (.ok (count, out))) pos'
  | readFault {pos : ℕ} {buf : Bytes} {e : IoError} (h : reports e) :
      CursorStep plain reports pos
        (.read buf, .read (.error (.err ⟨.other, (BdeError.io e).display⟩))) pos
  | readAt {pos : ℕ} {offset : UInt64} {buf : Bytes}
      (h : offset.toNat + buf.length ≤ plain.length) :
      CursorStep plain reports pos
        (.readAt offset buf, .readAt (.ok ((plain.bytes.drop offset.toNat).take buf.length))) pos
  | readAtPast {pos : ℕ} {offset : UInt64} {buf : Bytes} {out : List UInt8}
      (h : plain.length < offset.toNat + buf.length) (hlen : out.length = buf.length) :
      CursorStep plain reports pos (.readAt offset buf, .readAt (.ok out)) pos
  | readAtFault {pos : ℕ} {offset : UInt64} {buf : Bytes} {e : IoError} (h : reports e) :
      CursorStep plain reports pos (.readAt offset buf, .readAt (.error (.err (.io e)))) pos

theorem CursorStep.mono {plain : Image} {reports reports' : IoError → Prop}
    (hsub : ∀ e, reports e → reports' e) {pos pos' : ℕ} {l : Call × Outcome}
    (h : CursorStep plain reports pos l pos') : CursorStep plain reports' pos l pos' := by
  cases h with
  | seek h => exact .seek h
  | seekFails h hkind => exact .seekFails h hkind
  | read h => exact .read h
  | readFault h => exact .readFault (hsub _ h)
  | readAt h => exact .readAt h
  | readAtPast h hlen => exact .readAtPast h hlen
  | readAtFault h => exact .readAtFault (hsub _ h)

namespace DecryptedVolume

variable {C : Type} [SectorDecrypt C]

/-! ## The plaintext -/

/-- The sector that `decrypt_logical_sector` computes over an undisturbed
reader. -/
def logicalSector (v : DecryptedVolume C) (s : UInt64) : List UInt8 :=
  match (decryptLogicalSector .release s { v with reader := .ofImage v.reader.image }).1 with
  | .ok sector => sector
  | .error _ => []

/-- The byte string of length `total_size` with the logical sectors in order. -/
def plaintext (v : DecryptedVolume C) : Image where
  bytes := (List.range v.totalSize.toNat).map fun q ↦
    (v.logicalSector (UInt64.ofNat (q - q % 512))).getD (q % 512) 0
  fits := by
    rw [List.length_map, List.length_range]
    exact v.totalSize.toNat_lt

@[simp] theorem length_plaintext (v : DecryptedVolume C) :
    v.plaintext.length = v.totalSize.toNat := by
  rw [Image.length, plaintext, List.length_map, List.length_range]

theorem logicalSector_eq (v : DecryptedVolume C) (s : UInt64) :
    v.logicalSector s = v.view.plainSector s := by
  have hview : ({ v with reader := .ofImage v.reader.image } : DecryptedVolume C).view = v.view :=
    rfl
  obtain ⟨r, -, hok⟩ := (yields_decryptLogicalSector .release s
    { v with reader := .ofImage v.reader.image }).of_errorFree (errorFree_ofImage v.reader.image)
  rw [logicalSector, hok, hview, VolumeView.sector, if_pos (Or.inl rfl)]
  rfl

theorem plaintext_congr {v v' : DecryptedVolume C} (h : Frame v v') :
    v'.plaintext = v.plaintext := by
  simp only [plaintext, logicalSector_eq, h.view, h.totalSize]

theorem plainBytes_eq (v : DecryptedVolume C) {offset : UInt64} {count : ℕ}
    (h : offset.toNat + count ≤ v.totalSize.toNat) :
    v.view.plainBytes offset count = (v.plaintext.bytes.drop offset.toNat).take count := by
  have hsize := v.totalSize.toNat_lt
  apply List.ext_getElem
  · have hlen := v.length_plaintext
    rw [VolumeView.length_plainBytes, List.length_take, List.length_drop]
    rw [Image.length] at hlen
    omega
  · intro i hi _
    rw [VolumeView.length_plainBytes] at hi
    have hoff : offset + UInt64.ofNat i = UInt64.ofNat (offset.toNat + i) := by
      rw [UInt64.ofNat_add, UInt64.ofNat_toNat]
    simp only [VolumeView.plainBytes, plaintext, List.getElem_map, List.getElem_range,
      List.getElem_take, List.getElem_drop, hoff, logicalSector_eq]
    exact v.view.plainByte_ofNat (by omega)

/-! ## The simulation -/

theorem boundedStep_exec (p : Profile) (call : Call) (v : DecryptedVolume C)
    (h : ∀ whence, call = .seek whence → v.seekTarget whence < 2 ^ 64) :
    BoundedStep p v (call, (exec p call v).1) (exec p call v).2 :=
  ⟨rfl, h⟩

def AtPosition (v₀ v : DecryptedVolume C) (pos : ℕ) : Prop :=
  Frame v₀ v ∧ v.position.toNat = pos

theorem target_eq (v : DecryptedVolume C) (whence : SeekFrom) :
    (Cursor.mk v.plaintext v.position.toNat).target whence = v.seekTarget whence := by
  cases whence with
  | start o => rfl
  | current o => rfl
  | fromEnd o => simp only [Cursor.target, seekTarget, length_plaintext]

theorem simulate_seek {v : DecryptedVolume C} {whence : SeekFrom}
    (hrange : v.seekTarget whence < 2 ^ 64) (reports : IoError → Prop) :
    CursorStep v.plaintext reports v.position.toNat (.seek whence, .seek (seek whence v).1)
      (seek whence v).2.position.toNat := by
  rw [seek_eq]
  by_cases hneg : v.seekTarget whence < 0
  · rw [if_pos hneg]
    have hseek : (Cursor.mk v.plaintext v.position.toNat).seek whence =
        (.error Cursor.invalidSeek, ⟨v.plaintext, v.position.toNat⟩) := by
      simp only [Cursor.seek, target_eq]
      rw [if_neg (by omega)]
    exact .seekFails hseek rfl
  · obtain ⟨t, ht⟩ := Int.eq_ofNat_of_zero_le (Int.not_lt.mp hneg)
    have hlt : t < 2 ^ 64 := by omega
    have hcast : UInt64.ofInt (v.seekTarget whence) = UInt64.ofNat t := by
      rw [ht, ofInt_natCast]
    have hnat : (UInt64.ofNat t).toNat = t := UInt64.toNat_ofNat_of_lt hlt
    rw [if_neg hneg, hcast]
    dsimp only
    rw [hnat]
    exact .seek (Cursor.seek_of_target ((v.target_eq whence).trans ht) hlt)

theorem simulate_read (v : DecryptedVolume C) (buf : Bytes) :
    CursorStep v.plaintext v.reader.Reports v.position.toNat
      (.read buf, .read (read .release buf v).1) (read .release buf v).2.position.toNat := by
  have hlen : v.plaintext.bytes.length = v.totalSize.toNat := v.length_plaintext
  by_cases hpos : v.position < v.totalSize
  · have hlt : v.position.toNat < v.totalSize.toNat := UInt64.lt_iff_toNat_lt.mp hpos
    have hsize := v.totalSize.toNat_lt
    obtain ⟨r, -, ⟨bytes, hbytes, hread⟩ | ⟨cause, hbytes, -⟩ | ⟨e, he, hread⟩⟩ :=
      read_cases .release buf v hpos
    · have hadvance : v.position.toNat + v.readCount buf.length ≤ v.totalSize.toNat := by
        unfold readCount
        omega
      have hnat : (UInt64.ofNat (v.readCount buf.length)).toNat = v.readCount buf.length :=
        UInt64.toNat_ofNat_of_lt (show v.readCount buf.length < 2 ^ 64 by omega)
      have hend : (v.position + UInt64.ofNat (v.readCount buf.length)).toNat =
          v.position.toNat + v.readCount buf.length := by
        rw [UInt64.toNat_add, hnat, Nat.mod_eq_of_lt (by omega)]
      have hgot : (v.plaintext.bytes.drop v.position.toNat).take buf.length = bytes := by
        rw [VolumeView.bytesFrom_release] at hbytes
        cases hbytes
        rw [v.plainBytes_eq hadvance, readCount, ← hlen, ← List.length_drop, List.take_eq_take_iff]
        omega
      have hcount : bytes.length = v.readCount buf.length := by
        rw [← hgot, List.length_take, List.length_drop, hlen]
        rfl
      rw [hread]
      dsimp only
      rw [hend]
      refine .read ?_
      simp only [Cursor.read, Cursor.take, Cursor.rest, hgot, hcount]
    · rw [VolumeView.bytesFrom_release] at hbytes
      cases hbytes
    · rw [hread]
      exact .readFault he
  · have hpast : v.plaintext.bytes.length ≤ v.position.toNat := by
      rw [hlen]
      exact UInt64.le_iff_toNat_le.mp (UInt64.not_lt.mp hpos)
    rw [read_at_end .release buf (UInt64.not_lt.mp hpos)]
    refine .read ?_
    simp [Cursor.read, Cursor.take, Cursor.rest, List.drop_eq_nil_of_le hpast]

theorem simulate_readAt (v : DecryptedVolume C) (offset : UInt64) (buf : Bytes) :
    CursorStep v.plaintext v.reader.Reports v.position.toNat
      (.readAt offset buf, .readAt (readAt .release offset buf v).1)
      (readAt .release offset buf v).2.position.toNat := by
  obtain ⟨r, hlater, hok | ⟨e, he, herr⟩⟩ := yields_readAt .release offset buf v
  · rw [VolumeView.bytesFrom_release] at hok
    rw [hok]
    by_cases hrange : offset.toNat + buf.length ≤ v.totalSize.toNat
    · have hbytes := v.plainBytes_eq hrange
      have hstep : CursorStep v.plaintext v.reader.Reports v.position.toNat
          (.readAt offset buf,
            .readAt (.ok ((v.plaintext.bytes.drop offset.toNat).take buf.length)))
          v.position.toNat := .readAt (by rw [length_plaintext]; exact hrange)
      rw [← hbytes] at hstep
      exact hstep
    · refine .readAtPast (by rw [length_plaintext]; omega) ?_
      exact v.view.length_plainBytes offset buf.length
  · rw [herr]
    exact .readAtFault he

theorem simulate_step {v₀ v v' : DecryptedVolume C} {pos : ℕ} {l : Call × Outcome}
    (hrel : AtPosition v₀ v pos) (hstep : BoundedStep .release v l v') :
    ∃ pos', CursorStep v₀.plaintext v₀.reader.Reports pos l pos' ∧ AtPosition v₀ v' pos' := by
  obtain ⟨hframe, rfl⟩ := hrel
  obtain ⟨hexec, hrange⟩ := hstep
  refine ⟨v'.position.toNat, ?_, hframe.trans hexec.frame, rfl⟩
  have hcall : CursorStep v.plaintext v.reader.Reports v.position.toNat l v'.position.toNat := by
    obtain ⟨call, out⟩ := l
    cases call with
    | seek whence =>
        cases hexec
        exact simulate_seek (hrange whence rfl) _
    | read buf =>
        cases hexec
        exact simulate_read v buf
    | readAt offset buf =>
        cases hexec
        exact simulate_readAt v offset buf
  rw [plaintext_congr hframe] at hcall
  exact hcall.mono fun e he ↦ hframe.reader.reports he

end DecryptedVolume

/-- Every sequence of calls on an unlocked volume, failing ones included, is a
sequence of calls on the cursor over its plaintext, with the same outcomes and
positions; nothing else about the volume changes. -/
theorem unlocked_volume_refines_cursor (P : Crates) {p : Profile} {protectorType : UInt16}
    {protectorName : String} {unwrap : VmkUnwrap} {r : Reader}
    {v v' : DecryptedVolume (SectorCipher P)} {ls : List (Call × Outcome)}
    (hunlock : unlock P p protectorType protectorName unwrap r = .ok v)
    (hrun : Lts.Run (DecryptedVolume.BoundedStep .release) v ls v') :
    Lts.Run (CursorStep v.plaintext r.Reports) 0 ls v'.position.toNat ∧
      v.plaintext.length = r.image.length ∧ v'.totalSize = v.totalSize ∧
      v'.metadata = v.metadata ∧ v'.cipher = v.cipher := by
  have hopened := opened_of_unlock P hunlock
  have hstart : DecryptedVolume.AtPosition v v 0 := by
    refine ⟨DecryptedVolume.Frame.refl v, ?_⟩
    rw [hopened.position]
    rfl
  obtain ⟨pos, hcursor, hframe, hpos⟩ :=
    hrun.simulate (fun _ _ _ _ ↦ DecryptedVolume.simulate_step) hstart
  subst hpos
  refine ⟨hcursor.mono fun _ _ _ h ↦ h.mono fun e he ↦ hopened.later.reports he, ?_,
    hframe.totalSize, hframe.metadata, hframe.cipher⟩
  rw [DecryptedVolume.length_plaintext, hopened.totalSize]

theorem unlocked_volume_refines_cursor_sample :
    ∃ v ls v', unlock sampleCrates .release protectionClear "clear key" .clear
        (Reader.ofImage (sampleImage 0 0)) = .ok v ∧
      ls.map Prod.fst =
        [.seek (.start 1100), .read (Bytes.ofList [1, 2, 3]), .readAt 7 (Bytes.ofList [4])] ∧
      Lts.Run (DecryptedVolume.BoundedStep .release) v ls v' ∧
      Lts.Run (CursorStep v.plaintext (Reader.ofImage (sampleImage 0 0)).Reports) 0 ls
        v'.position.toNat := by
  obtain ⟨v, hv⟩ := sampleImage_unlocks .release 0 0
    (Reader.errorFree_ofImage (sampleImage 0 0)) rfl
  have hseek : ∀ whence, Call.seek (.start 1100) = .seek whence →
      v.seekTarget whence < 2 ^ 64 := by
    intro whence h
    cases h
    change ((1100 : UInt64).toNat : ℤ) < 2 ^ 64
    decide
  have hrun := Lts.Run.cons
    (DecryptedVolume.boundedStep_exec .release (.seek (.start 1100)) v hseek)
    (Lts.Run.cons
      (DecryptedVolume.boundedStep_exec .release (.read (Bytes.ofList [1, 2, 3])) _
        fun _ h ↦ by cases h)
      (Lts.Run.single
        (DecryptedVolume.boundedStep_exec .release (.readAt 7 (Bytes.ofList [4])) _
          fun _ h ↦ by cases h)))
  have hopen : unlock sampleCrates .release protectionClear "clear key" .clear
      (Reader.ofImage (sampleImage 0 0)) = .ok v := hv
  exact ⟨v, _, _, hopen, rfl, hrun, (unlocked_volume_refines_cursor sampleCrates hopen hrun).1⟩

end Bitlocker
