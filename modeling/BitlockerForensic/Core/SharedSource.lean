import BitlockerForensic.Std.Mutex
import BitlockerForensic.Core.SourceView

/-!
# A source shared by threads

A `BitlockerSource` is handed out behind an `Arc`: any number of threads call its
`read_at` at the same time, and a mutex around the volume keeps their loops apart.
The lock recovers from poisoning.  Here a thread can be interrupted before and
after it takes the lock and between any two sectors it reads under it.
-/

namespace Bitlocker

open RustStd
open RustStd.Reader

namespace DecryptedVolume

variable {C : Type} [SectorDecrypt C]

/-- The body of the loop of `read_at`: one sector. -/
def readAtStep (p : Profile) (offset : UInt64) (buf : List UInt8) (done : ℕ) :
    Proc (DecryptedVolume C) BdeError (List UInt8 × ℕ) := do
  let pos ← p.addU64 offset (UInt64.ofNat done)
  let sectorStart := pos - pos % 512
  let within := (pos - sectorStart).toNat
  let plain ← decryptLogicalSector p sectorStart
  let take := min (sectorSize - within) (buf.length - done)
  let stop ← p.addUsize done take
  let src ← slice plain within (← p.addUsize within take)
  let buf ← copyInto buf done stop src
  pure (buf, stop)

theorem readAtLoop_succ (p : Profile) (offset : UInt64) (fuel : ℕ) (buf : List UInt8) (done : ℕ) :
    (readAtLoop p offset (fuel + 1) buf done : Proc (DecryptedVolume C) BdeError (List UInt8)) =
      if done < buf.length then
        readAtStep p offset buf done >>= fun next ↦ readAtLoop p offset fuel next.1 next.2
      else pure buf := by
  rw [readAtLoop]
  split
  · simp only [readAtStep, Proc.bind_assoc]
    rfl
  · rfl

/-- Each sector fills at least one more byte of the buffer. -/
theorem readAtStep_advances {p : Profile} {offset : UInt64} {buf buf' : List UInt8} {done done' : ℕ}
    {v v' : DecryptedVolume C} (hdone : done < buf.length) (hlen : buf.length < 2 ^ 63)
    (h : readAtStep p offset buf done v = (.ok (buf', done'), v')) :
    buf'.length = buf.length ∧ done < done' ∧ done' ≤ buf.length := by
  obtain ⟨pos, v₁, -, h⟩ := Proc.bind_eq_ok.mp h
  obtain ⟨plain, v₂, -, h⟩ := Proc.bind_eq_ok.mp h
  have hwithin := VolumeView.position_within pos
  have hin : pos.toNat % 512 < 512 := Nat.mod_lt _ (by decide)
  simp only [hwithin] at h
  generalize htake : min (sectorSize - pos.toNat % 512) (buf.length - done) = take at h
  have hsize : sectorSize = 512 := rfl
  obtain ⟨stop, v₃, hstop, h⟩ := Proc.bind_eq_ok.mp h
  rw [Proc.lift_eval_eq_ok, p.addUsize_ok (by omega)] at hstop
  cases hstop.1
  obtain ⟨stop', v₄, -, h⟩ := Proc.bind_eq_ok.mp h
  obtain ⟨src, v₅, -, h⟩ := Proc.bind_eq_ok.mp h
  obtain ⟨filled, v₆, hfilled, h⟩ := Proc.bind_eq_ok.mp h
  have hcopy := (Proc.lift_eval_eq_ok.mp hfilled).1
  cases h
  exact ⟨length_of_copyInto hcopy, by omega, by omega⟩

end DecryptedVolume

namespace BitlockerSource

/-! ## The code of a thread -/

structure ReadCall where
  offset : UInt64
  buf : Bytes

/-- A `read_at` under the lock: the part of the caller's buffer that it fills, and
how much of it is filled. -/
structure ReadFrame where
  offset : UInt64
  buf : Bytes
  dst : List UInt8
  done : ℕ

def ReadFrame.Valid (frame : ReadFrame) : Prop :=
  frame.done ≤ frame.dst.length ∧ frame.dst.length < 2 ^ 63

variable {C : Type} [SectorDecrypt C]

def finished (frame : ReadFrame) : ℕ × List UInt8 :=
  (frame.dst.length, frame.dst ++ frame.buf.toList.drop frame.dst.length)

/-- `read_at` of a source of length `len`.  A poisoned guard is used like any other
(`PoisonError::into_inner`). -/
def code (p : Profile) (len : UInt64) :
    Mutex.Code (DecryptedVolume C) ReadCall ReadFrame (Res VfsError (ℕ × List UInt8)) where
  enter call :=
    let avail := len.toNat - call.offset.toNat
    if avail = 0 then .inr (.ok (0, call.buf.toList))
    else
      match call.buf.get 0 (min call.buf.length avail) with
      | none => .inr (.ok (0, call.buf.toList))
      | some dst => .inl ⟨call.offset, call.buf, dst.toList, 0⟩
  resume _ frame := frame
  work frame v :=
    if frame.done < frame.dst.length then
      match DecryptedVolume.readAtStep p frame.offset frame.dst frame.done v with
      | (.ok (dst, done), v') => (.inl { frame with dst := dst, done := done }, v')
      | (.error fault, v') => (.inr (Res.mapErr mapBdeErr (.error fault)), v')
    else (.inr (.ok (finished frame)), v)
  panicked
    | .error (.panic _) => true
    | _ => false

/-! ## The sectors of a call, one after another -/

theorem step_of_work {p : Profile} {len : UInt64} {frame frame' : ReadFrame}
    {v v' : DecryptedVolume C} (h : (code p len).work frame v = (.inl frame', v')) :
    frame.done < frame.dst.length ∧ ∃ dst done,
      DecryptedVolume.readAtStep p frame.offset frame.dst frame.done v = (.ok (dst, done), v') ∧
        frame' = { frame with dst := dst, done := done } := by
  simp only [code] at h
  split at h
  · rename_i hmore
    split at h
    · rename_i dst done v₁ hstep
      cases h
      exact ⟨hmore, dst, done, hstep, rfl⟩
    · cases h
  · cases h

theorem result_of_work {p : Profile} {len : UInt64} {frame : ReadFrame}
    {v v' : DecryptedVolume C} {out : Res VfsError (ℕ × List UInt8)}
    (h : (code p len).work frame v = (.inr out, v')) :
    (frame.done < frame.dst.length ∧ ∃ fault,
        DecryptedVolume.readAtStep p frame.offset frame.dst frame.done v = (.error fault, v') ∧
          out = Res.mapErr mapBdeErr (.error fault)) ∨
      (¬ frame.done < frame.dst.length ∧ out = .ok (finished frame) ∧ v' = v) := by
  simp only [code] at h
  split at h
  · rename_i hmore
    split at h
    · cases h
    · rename_i fault v₁ hstep
      cases h
      exact Or.inl ⟨hmore, fault, hstep, rfl⟩
  · rename_i hall
    cases h
    exact Or.inr ⟨hall, rfl, rfl⟩

/-- The steps under the lock come to an end. -/
theorem terminating (p : Profile) (len : UInt64) :
    Mutex.Terminating (code p len : Mutex.Code (DecryptedVolume C) _ _ _) ReadFrame.Valid
      fun frame ↦ frame.dst.length - frame.done where
  enter := by
    intro call frame henter poisoned
    simp only [code] at henter
    split at henter
    · cases henter
    · split at henter
      · cases henter
      · rename_i dst hdst
        cases henter
        exact ⟨Nat.zero_le _, dst.fits⟩
  work := by
    intro frame frame' v v' hvalid hwork
    obtain ⟨hmore, dst, done, hstep, rfl⟩ := step_of_work hwork
    obtain ⟨hlen, hlt, hle⟩ := DecryptedVolume.readAtStep_advances hmore hvalid.2 hstep
    refine ⟨⟨?_, ?_⟩, ?_⟩
    · dsimp only
      omega
    · dsimp only
      rw [hlen]
      exact hvalid.2
    · dsimp only
      omega

/-- The steps under the lock are the loop of `read_at`. -/
theorem readAtLoop_of_works {p : Profile} {len : UInt64} {frame : ReadFrame}
    {v v' : DecryptedVolume C} {out : Res VfsError (ℕ × List UInt8)}
    (h : Mutex.Works (code p len) frame v out v') (hvalid : frame.Valid) {fuel : ℕ}
    (hfuel : frame.dst.length - frame.done < fuel) :
    ∃ result, DecryptedVolume.readAtLoop p frame.offset fuel frame.dst frame.done v = (result, v') ∧
      out = Res.mapErr mapBdeErr ((fun dst ↦ (frame.dst.length,
        dst ++ frame.buf.toList.drop frame.dst.length)) <$> result) := by
  induction h generalizing fuel with
  | @last frame v v' out hwork =>
      obtain ⟨fuel, rfl⟩ : ∃ n, fuel = n + 1 := ⟨fuel - 1, by omega⟩
      rw [DecryptedVolume.readAtLoop_succ]
      rcases result_of_work hwork with ⟨hmore, fault, hstep, rfl⟩ | ⟨hall, rfl, rfl⟩
      · rw [if_pos hmore]
        exact ⟨.error fault, Proc.bind_of_error hstep _, rfl⟩
      · rw [if_neg hall]
        exact ⟨.ok frame.dst, rfl, rfl⟩
  | @next frame frame' v v' v'' out hwork _ ih =>
      obtain ⟨fuel, rfl⟩ : ∃ n, fuel = n + 1 := ⟨fuel - 1, by omega⟩
      obtain ⟨hvalid', hrank⟩ := (terminating p len).work hvalid hwork
      obtain ⟨hmore, dst, done, hstep, rfl⟩ := step_of_work hwork
      obtain ⟨hlen, -, -⟩ := DecryptedVolume.readAtStep_advances hmore hvalid.2 hstep
      have hrest : dst.length - done < fuel := by
        dsimp only at hrank
        omega
      obtain ⟨result, hloop, hout⟩ := ih hvalid' hrest
      rw [DecryptedVolume.readAtLoop_succ, if_pos hmore]
      refine ⟨result, ?_, ?_⟩
      · rw [Proc.bind_of_ok hstep]
        exact hloop
      · rw [hout]
        simp only [hlen]

theorem dst_of_enter {p : Profile} {len : UInt64} {call : ReadCall} {frame : ReadFrame}
    (h : (code p len : Mutex.Code (DecryptedVolume C) _ _ _).enter call = .inl frame) :
    len.toNat - call.offset.toNat ≠ 0 ∧ ∃ dst,
      call.buf.get 0 (min call.buf.length (len.toNat - call.offset.toNat)) = some dst ∧
        dst.length = min call.buf.length (len.toNat - call.offset.toNat) ∧
        frame = ⟨call.offset, call.buf, dst.toList, 0⟩ := by
  simp only [code] at h
  split at h
  · cases h
  · rename_i havail
    split at h
    · cases h
    · rename_i dst hdst
      cases h
      obtain ⟨-, hle, rfl⟩ := Bytes.get_eq_some.mp hdst
      exact ⟨havail, _, hdst, Bytes.window_length _ hle, rfl⟩

theorem answer_of_enter {p : Profile} {len : UInt64} {call : ReadCall}
    {out : Res VfsError (ℕ × List UInt8)}
    (h : (code p len : Mutex.Code (DecryptedVolume C) _ _ _).enter call = .inr out)
    (v : DecryptedVolume C) : readAt p call.offset call.buf ⟨v, len⟩ = (out, ⟨v, len⟩) := by
  simp only [code] at h
  split at h
  · rename_i hend
    cases h
    rw [readAt]
    exact if_pos hend
  · rename_i havail
    split at h
    · rename_i hget
      cases h
      simp only [readAt]
      rw [if_neg havail]
      simp only [hget]
    · cases h

/-- A whole call by itself is a `read_at` of the source. -/
theorem step_of_serial {p : Profile} {len : UInt64} {s s' : DecryptedVolume C × Bool}
    {l : ReadCall × Res VfsError (ℕ × List UInt8)} (h : Mutex.Serial (code p len) s l s') :
    Step p ⟨s.1, len⟩ ⟨l.1.offset, l.1.buf, l.2⟩ ⟨s'.1, len⟩ := by
  cases h with
  | answer henter => exact answer_of_enter henter _
  | @guarded v v' poisoned call frame out henter hworks =>
      have hvalid := (terminating p len).enter henter poisoned
      obtain ⟨havail, dst, hget, hlen, rfl⟩ := dst_of_enter henter
      have hframe : Mutex.Works (code p len) ⟨call.offset, call.buf, dst.toList, 0⟩ v out v' :=
        hworks
      obtain ⟨result, hloop, hout⟩ := readAtLoop_of_works hframe hvalid (Nat.lt_succ_self _)
      have hread : DecryptedVolume.readAt p call.offset dst v = (result, v') := hloop
      have hmapped : (DecryptedVolume.readAt p call.offset dst).mapErr mapBdeErr v =
          (Res.mapErr mapBdeErr result, v') := Proc.mapErr_apply hread
      have hcount : dst.toList.length = min call.buf.length (len.toNat - call.offset.toNat) := hlen
      rw [hcount] at hout
      rw [Step, readAt]
      simp only [if_neg havail, hget, Proc.bind_apply, Proc.onField, hmapped]
      rw [hout]
      rcases result with (e | cause) | bytes <;> rfl

/-! ## Interleavings -/

/-- The threads that share a source, each with its place in a `read_at`. -/
abbrev Threads (θ C : Type) :=
  Mutex.State θ (DecryptedVolume C) ReadCall ReadFrame (Res VfsError (ℕ × List UInt8))

abbrev ReadEvent (θ : Type) := Mutex.Event θ ReadCall (Res VfsError (ℕ × List UInt8))

def completed (l : ReadCall × Res VfsError (ℕ × List UInt8)) : ReadAt :=
  ⟨l.1.offset, l.1.buf, l.2⟩

theorem run_of_serial {p : Profile} {len : UInt64} {s s' : DecryptedVolume C × Bool}
    {ls : List (ReadCall × Res VfsError (ℕ × List UInt8))}
    (h : Lts.Run (Mutex.Serial (code p len)) s ls s') :
    Lts.Run (Step p) ⟨s.1, len⟩ (ls.map completed) ⟨s'.1, len⟩ := by
  induction h with
  | nil s => exact .nil _
  | cons hstep _ ih => exact .cons (step_of_serial hstep) ih

/-- Whatever the interleaving, the calls have the effect of a sequence of calls,
in the order in which they finish. -/
theorem exists_run_of_threads {p : Profile} {v : DecryptedVolume C} {θ : Type} [DecidableEq θ]
    {evs : List (ReadEvent θ)} {c : Threads θ C}
    (hrun : Lts.Run (Mutex.Step (code p v.totalSize)) (.start v) evs c) :
    ∃ s, Lts.Run (Step p) (new v) ((evs.filterMap Mutex.Event.effect).map completed) s := by
  obtain ⟨s, hserial, -⟩ := Mutex.exists_serial hrun
  exact ⟨_, run_of_serial hserial⟩

/-- A call delivers the bytes of the volume, always so over a device without errors. -/
def Delivers (p : Profile) (v : DecryptedVolume C) (l : ReadAt) : Prop :=
  let bytes := v.view.delivered p l.offset (availableCount v.totalSize l.offset l.buf.length) l.buf
  (∀ result, l.out = .ok result → bytes = .ok result) ∧
    (v.reader.ErrorFree → l.out = bytes.toRes)

theorem Step.delivers_always {p : Profile} {v : DecryptedVolume C} {s s' : BitlockerSource C}
    {l : ReadAt} (hwraps : Wraps v s) (hstep : Step p s l s') :
    Wraps v s' ∧ Delivers p v l := by
  obtain ⟨hwraps', hok⟩ := hstep.delivers hwraps
  refine ⟨hwraps', hok, fun hfree ↦ ?_⟩
  have hyields := yields_readAt p l.offset l.buf s
  rw [hwraps.inner.view, hwraps.len] at hyields
  have hout := hyields.outcome_eq (hwraps.inner.reader.errorFree hfree)
  rw [hstep] at hout
  exact hout

theorem delivers_of_respond {p : Profile} {v : DecryptedVolume C} {θ : Type} [DecidableEq θ]
    {evs : List (ReadEvent θ)} {c : Threads θ C}
    (hrun : Lts.Run (Mutex.Step (code p v.totalSize)) (.start v) evs c) {t : θ} {call : ReadCall}
    {out : Res VfsError (ℕ × List UInt8)} (hmem : .respond t call out ∈ evs) :
    Delivers p v (completed (call, out)) := by
  obtain ⟨s, hcalls⟩ := exists_run_of_threads hrun
  have hlabel : completed (call, out) ∈ (evs.filterMap Mutex.Event.effect).map completed :=
    List.mem_map_of_mem (Mutex.mem_effects_of_respond hrun hmem)
  have hstart : Wraps v (new v) := ⟨DecryptedVolume.Frame.refl v, rfl⟩
  exact hcalls.forall_labels (fun _ _ _ ↦ Step.delivers_always) hstart _ hlabel

theorem result_of_respond {v : DecryptedVolume C} {θ : Type} [DecidableEq θ]
    {evs : List (ReadEvent θ)} {c : Threads θ C}
    (hrun : Lts.Run (Mutex.Step (code .release v.totalSize)) (.start v) evs c)
    (hfree : v.reader.ErrorFree) {t : θ} {call : ReadCall} {out : Res VfsError (ℕ × List UInt8)}
    (hmem : .respond t call out ∈ evs) :
    out = .ok (availableCount v.totalSize call.offset call.buf.length,
      v.view.plainBytes call.offset (availableCount v.totalSize call.offset call.buf.length) ++
        call.buf.toList.drop (availableCount v.totalSize call.offset call.buf.length)) :=
  ((delivers_of_respond hrun hmem).2 hfree).trans (congrArg Eval.toRes
    (VolumeView.delivered_of_ok call.buf (VolumeView.bytesFrom_release ..)))

end BitlockerSource

/-- What a volume delivers is what a seek and a read return on a freshly unlocked
volume of the same image. -/
theorem read_of_delivered (P : Crates) {p : Profile} {cred : Credential} {r fresh : Reader}
    {v : DecryptedVolume (SectorCipher P)} {offset : UInt64} {buf : Bytes}
    (hunlock : cred.unlock P p r = .ok v) (hfree : fresh.ErrorFree)
    (himage : fresh.image = r.image) :
    ∃ v₁ v₂, cred.unlock P p fresh = .ok v₁ ∧
      DecryptedVolume.seek (.start offset) v₁ = (.ok offset, v₂) ∧
      (DecryptedVolume.read p buf v₂).1 =
        (v.view.delivered p offset (availableCount v.totalSize offset buf.length) buf).toRes := by
  obtain ⟨unwrap, -, hopened⟩ := Credential.opened P hunlock
  obtain ⟨v₁, hagain, hlater, hmd, hcipher, hsize⟩ :=
    Credential.unlock_again P hunlock hfree himage
  have himage₁ : v₁.reader.image = v.reader.image := by
    rw [hlater.image, himage, hopened.later.image]
  refine ⟨v₁, _, hagain, DecryptedVolume.seek_start offset v₁, ?_⟩
  rw [DecryptedVolume.read_of_errorFree p offset buf (hlater.errorFree hfree),
    DecryptedVolume.view_eq himage₁ hcipher hmd, hsize]
  rfl

open BitlockerSource

def sampleCall : ReadCall := ⟨1024, Bytes.ofList [7, 7]⟩

/-- Two threads have called `read_at`, and neither has gone on yet. -/
theorem two_invocations (v : DecryptedVolume (SectorCipher sampleCrates)) :
    ∃ c : Threads Bool (SectorCipher sampleCrates),
      Lts.Run (Mutex.Step (code .release v.totalSize)) (.start v)
        [.invoke true sampleCall, .invoke false sampleCall] c ∧
      (c.threads true).current = some sampleCall ∧ (c.threads false).current = some sampleCall :=
  ⟨_, .cons (.invoke rfl) (.single (.invoke rfl)), rfl, rfl⟩

theorem availableCount_sampleCall {v : DecryptedVolume (SectorCipher sampleCrates)}
    (hv : Credential.clearKey.unlock sampleCrates .release (Reader.ofImage (sampleImage 0 0)) =
      .ok v) :
    availableCount v.totalSize sampleCall.offset sampleCall.buf.length = 2 := by
  obtain ⟨unwrap, -, hopened⟩ := Credential.opened sampleCrates hv
  rw [availableCount, hopened.totalSize.trans (length_sampleImage 0 0)]
  rfl

/-- Any number of threads may call `read_at` of one source at the same time.  In
every interleaving at most one of them is at the volume; the calls have the effect
of one sequence of calls, in an order that keeps each of them between its
invocation and its response; and each successful one returns what a seek and a
read return on a freshly unlocked volume, whatever the other threads did, failed
or panicked at. -/
theorem shared_source_linearizable (P : Crates) {p : Profile} {cred : Credential} {r : Reader}
    {v : DecryptedVolume (SectorCipher P)} (hunlock : cred.unlock P p r = .ok v) {θ : Type}
    [DecidableEq θ] {evs : List (ReadEvent θ)} {c : Threads θ (SectorCipher P)}
    (hrun : Lts.Run (Mutex.Step (code p v.totalSize)) (.start v) evs c) :
    (∀ t u, c.Inside t → c.Inside u → t = u) ∧
    (∃ s, Lts.Run (BitlockerSource.Step p) (BitlockerSource.new v)
      ((evs.filterMap Mutex.Event.effect).map completed) s) ∧
    (∀ t, (Mutex.eventsOf t evs).filterMap Mutex.Event.response <+:
        (Mutex.eventsOf t evs).filterMap Mutex.Event.effect ∧
      ((Mutex.eventsOf t evs).filterMap Mutex.Event.effect).map Prod.fst <+:
        (Mutex.eventsOf t evs).filterMap Mutex.Event.invocation) ∧
    ∀ t call result, .respond t call (.ok result) ∈ evs →
      ∀ fresh : Reader, fresh.ErrorFree → fresh.image = r.image →
        ∃ v₁ v₂, cred.unlock P p fresh = .ok v₁ ∧
          DecryptedVolume.seek (.start call.offset) v₁ = (.ok call.offset, v₂) ∧
          (DecryptedVolume.read p call.buf v₂).1 = .ok result := by
  obtain ⟨s, -, hstands⟩ := Mutex.exists_serial hrun
  refine ⟨fun t u ↦ hstands.exclusive, exists_run_of_threads hrun, Mutex.program_order_start hrun,
    ?_⟩
  intro t call result hmem fresh hfree himage
  obtain ⟨v₁, v₂, hagain, hseek, hread⟩ := read_of_delivered P hunlock hfree himage
  exact ⟨v₁, v₂, hagain, hseek,
    hread.trans (congrArg Eval.toRes ((delivers_of_respond hrun hmem).1 result rfl))⟩

theorem shared_source_linearizable_sample :
    ∃ v evs result, ∃ c : Threads Bool (SectorCipher sampleCrates),
      Credential.clearKey.unlock sampleCrates .release (Reader.ofImage (sampleImage 0 0)) = .ok v ∧
      Lts.Run (Mutex.Step (code .release v.totalSize)) (.start v) evs c ∧
      .invoke false sampleCall ∈ evs ∧ .respond true sampleCall (.ok result) ∈ evs ∧
      ∃ v₁ v₂ : DecryptedVolume (SectorCipher sampleCrates),
        DecryptedVolume.seek (.start 1024) v₁ = (.ok 1024, v₂) ∧
        (DecryptedVolume.read .release sampleCall.buf v₂).1 = .ok result := by
  have hfree := Reader.errorFree_ofImage (sampleImage 0 0)
  obtain ⟨v, hv⟩ := sampleImage_unlocks .release 0 0 hfree rfl
  obtain ⟨unwrap, -, hopened⟩ := Credential.opened sampleCrates hv
  obtain ⟨c, hrun, hcall, -⟩ := two_invocations v
  obtain ⟨more, c', out, hmore, hmem, -, -⟩ :=
    (terminating .release v.totalSize).completes hrun hcall
  have hrun' := hrun.append hmore
  have hmem' := List.mem_append_right
    [.invoke true sampleCall, .invoke false sampleCall] hmem
  obtain ⟨result, rfl⟩ : ∃ result, out = .ok result :=
    ⟨_, result_of_respond hrun' (hopened.later.errorFree hfree) hmem'⟩
  obtain ⟨-, -, -, hreads⟩ := shared_source_linearizable sampleCrates hv hrun'
  obtain ⟨v₁, v₂, -, hseek, hread⟩ := hreads true sampleCall _ hmem' _ hfree rfl
  exact ⟨v, _, _, c', hv, hrun', by simp, hmem', v₁, v₂, hseek, hread⟩

/-- Whatever the threads have done so far, panics that poisoned the lock included,
each call can be brought to its response by its own thread and the one thread at
the volume.  Over a device without errors a release build then delivers its bytes. -/
theorem shared_source_completes (P : Crates) {p : Profile} {cred : Credential} {r : Reader}
    {v : DecryptedVolume (SectorCipher P)} (hunlock : cred.unlock P p r = .ok v) {θ : Type}
    [DecidableEq θ] {evs : List (ReadEvent θ)} {c : Threads θ (SectorCipher P)}
    (hrun : Lts.Run (Mutex.Step (code p v.totalSize)) (.start v) evs c) {t : θ}
    {call : ReadCall} (hcall : (c.threads t).current = some call) :
    ∃ more c' out, Lts.Run (Mutex.Step (code p v.totalSize)) c more c' ∧
      .respond t call out ∈ more ∧ c'.threads t = .idle ∧
      (∀ ev ∈ more, ev.thread = t ∨ c.Inside ev.thread) ∧
      (r.ErrorFree → p = .release →
        out = .ok (availableCount v.totalSize call.offset call.buf.length,
          v.view.plainBytes call.offset
              (availableCount v.totalSize call.offset call.buf.length) ++
            call.buf.toList.drop
              (availableCount v.totalSize call.offset call.buf.length))) := by
  obtain ⟨more, c', out, hmore, hmem, hidle, hown⟩ :=
    (terminating p v.totalSize).completes hrun hcall
  refine ⟨more, c', out, hmore, hmem, hidle, hown, ?_⟩
  rintro hfree rfl
  obtain ⟨unwrap, -, hopened⟩ := Credential.opened P hunlock
  exact result_of_respond (hrun.append hmore) (hopened.later.errorFree hfree)
    (List.mem_append_right evs hmem)

theorem shared_source_completes_sample :
    ∃ v c more, ∃ c' : Threads Bool (SectorCipher sampleCrates),
      Credential.clearKey.unlock sampleCrates .release (Reader.ofImage (sampleImage 0 0)) = .ok v ∧
      (c.threads false).current = some sampleCall ∧
      Lts.Run (Mutex.Step (code .release v.totalSize)) c more c' ∧ c'.threads true = .idle ∧
      .respond true sampleCall (.ok (2, v.view.plainBytes 1024 2)) ∈ more := by
  have hfree := Reader.errorFree_ofImage (sampleImage 0 0)
  obtain ⟨v, hv⟩ := sampleImage_unlocks .release 0 0 hfree rfl
  obtain ⟨c, hrun, hcall, hother⟩ := two_invocations v
  obtain ⟨more, c', out, hmore, hmem, hidle, -, hout⟩ :=
    shared_source_completes sampleCrates hv hrun hcall
  rw [hout hfree rfl, availableCount_sampleCall hv] at hmem
  rw [show sampleCall.buf.toList.drop 2 = [] from rfl, List.append_nil] at hmem
  exact ⟨v, c, more, c', hv, hother, hmore, hidle, hmem⟩

end Bitlocker
