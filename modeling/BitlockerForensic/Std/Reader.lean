import BitlockerForensic.Std.Bytes

/-!
# Readers over an unchanging image

`Cursor` is the in-memory reader of the standard library.  `Reader` is a
cursor behind a device: a script says how each call turns out, so that short
reads, retries and failures are all inputs of the model.  Past the end of its
script a device serves every call in full.
-/

namespace RustStd

inductive IoErrorKind where
  | interrupted
  | unexpectedEof
  | invalidInput
  | other
  deriving DecidableEq, Repr

structure IoError where
  kind : IoErrorKind
  message : String
  deriving DecidableEq, Repr

inductive SeekFrom where
  | start (offset : UInt64)
  | fromEnd (offset : Int64)
  | current (offset : Int64)
  deriving DecidableEq

/-- The content of a medium whose length fits a `u64`. -/
structure Image where
  bytes : List UInt8
  fits : bytes.length < 2 ^ 64

namespace Image

abbrev length (image : Image) : ℕ := image.bytes.length

theorem length_lt (image : Image) : image.length < 2 ^ 64 := image.fits

end Image

/-! ## The in-memory cursor -/

structure Cursor where
  image : Image
  pos : ℕ

namespace Cursor

def target (c : Cursor) : SeekFrom → ℤ
  | .start offset => offset.toNat
  | .fromEnd offset => c.image.length + offset.toInt
  | .current offset => c.pos + offset.toInt

def invalidSeek : IoError :=
  ⟨.invalidInput, "invalid seek to a negative or overflowing position"⟩

def seek (c : Cursor) (whence : SeekFrom) : Except IoError ℕ × Cursor :=
  let t := c.target whence
  if 0 ≤ t ∧ t < 2 ^ 64 then (.ok t.toNat, { c with pos := t.toNat })
  else (.error invalidSeek, c)

theorem seek_of_target {c : Cursor} {whence : SeekFrom} {t : ℕ} (ht : c.target whence = t)
    (hlt : t < 2 ^ 64) : c.seek whence = (.ok t, { c with pos := t }) := by
  have hrange : 0 ≤ c.target whence ∧ c.target whence < 2 ^ 64 := by
    rw [ht]
    omega
  unfold seek
  simp only [if_pos hrange]
  rw [ht]
  rfl

def rest (c : Cursor) : List UInt8 := c.image.bytes.drop c.pos

def take (c : Cursor) (n : ℕ) : List UInt8 × Cursor :=
  (c.rest.take n, { c with pos := c.pos + (c.rest.take n).length })

def read (c : Cursor) (buf : List UInt8) : (ℕ × List UInt8) × Cursor :=
  let (got, c') := c.take buf.length
  ((got.length, got ++ buf.drop got.length), c')

theorem rest_take (c : Cursor) (n : ℕ) : (c.take n).2.rest = c.rest.drop n := by
  simp only [take, rest, List.drop_drop, List.length_take, List.length_drop]
  by_cases h : n ≤ c.image.bytes.length - c.pos
  · rw [Nat.min_eq_left h]
  · rw [Nat.min_eq_right (by omega), List.drop_eq_nil_of_le (by omega),
      List.drop_eq_nil_of_le (by omega)]

end Cursor

/-! ## Devices -/

/-- How one `read` call turns out: a non-empty chunk of at most `limit + 1`
bytes (less at the end of the image), or an error. -/
inductive ReadOutcome where
  | chunk (limit : ℕ)
  | fail (e : IoError)
  deriving DecidableEq

structure Reader where
  cursor : Cursor
  reads : List ReadOutcome
  seeks : List (Option IoError)

namespace Reader

def image (r : Reader) : Image := r.cursor.image

/-- A device that never fails and never delivers short. -/
def ofImage (image : Image) : Reader := ⟨⟨image, 0⟩, [], []⟩

@[simp] theorem ofImage_image (image : Image) : (ofImage image).image = image := rfl

def deliver (n : ℕ) (reads : List ReadOutcome) (r : Reader) : Res IoError (List UInt8) × Reader :=
  (.ok (r.cursor.take n).1, { r with cursor := (r.cursor.take n).2, reads := reads })

def read (n : ℕ) : Proc Reader IoError (List UInt8) := fun r ↦
  match r.reads with
  | [] => r.deliver n []
  | .chunk limit :: reads => r.deliver (min n (limit + 1)) reads
  | .fail e :: reads => (.error (.err e), { r with reads := reads })

def seek (whence : SeekFrom) : Proc Reader IoError ℕ := fun r ↦
  match r.seeks with
  | some e :: seeks => (.error (.err e), { r with seeks := seeks })
  | _ =>
      match r.cursor.seek whence with
      | (.ok t, c) => (.ok t, { r with cursor := c, seeks := r.seeks.tail })
      | (.error e, c) => (.error (.err e), { r with cursor := c, seeks := r.seeks.tail })

/-- The errors the device may still report to its caller.  An interrupted read
is retried, so it is not one of them. -/
def Reports (r : Reader) (e : IoError) : Prop :=
  (.fail e ∈ r.reads ∧ e.kind ≠ .interrupted) ∨ some e ∈ r.seeks

def ErrorFree (r : Reader) : Prop := ∀ e, ¬ r.Reports e

theorem errorFree_ofImage (image : Image) : (ofImage image).ErrorFree := by
  rintro e (⟨h, -⟩ | h) <;> cases h

/-- `r'` is `r` some calls later: the same image, with less of the script left. -/
structure Later (r r' : Reader) : Prop where
  image : r'.image = r.image
  reads : r'.reads <:+ r.reads
  seeks : r'.seeks <:+ r.seeks

theorem Later.refl (r : Reader) : Later r r :=
  ⟨rfl, List.suffix_refl _, List.suffix_refl _⟩

theorem Later.trans {r r' r'' : Reader} (h : Later r r') (h' : Later r' r'') : Later r r'' :=
  ⟨h'.image.trans h.image, h'.reads.trans h.reads, h'.seeks.trans h.seeks⟩

theorem Later.reports {r r' : Reader} (h : Later r r') {e : IoError} (he : r'.Reports e) :
    r.Reports e := by
  rcases he with ⟨hmem, hkind⟩ | hmem
  · exact Or.inl ⟨h.reads.subset hmem, hkind⟩
  · exact Or.inr (h.seeks.subset hmem)

theorem Later.errorFree {r r' : Reader} (h : Later r r') (hr : r.ErrorFree) : r'.ErrorFree :=
  fun e he ↦ hr e (h.reports he)

theorem seek_cases {whence : SeekFrom} {r : Reader} {t : ℕ}
    (hmove : r.cursor.seek whence = (.ok t, { r.cursor with pos := t })) :
    ∃ r', Later r r' ∧
      ((seek whence r = (.ok t, r') ∧ r'.cursor.pos = t) ∨
        ∃ e, r.Reports e ∧ seek whence r = (.error (.err e), r')) := by
  cases hs : r.seeks with
  | nil =>
      refine ⟨⟨{ r.cursor with pos := t }, r.reads, []⟩,
        ⟨rfl, List.suffix_refl _, by simp⟩, Or.inl ⟨?_, rfl⟩⟩
      simp [seek, hs, hmove]
  | cons head seeks =>
      cases head with
      | none =>
          refine ⟨⟨{ r.cursor with pos := t }, r.reads, seeks⟩,
            ⟨rfl, List.suffix_refl _, by simp [hs]⟩, Or.inl ⟨?_, rfl⟩⟩
          simp [seek, hs, hmove]
      | some e =>
          refine ⟨⟨r.cursor, r.reads, seeks⟩,
            ⟨rfl, List.suffix_refl _, by simp [hs]⟩, Or.inr ⟨e, Or.inr (by simp [hs]), ?_⟩⟩
          simp [seek, hs]

theorem seek_start_spec (offset : UInt64) (r : Reader) :
    ∃ r', Later r r' ∧
      ((seek (.start offset) r = (.ok offset.toNat, r') ∧ r'.cursor.pos = offset.toNat) ∨
        ∃ e, r.Reports e ∧ seek (.start offset) r = (.error (.err e), r')) := by
  apply seek_cases
  exact Cursor.seek_of_target rfl offset.toNat_lt

theorem seek_end_spec (r : Reader) :
    ∃ r', Later r r' ∧
      (seek (.fromEnd 0) r = (.ok r.image.length, r') ∨
        ∃ e, r.Reports e ∧ seek (.fromEnd 0) r = (.error (.err e), r')) := by
  have htarget : r.cursor.target (.fromEnd 0) = (r.image.length : ℤ) := by
    have hzero : (0 : Int64).toInt = 0 := rfl
    rw [Cursor.target, hzero, Int.add_zero]
    rfl
  obtain ⟨r', hlater, hout⟩ :=
    seek_cases (Cursor.seek_of_target htarget r.image.length_lt)
  exact ⟨r', hlater, hout.imp_left And.left⟩

/-! ## Filling a buffer -/

/-- Read until `want` bytes have arrived, the image ends, or the device
reports an error; interrupted reads are retried. -/
def fill : ℕ → ℕ → List UInt8 → Proc Reader IoError (List UInt8)
  | 0, _, _ => fun r ↦ (.error (.panic .outOfFuel), r)
  | fuel + 1, want, got => fun r ↦
      if want = 0 then (.ok got, r)
      else match read want r with
        | (.ok [], r') => (.ok got, r')
        | (.ok (b :: bs), r') => fill fuel (want - (b :: bs).length) (got ++ b :: bs) r'
        | (.error (.err e), r') =>
            if e.kind = .interrupted then fill fuel want got r' else (.error (.err e), r')
        | (.error (.panic cause), r') => (.error (.panic cause), r')

def fillFuel (want : ℕ) (r : Reader) : ℕ := r.reads.length + want + 1

def unexpectedEof : IoError := ⟨.unexpectedEof, "failed to fill whole buffer"⟩

def readExact (want : ℕ) : Proc Reader IoError (List UInt8) := fun r ↦
  match fill (r.fillFuel want) want [] r with
  | (.ok got, r') => if got.length = want then (.ok got, r') else (.error (.err unexpectedEof), r')
  | (.error fault, r') => (.error fault, r')

theorem later_deliver (r : Reader) (n : ℕ) {reads : List ReadOutcome} (h : reads <:+ r.reads) :
    Later r (r.deliver n reads).2 :=
  ⟨rfl, h, List.suffix_refl _⟩

theorem length_deliver (r : Reader) (n : ℕ) (reads : List ReadOutcome) {chunk : List UInt8}
    {r' : Reader} (h : r.deliver n reads = (.ok chunk, r')) : chunk.length ≤ n := by
  cases h
  exact List.length_take_le _ _

/-- The error that ends a fill of `want` bytes, `left` bytes before the end: the
first one that is not an interruption, if it comes before the buffer is full and
before a read has found the end. -/
def stopError : ℕ → ℕ → List ReadOutcome → Option IoError
  | _, _, [] => none
  | want, left, .chunk limit :: reads =>
      if want = 0 ∨ left = 0 then none
      else
        let n := min (min want (limit + 1)) left
        stopError (want - n) (left - n) reads
  | want, left, .fail e :: reads =>
      if want = 0 then none
      else if e.kind = .interrupted then stopError want left reads
      else some e

theorem stopError_zero (left : ℕ) (reads : List ReadOutcome) : stopError 0 left reads = none := by
  cases reads with
  | nil => rfl
  | cons outcome reads => cases outcome <;> simp [stopError]

theorem mem_of_stopError {want left : ℕ} {reads : List ReadOutcome} {e : IoError}
    (h : stopError want left reads = some e) : .fail e ∈ reads ∧ e.kind ≠ .interrupted := by
  induction reads generalizing want left with
  | nil => cases h
  | cons outcome reads ih =>
      cases outcome with
      | chunk limit =>
          rw [stopError] at h
          split at h
          · cases h
          · obtain ⟨hmem, hkind⟩ := ih h
            exact ⟨List.mem_cons_of_mem _ hmem, hkind⟩
      | fail e' =>
          rw [stopError] at h
          split at h
          · cases h
          · split at h
            · obtain ⟨hmem, hkind⟩ := ih h
              exact ⟨List.mem_cons_of_mem _ hmem, hkind⟩
            · rename_i hkind
              cases h
              exact ⟨List.mem_cons_self, hkind⟩

def OnlyInterrupted (reads : List ReadOutcome) : Prop :=
  ∀ e, .fail e ∈ reads → e.kind = .interrupted

theorem stopError_of_onlyInterrupted {want left : ℕ} {reads : List ReadOutcome}
    (h : OnlyInterrupted reads) : stopError want left reads = none := by
  by_contra hsome
  obtain ⟨e, hstop⟩ := Option.ne_none_iff_exists'.mp hsome
  obtain ⟨hmem, hkind⟩ := mem_of_stopError hstop
  exact hkind (h e hmem)

/-- The bytes that the chunks of a script hold when none is cut short. -/
def promised : List ReadOutcome → ℕ
  | [] => 0
  | .chunk limit :: reads => limit + 1 + promised reads
  | .fail _ :: reads => promised reads

theorem stopError_of_promised {want left : ℕ} {before after : List ReadOutcome} {e : IoError}
    (hbefore : OnlyInterrupted before) (hkind : e.kind ≠ .interrupted)
    (hwant : promised before < want) (hleft : promised before ≤ left) :
    stopError want left (before ++ .fail e :: after) = some e := by
  induction before generalizing want left with
  | nil =>
      rw [promised] at hwant
      rw [List.nil_append, stopError, if_neg (by omega), if_neg hkind]
  | cons outcome before ih =>
      have hrest : OnlyInterrupted before :=
        fun e' he' ↦ hbefore e' (List.mem_cons_of_mem _ he')
      cases outcome with
      | chunk limit =>
          rw [promised] at hwant hleft
          have hwhole : min (min want (limit + 1)) left = limit + 1 := by omega
          rw [List.cons_append, stopError, if_neg (by omega)]
          dsimp only
          rw [hwhole]
          exact ih hrest (by omega) (by omega)
      | fail e' =>
          rw [promised] at hwant hleft
          have hinterrupted := hbefore e' List.mem_cons_self
          rw [List.cons_append, stopError, if_neg (by omega), if_pos hinterrupted]
          exact ih hrest hwant hleft

/-- What a fill of `want` bytes behind `got` comes to. -/
def filled (want : ℕ) (got : List UInt8) (r : Reader) : Res IoError (List UInt8) :=
  match stopError want r.cursor.rest.length r.reads with
  | none => .ok (got ++ r.cursor.rest.take want)
  | some e => .error (.err e)

/-- One chunk of at most `m` bytes, and then the rest of the fill. -/
theorem fill_of_deliver {fuel want m : ℕ} {got : List UInt8} {r : Reader}
    {reads : List ReadOutcome} (hpos : 0 < m) (hm : m ≤ want)
    (hread : read want r = r.deliver m reads) :
    fill (fuel + 1) want got r =
      if r.cursor.rest.length = 0 then (.ok got, (r.deliver m reads).2)
      else fill fuel (want - min m r.cursor.rest.length) (got ++ r.cursor.rest.take m)
        (r.deliver m reads).2 := by
  have hwant : want ≠ 0 := by omega
  have hlen : (r.cursor.rest.take m).length = min m r.cursor.rest.length := List.length_take
  rw [← hlen, fill]
  simp only [if_neg hwant, hread, deliver, Cursor.take]
  cases hchunk : r.cursor.rest.take m with
  | nil =>
      rw [hchunk, List.length_nil] at hlen
      rw [if_pos (by omega)]
  | cons b bs =>
      rw [hchunk, List.length_cons] at hlen
      rw [if_neg (by omega)]

theorem take_append_take_drop {α : Type} (l : List α) {m n : ℕ} (h : m ≤ n) :
    l.take m ++ (l.drop m).take (n - min m l.length) = l.take n := by
  by_cases hshort : m ≤ l.length
  · rw [Nat.min_eq_left hshort, ← List.take_add, Nat.add_sub_cancel' h]
  · rw [List.drop_eq_nil_of_le (by omega), List.take_nil, List.append_nil,
      List.take_of_length_le (by omega), List.take_of_length_le (by omega)]

theorem filled_of_deliver {want m : ℕ} (got : List UInt8) {r : Reader}
    {reads : List ReadOutcome} (hm : m ≤ want)
    (hstop : stopError want r.cursor.rest.length r.reads =
      stopError (want - min m r.cursor.rest.length)
        (r.cursor.rest.length - min m r.cursor.rest.length) reads) :
    filled (want - min m r.cursor.rest.length) (got ++ r.cursor.rest.take m)
      (r.deliver m reads).2 = filled want got r := by
  have hrest : (r.deliver m reads).2.cursor.rest = r.cursor.rest.drop m := r.cursor.rest_take m
  have hreads : (r.deliver m reads).2.reads = reads := rfl
  have hleft : (r.cursor.rest.drop m).length =
      r.cursor.rest.length - min m r.cursor.rest.length := by
    rw [List.length_drop]
    omega
  rw [filled, filled, hrest, hreads, hleft, ← hstop, List.append_assoc, take_append_take_drop _ hm]

/-- A fill is exact if the fill behind its first chunk is. -/
theorem fill_eq_of_deliver {fuel want m : ℕ} {got : List UInt8} {r : Reader}
    {reads : List ReadOutcome} (hpos : 0 < m) (hm : m ≤ want) (hreads : reads <:+ r.reads)
    (hread : read want r = r.deliver m reads)
    (hstop : stopError want r.cursor.rest.length r.reads =
      if r.cursor.rest.length = 0 then none
      else stopError (want - min m r.cursor.rest.length)
        (r.cursor.rest.length - min m r.cursor.rest.length) reads)
    (hnext : r.cursor.rest.length ≠ 0 → ∃ r', Later (r.deliver m reads).2 r' ∧
      fill fuel (want - min m r.cursor.rest.length) (got ++ r.cursor.rest.take m)
        (r.deliver m reads).2 =
      (filled (want - min m r.cursor.rest.length) (got ++ r.cursor.rest.take m)
        (r.deliver m reads).2, r')) :
    ∃ r', Later r r' ∧ fill (fuel + 1) want got r = (filled want got r, r') := by
  have hlater := later_deliver r m hreads
  rw [fill_of_deliver hpos hm hread]
  by_cases hempty : r.cursor.rest.length = 0
  · rw [if_pos hempty] at hstop
    refine ⟨_, hlater, ?_⟩
    rw [if_pos hempty, filled, hstop, List.eq_nil_of_length_eq_zero hempty, List.take_nil,
      List.append_nil]
  · rw [if_neg hempty] at hstop
    obtain ⟨r', hlater', hfill⟩ := hnext hempty
    refine ⟨r', hlater.trans hlater', ?_⟩
    rw [if_neg hempty, hfill, filled_of_deliver got hm hstop]

/-- `fill` delivers the remaining bytes up to `want`, however the device cuts
them and however often it is interrupted, or the error that ends the fill. -/
theorem fill_eq_filled (fuel want : ℕ) (got : List UInt8) (r : Reader)
    (hfuel : r.reads.length + want < fuel) :
    ∃ r', Later r r' ∧ fill fuel want got r = (filled want got r, r') := by
  induction fuel generalizing want got r with
  | zero => omega
  | succ fuel ih =>
      by_cases hwant : want = 0
      · refine ⟨r, Later.refl r, ?_⟩
        simp only [hwant, fill, if_true, filled, stopError_zero, List.take_zero, List.append_nil]
      cases hr : r.reads with
      | nil =>
          have hread : read want r = r.deliver want [] := by rw [read, hr]
          apply fill_eq_of_deliver (Nat.pos_of_ne_zero hwant) (le_refl _) List.nil_suffix hread
          · rw [hr, stopError, stopError, ite_self]
          · intro hmore
            apply ih
            change 0 + (want - min want r.cursor.rest.length) < fuel
            omega
      | cons outcome reads =>
          rw [hr, List.length_cons] at hfuel
          have hsuffix : reads <:+ r.reads := by
            rw [hr]
            exact List.suffix_cons outcome reads
          cases outcome with
          | chunk limit =>
              have hread : read want r = r.deliver (min want (limit + 1)) reads := by rw [read, hr]
              apply fill_eq_of_deliver (by omega) (Nat.min_le_left _ _) hsuffix hread
              · rw [hr, stopError]
                simp only [hwant, false_or]
              · intro hmore
                apply ih
                change reads.length + (want - min (min want (limit + 1)) r.cursor.rest.length) <
                  fuel
                omega
          | fail e =>
              have hread : read want r = (.error (.err e), { r with reads := reads }) := by
                rw [read, hr]
              have hlater : Later r { r with reads := reads } :=
                ⟨rfl, hsuffix, List.suffix_refl _⟩
              by_cases hkind : e.kind = .interrupted
              · have hbudget : reads.length + want < fuel := by omega
                obtain ⟨r', hlater', hfill⟩ := ih want got { r with reads := reads } hbudget
                refine ⟨r', hlater.trans hlater', ?_⟩
                simp only [fill, if_neg hwant, hread, if_pos hkind, hfill]
                rw [filled, filled, hr, stopError, if_neg hwant, if_pos hkind]
              · refine ⟨_, hlater, ?_⟩
                simp only [fill, if_neg hwant, hread, if_neg hkind]
                rw [filled, hr, stopError, if_neg hwant, if_neg hkind]

theorem fill_spec (fuel want : ℕ) (got : List UInt8) (r : Reader)
    (hfuel : r.reads.length + want < fuel) :
    ∃ r', Later r r' ∧
      (fill fuel want got r = (.ok (got ++ r.cursor.rest.take want), r') ∨
        ∃ e, r.Reports e ∧ fill fuel want got r = (.error (.err e), r')) := by
  obtain ⟨r', hlater, hfill⟩ := fill_eq_filled fuel want got r hfuel
  refine ⟨r', hlater, ?_⟩
  rw [hfill, filled]
  cases hstop : stopError want r.cursor.rest.length r.reads with
  | none => exact Or.inl rfl
  | some e => exact Or.inr ⟨e, Or.inl (mem_of_stopError hstop), rfl⟩

theorem readExact_spec (want : ℕ) (r : Reader) :
    ∃ r', Later r r' ∧
      ((want ≤ r.cursor.rest.length ∧
          readExact want r = (.ok (r.cursor.rest.take want), r')) ∨
        (r.cursor.rest.length < want ∧ readExact want r = (.error (.err unexpectedEof), r')) ∨
        ∃ e, r.Reports e ∧ readExact want r = (.error (.err e), r')) := by
  obtain ⟨r', hlater, hout⟩ := fill_spec (r.fillFuel want) want [] r (by simp [fillFuel])
  refine ⟨r', hlater, ?_⟩
  rcases hout with hok | ⟨e, he, herr⟩
  · by_cases hlen : want ≤ r.cursor.rest.length
    · refine Or.inl ⟨hlen, ?_⟩
      simp [readExact, hok, hlen]
    · refine Or.inr (Or.inl ⟨by omega, ?_⟩)
      simp [readExact, hok]
      omega
  · exact Or.inr (Or.inr ⟨e, he, by simp [readExact, herr]⟩)

end Reader

end RustStd
