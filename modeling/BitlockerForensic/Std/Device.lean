import BitlockerForensic.Std.Reader

/-!
# Code behind a device

A state that holds a reader, and the rule for code over it: a call yields a
result fixed in advance, or passes on an error of the device, and in both cases
nothing but the reader has moved.  The rules for sequencing let a specification
be assembled along the code.
-/

namespace RustStd

class HoldsReader (σ : Type) where
  reader : σ → Reader
  withReader : σ → Reader → σ
  reader_withReader : ∀ s r, reader (withReader s r) = r
  withReader_withReader : ∀ s r r', withReader (withReader s r) r' = withReader s r'
  withReader_reader : ∀ s, withReader s (reader s) = s

open HoldsReader Reader

attribute [simp] reader_withReader withReader_withReader withReader_reader

instance : HoldsReader Reader where
  reader r := r
  withReader _ r := r
  reader_withReader _ _ := rfl
  withReader_withReader _ _ _ := rfl
  withReader_reader _ := rfl

@[simp] theorem reader_self (r : Reader) : reader r = r := rfl

@[simp] theorem withReader_self (r r' : Reader) : withReader r r' = r' := rfl

variable {σ ε δ α β : Type} [HoldsReader σ]

/-- From `s`, the call ends in `out` or in an error the device reports, and
only the reader has moved. -/
def Yields (wrap : IoError → ε) (x : Proc σ ε α) (s : σ) (out : Res ε α) : Prop :=
  ∃ r, Later (reader s) r ∧
    (x s = (out, withReader s r) ∨
      ∃ e, (reader s).Reports e ∧ x s = (.error (.err (wrap e)), withReader s r))

namespace Yields

variable {wrap : IoError → ε} {x : Proc σ ε α} {s : σ}

theorem of_eq {out : Res ε α} (h : x s = (out, s)) : Yields wrap x s out :=
  ⟨reader s, Later.refl _, Or.inl (by rw [h, withReader_reader])⟩

theorem pure (a : α) : Yields wrap (Pure.pure a : Proc σ ε α) s (.ok a) := of_eq rfl

theorem fail (e : ε) : Yields wrap (Proc.fail e : Proc σ ε α) s (.error (.err e)) := of_eq rfl

theorem lift (y : Res ε α) : Yields wrap (liftM y : Proc σ ε α) s y := of_eq rfl

theorem liftEval (y : Eval α) : Yields wrap (liftM y : Proc σ ε α) s y.toRes := of_eq rfl

theorem eval_ok {y : Eval α} {a : α} (h : y = .ok a) {f : α → Proc σ ε β} {out : Res ε β}
    (hf : Yields wrap (f a) s out) : Yields wrap ((liftM y : Proc σ ε α) >>= f) s out := by
  subst h
  exact hf

theorem eval_error {y : Eval α} {cause : Panic} (h : y = .error cause)
    {f : α → Proc σ ε β} :
    Yields wrap ((liftM y : Proc σ ε α) >>= f) s (.error (.panic cause)) := by
  subst h
  exact of_eq rfl

theorem bind_ok {f : α → Proc σ ε β} {a : α} {out : Res ε β}
    (hx : Yields wrap x s (.ok a))
    (hf : ∀ r, Later (reader s) r → Yields wrap (f a) (withReader s r) out) :
    Yields wrap (x >>= f) s out := by
  obtain ⟨r, hlater, hok | ⟨e, he, herr⟩⟩ := hx
  · obtain ⟨r', hlater', hout⟩ := hf r hlater
    rw [reader_withReader] at hlater' hout
    rw [withReader_withReader] at hout
    refine ⟨r', hlater.trans hlater', ?_⟩
    rw [Proc.bind_of_ok hok]
    rcases hout with hout | ⟨e, he, herr⟩
    · exact Or.inl hout
    · exact Or.inr ⟨e, hlater.reports he, herr⟩
  · exact ⟨r, hlater, Or.inr ⟨e, he, Proc.bind_of_error herr f⟩⟩

theorem bind_error {f : α → Proc σ ε β} {fault : Fault ε}
    (hx : Yields wrap x s (.error fault)) : Yields wrap (x >>= f) s (.error fault) := by
  obtain ⟨r, hlater, hok | ⟨e, he, herr⟩⟩ := hx
  · exact ⟨r, hlater, Or.inl (Proc.bind_of_error hok f)⟩
  · exact ⟨r, hlater, Or.inr ⟨e, he, Proc.bind_of_error herr f⟩⟩

theorem bind {f : α → Proc σ ε β} {y : Res ε α} {g : α → Res ε β}
    (hx : Yields wrap x s y)
    (hf : ∀ a, y = .ok a → ∀ r, Later (reader s) r →
      Yields wrap (f a) (withReader s r) (g a)) :
    Yields wrap (x >>= f) s (y >>= g) := by
  cases y with
  | ok a => exact hx.bind_ok (hf a rfl)
  | error fault => exact hx.bind_error

theorem mapErr {x : Proc σ δ α} {inner : IoError → δ} {out : Res δ α} (outer : δ → ε)
    (hx : Yields inner x s out) :
    Yields (fun e ↦ outer (inner e)) (x.mapErr outer) s (Res.mapErr outer out) := by
  obtain ⟨r, hlater, hok | ⟨e, he, herr⟩⟩ := hx
  · exact ⟨r, hlater, Or.inl (Proc.mapErr_apply hok)⟩
  · exact ⟨r, hlater, Or.inr ⟨e, he, Proc.mapErr_apply herr⟩⟩

theorem of_errorFree {out : Res ε α} (hx : Yields wrap x s out) (hfree : (reader s).ErrorFree) :
    ∃ r, Later (reader s) r ∧ x s = (out, withReader s r) := by
  obtain ⟨r, hlater, hok | ⟨e, he, -⟩⟩ := hx
  · exact ⟨r, hlater, hok⟩
  · exact absurd he (hfree e)

theorem outcome_eq {out : Res ε α} (hx : Yields wrap x s out) (hfree : (reader s).ErrorFree) :
    (x s).1 = out := by
  obtain ⟨r, -, hok⟩ := hx.of_errorFree hfree
  rw [hok]

theorem noPanic {out : Res ε α} (hx : Yields wrap x s out) (hout : NoPanic out) :
    NoPanic (x s).1 := by
  obtain ⟨r, -, hok | ⟨e, -, herr⟩⟩ := hx
  · rw [hok]
    exact hout
  · rw [herr]
    exact failsOnly_error trivial

theorem of_ok {out : Res ε α} (hx : Yields wrap x s out) {a : α} {s' : σ}
    (h : x s = (.ok a, s')) : out = .ok a ∧ ∃ r, Later (reader s) r ∧ s' = withReader s r := by
  obtain ⟨r, hlater, hok | ⟨e, -, herr⟩⟩ := hx
  · rw [h] at hok
    cases hok
    exact ⟨rfl, r, hlater, rfl⟩
  · rw [h] at herr
    cases herr

end Yields

def Proc.onReader (x : Proc Reader ε α) : Proc σ ε α :=
  x.onField reader (fun r s ↦ withReader s r)

theorem Yields.onReader {wrap : IoError → ε} {x : Proc Reader ε α} {s : σ} {out : Res ε α}
    (hx : Yields wrap x (reader s) out) : Yields wrap (Proc.onReader x) s out := by
  obtain ⟨r, hlater, hok | ⟨e, he, herr⟩⟩ := hx
  · refine ⟨r, hlater, Or.inl ?_⟩
    simp only [Proc.onReader, Proc.onField, hok, withReader_self]
  · refine ⟨r, hlater, Or.inr ⟨e, he, ?_⟩⟩
    simp only [Proc.onReader, Proc.onField, herr, withReader_self]

/-! ## Positioned reads -/

/-- Seek to `offset`, then run code whose result is fixed by the bytes from
there on. -/
theorem Yields.onReader_seek_start {wrap : IoError → ε} {offset : UInt64}
    {f : ℕ → Proc σ ε β} {s : σ} {out : Res ε β}
    (hf : ∀ r, Later (reader s) r → r.cursor.rest = (reader s).image.bytes.drop offset.toNat →
      Yields wrap (f offset.toNat) (withReader s r) out) :
    Yields wrap (Proc.onReader ((Reader.seek (.start offset)).mapErr wrap) >>= f) s out := by
  obtain ⟨r₁, hlater, ⟨hok, hpos⟩ | ⟨e, he, herr⟩⟩ := seek_start_spec offset (reader s)
  · have hrest : r₁.cursor.rest = (reader s).image.bytes.drop offset.toNat := by
      rw [Cursor.rest, hpos, ← hlater.image]
      rfl
    have hseek : Proc.onReader ((Reader.seek (.start offset)).mapErr wrap) s =
        (.ok offset.toNat, withReader s r₁) := by
      simp only [Proc.onReader, Proc.onField, Proc.mapErr_apply hok, Res.mapErr_ok]
    obtain ⟨r₂, hlater₂, hout⟩ := hf r₁ hlater hrest
    rw [reader_withReader] at hlater₂ hout
    rw [withReader_withReader] at hout
    refine ⟨r₂, hlater.trans hlater₂, ?_⟩
    rw [Proc.bind_of_ok hseek]
    rcases hout with hout | ⟨e, he, herr⟩
    · exact Or.inl hout
    · exact Or.inr ⟨e, hlater.reports he, herr⟩
  · refine ⟨r₁, hlater, Or.inr ⟨e, he, ?_⟩⟩
    have hseek : Proc.onReader ((Reader.seek (.start offset)).mapErr wrap) s =
        (.error (.err (wrap e)), withReader s r₁) := by
      simp only [Proc.onReader, Proc.onField, Proc.mapErr_apply herr, Res.mapErr_err]
    exact Proc.bind_of_error hseek f

theorem Yields.seek_start {wrap : IoError → ε} {offset : UInt64}
    {f : ℕ → Proc Reader ε β} {r : Reader} {out : Res ε β}
    (hf : ∀ r', Later r r' → r'.cursor.rest = r.image.bytes.drop offset.toNat →
      Yields wrap (f offset.toNat) r' out) :
    Yields wrap ((Reader.seek (.start offset)).mapErr wrap >>= f) r out :=
  Yields.onReader_seek_start hf

def exactly (want : ℕ) (rest : List UInt8) : Res IoError (List UInt8) :=
  if want ≤ rest.length then .ok (rest.take want) else .error (.err unexpectedEof)

theorem yields_readExact (want : ℕ) (r : Reader) :
    Yields id (Reader.readExact want) r (exactly want r.cursor.rest) := by
  unfold exactly
  obtain ⟨r', hlater, ⟨hlen, hok⟩ | ⟨hlen, hok⟩ | ⟨e, he, herr⟩⟩ := readExact_spec want r
  · rw [if_pos hlen]
    exact ⟨r', hlater, Or.inl hok⟩
  · rw [if_neg (by omega)]
    exact ⟨r', hlater, Or.inl hok⟩
  · exact ⟨r', hlater, Or.inr ⟨e, he, herr⟩⟩

end RustStd
