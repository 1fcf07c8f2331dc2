import Mathlib.Data.List.Basic
import Mathlib.Tactic.Ring

/-!
# Evaluation of panicking code

A Rust expression either yields a value or panics.  Overflowing sums panic
only under the `debug` profile; under `release` they wrap.  Slices, fixed-size
copies and loops with a step budget report their failure as a `Panic`, so that
"never panics" is a statement about the value a definition computes.
-/

namespace RustStd

/-- The two overflow regimes of a build. -/
inductive Profile where
  | debug
  | release
  deriving DecidableEq, Repr

inductive Panic where
  | overflow
  | sliceIndex
  | copyLength
  | outOfFuel
  deriving DecidableEq, Repr

abbrev Eval (α : Type) := Except Panic α

/-- How a fallible operation ends without a value: with an error it reports,
or by panicking. -/
inductive Fault (ε : Type) where
  | err (e : ε)
  | panic (cause : Panic)
  deriving DecidableEq, Repr

abbrev Res (ε α : Type) := Except (Fault ε) α

namespace Eval

def toRes {ε α : Type} : Eval α → Res ε α
  | .ok a => .ok a
  | .error cause => .error (.panic cause)

@[simp] theorem toRes_ok {ε α : Type} (a : α) :
    (toRes (.ok a : Eval α) : Res ε α) = .ok a := rfl

@[simp] theorem toRes_error {ε α : Type} (cause : Panic) :
    (toRes (.error cause : Eval α) : Res ε α) = .error (.panic cause) := rfl

theorem toRes_eq_ok {ε α : Type} {x : Eval α} {a : α} :
    (x.toRes : Res ε α) = .ok a ↔ x = .ok a := by
  cases x <;> simp

end Eval

instance {ε : Type} : MonadLift Eval (Res ε) where
  monadLift := Eval.toRes

@[simp] theorem monadLift_ok {ε α : Type} (a : α) :
    (liftM (Except.ok a : Eval α) : Res ε α) = .ok a := rfl

@[simp] theorem monadLift_error {ε α : Type} (cause : Panic) :
    (liftM (Except.error cause : Eval α) : Res ε α) = .error (.panic cause) := rfl

@[simp] theorem ok_bind {ε α β : Type} (a : α) (f : α → Except ε β) :
    (Except.ok a >>= f) = f a := rfl

@[simp] theorem error_bind {ε α β : Type} (e : ε) (f : α → Except ε β) :
    (Except.error e >>= f) = .error e := rfl

theorem bind_eq_ok {ε α β : Type} {x : Except ε α} {f : α → Except ε β} {b : β} :
    (x >>= f) = .ok b ↔ ∃ a, x = .ok a ∧ f a = .ok b := by
  cases x with
  | error e => simp
  | ok a => simp

theorem bind_eq_error {ε α β : Type} {x : Except ε α} {f : α → Except ε β} {e : ε} :
    (x >>= f) = .error e ↔ x = .error e ∨ ∃ a, x = .ok a ∧ f a = .error e := by
  cases x with
  | error e' => simp
  | ok a => simp

theorem findM?_ok {ε α : Type} {f : α → Except ε Bool} {g : α → Bool}
    (h : ∀ a, f a = .ok (g a)) (l : List α) : l.findM? f = .ok (l.find? g) := by
  induction l with
  | nil => rfl
  | cons a l ih =>
      rw [List.findM?, h a, ok_bind]
      cases hg : g a with
      | true => simp [List.find?, hg, pure, Except.pure]
      | false => simp [List.find?, hg, ih]

theorem filterMapM_ok {ε α β : Type} {f : α → Except ε (Option β)} {g : α → Option β}
    (h : ∀ a, f a = .ok (g a)) (l : List α) : l.filterMapM f = .ok (l.filterMap g) := by
  have hloop : ∀ (l : List α) (acc : List β),
      List.filterMapM.loop f l acc = .ok (acc.reverse ++ l.filterMap g) := by
    intro l
    induction l with
    | nil => intro acc; simp [List.filterMapM.loop, pure, Except.pure]
    | cons a l ih =>
        intro acc
        rw [List.filterMapM.loop, h a, ok_bind]
        cases hg : g a with
        | none => simp [hg, ih]
        | some b => simp [hg, ih]
  simpa [List.filterMapM] using hloop l []

theorem mapM_ok {ε α β : Type} {f : α → Except ε β} {g : α → β} {l : List α}
    (h : ∀ a ∈ l, f a = .ok (g a)) : l.mapM f = .ok (l.map g) := by
  induction l with
  | nil => rfl
  | cons a l ih =>
      have htail := ih fun b hb ↦ h b (List.mem_cons_of_mem a hb)
      rw [List.mapM_cons, h a List.mem_cons_self, ok_bind, htail]
      rfl

theorem mapM_eq_ok {ε α β : Type} {f : α → Except ε β} {g : α → β} {l : List α} {bs : List β}
    (h : ∀ a ∈ l, ∀ b, f a = .ok b → b = g a) (hbs : l.mapM f = .ok bs) : bs = l.map g := by
  induction l generalizing bs with
  | nil =>
      cases hbs
      rfl
  | cons a l ih =>
      rw [List.mapM_cons] at hbs
      obtain ⟨b, hb, hrest⟩ := bind_eq_ok.mp hbs
      obtain ⟨tail, htail, hpure⟩ := bind_eq_ok.mp hrest
      cases hpure
      rw [List.map_cons, h a List.mem_cons_self b hb,
        ih (fun a' ha' ↦ h a' (List.mem_cons_of_mem a ha')) htail]

theorem exists_mapM_eq_ok {ε α β : Type} {f : α → Except ε β} {l : List α} :
    (∃ bs, l.mapM f = .ok bs) ↔ ∀ a ∈ l, ∃ b, f a = .ok b := by
  induction l with
  | nil => simp [pure, Except.pure]
  | cons a l ih =>
      rw [List.mapM_cons, List.forall_mem_cons, ← ih]
      cases f a with
      | error e => simp
      | ok b =>
          cases l.mapM f with
          | error e => simp
          | ok bs => simp [pure, Except.pure]

def okOr {ε α : Type} (o : Option α) (e : ε) : Res ε α :=
  match o with
  | some a => .ok a
  | none => .error (.err e)

@[simp] theorem okOr_some {ε α : Type} (a : α) (e : ε) : okOr (some a) e = .ok a := rfl

@[simp] theorem okOr_none {ε α : Type} (e : ε) :
    okOr (none : Option α) e = .error (.err e) := rfl

theorem okOr_eq_ok {ε α : Type} {o : Option α} {e : ε} {a : α} :
    okOr o e = .ok a ↔ o = some a := by
  cases o <;> simp

theorem okOr_eq_err {ε α : Type} {o : Option α} {e e' : ε} :
    (okOr o e : Res ε α) = .error (.err e') ↔ o = none ∧ e = e' := by
  cases o <;> simp

def Res.mapErr {δ ε α : Type} (wrap : δ → ε) : Res δ α → Res ε α
  | .ok a => .ok a
  | .error (.err e) => .error (.err (wrap e))
  | .error (.panic cause) => .error (.panic cause)

@[simp] theorem Res.mapErr_ok {δ ε α : Type} (wrap : δ → ε) (a : α) :
    Res.mapErr wrap (.ok a : Res δ α) = .ok a := rfl

@[simp] theorem Res.mapErr_err {δ ε α : Type} (wrap : δ → ε) (e : δ) :
    Res.mapErr wrap (.error (.err e) : Res δ α) = .error (.err (wrap e)) := rfl

@[simp] theorem Res.mapErr_panic {δ ε α : Type} (wrap : δ → ε) (cause : Panic) :
    Res.mapErr wrap (.error (.panic cause) : Res δ α) = .error (.panic cause) := rfl

/-- Every fault the computation can end with is an allowed one. -/
def FailsOnly {ε α : Type} (allowed : Fault ε → Prop) (x : Res ε α) : Prop :=
  ∀ fault, x = .error fault → allowed fault

section FailsOnly

variable {ε α β : Type} {allowed : Fault ε → Prop} {x : Res ε α}

theorem failsOnly_ok (a : α) : FailsOnly allowed (.ok a : Res ε α) := by
  intro fault h
  cases h

theorem failsOnly_error {fault : Fault ε} (h : allowed fault) :
    FailsOnly allowed (.error fault : Res ε α) := by
  intro fault' h'
  cases h'
  exact h

theorem failsOnly_okOr (o : Option α) {e : ε} (h : allowed (.err e)) :
    FailsOnly allowed (okOr o e) := by
  cases o with
  | none => exact failsOnly_error h
  | some a => exact failsOnly_ok a

theorem failsOnly_ite {c : Prop} [Decidable c] {y : Res ε α} (hx : FailsOnly allowed x)
    (hy : FailsOnly allowed y) : FailsOnly allowed (if c then x else y) := by
  split
  · exact hx
  · exact hy

theorem FailsOnly.bind {f : α → Res ε β} (hx : FailsOnly allowed x)
    (hf : ∀ a, x = .ok a → FailsOnly allowed (f a)) : FailsOnly allowed (x >>= f) := by
  cases x with
  | ok a => exact hf a rfl
  | error fault => exact failsOnly_error (hx fault rfl)

theorem FailsOnly.mono {allowed' : Fault ε → Prop} (hx : FailsOnly allowed x)
    (hsub : ∀ fault, allowed fault → allowed' fault) : FailsOnly allowed' x :=
  fun fault h ↦ hsub fault (hx fault h)

end FailsOnly

def Fault.IsReported {ε : Type} : Fault ε → Prop
  | .err _ => True
  | .panic _ => False

def NoPanic {ε α : Type} (x : Res ε α) : Prop := FailsOnly Fault.IsReported x

/-! ## Machine arithmetic -/

namespace Profile

def add (p : Profile) (w a b : ℕ) : Eval ℕ :=
  if a + b < 2 ^ w then .ok (a + b)
  else match p with
    | .debug => .error .overflow
    | .release => .ok ((a + b) % 2 ^ w)

def addUsize (p : Profile) (a b : ℕ) : Eval ℕ := p.add 64 a b

def subUsize (p : Profile) (a b : ℕ) : Eval ℕ :=
  if b ≤ a then .ok (a - b)
  else match p with
    | .debug => .error .overflow
    | .release => .ok (2 ^ 64 + a - b)

def addU64 (p : Profile) (a b : UInt64) : Eval UInt64 :=
  UInt64.ofNat <$> p.add 64 a.toNat b.toNat

def mulU64 (p : Profile) (a b : UInt64) : Eval UInt64 :=
  if a.toNat * b.toNat < 2 ^ 64 then .ok (a * b)
  else match p with
    | .debug => .error .overflow
    | .release => .ok (a * b)

theorem addUsize_ok (p : Profile) {a b : ℕ} (h : a + b < 2 ^ 64) :
    p.addUsize a b = .ok (a + b) := by
  simp only [addUsize, add, if_pos h]

theorem subUsize_ok (p : Profile) {a b : ℕ} (h : b ≤ a) :
    p.subUsize a b = .ok (a - b) := by
  simp only [subUsize, if_pos h]

theorem addU64_ok (p : Profile) {a b : UInt64} (h : a.toNat + b.toNat < 2 ^ 64) :
    p.addU64 a b = .ok (a + b) := by
  have hsum : UInt64.ofNat (a.toNat + b.toNat) = a + b := by
    apply UInt64.toNat_inj.mp
    rw [UInt64.toNat_ofNat', UInt64.toNat_add]
  simp only [addU64, add, if_pos h, ← hsum]
  rfl

theorem mulU64_ok (p : Profile) {a b : UInt64} (h : a.toNat * b.toNat < 2 ^ 64) :
    p.mulU64 a b = .ok (a * b) := by
  simp only [mulU64, if_pos h]

@[simp] theorem addU64_release (a b : UInt64) : release.addU64 a b = .ok (a + b) := by
  by_cases h : a.toNat + b.toNat < 2 ^ 64
  · exact addU64_ok release h
  · have hsum : UInt64.ofNat ((a.toNat + b.toNat) % 2 ^ 64) = a + b := by
      apply UInt64.toNat_inj.mp
      rw [UInt64.toNat_ofNat', UInt64.toNat_add, Nat.mod_mod]
    simp only [addU64, add, if_neg h, ← hsum]
    rfl

theorem addU64_eq_of_ok {p : Profile} {a b c : UInt64} (h : p.addU64 a b = .ok c) :
    c = a + b := by
  cases p with
  | release =>
      rw [addU64_release] at h
      cases h
      rfl
  | debug =>
      by_cases hfit : a.toNat + b.toNat < 2 ^ 64
      · rw [addU64_ok debug hfit] at h
        cases h
        rfl
      · simp only [addU64, add, if_neg hfit] at h
        cases h

theorem addU64_debug_overflow {a b : UInt64} (h : ¬ a.toNat + b.toNat < 2 ^ 64) :
    debug.addU64 a b = .error .overflow := by
  simp only [addU64, add, if_neg h]
  rfl

end Profile

def saturatingAdd (a b : ℕ) : ℕ := min (a + b) (2 ^ 64 - 1)

def saturatingMulU64 (a b : UInt64) : UInt64 :=
  UInt64.ofNat (min (a.toNat * b.toNat) (2 ^ 64 - 1))

/-! ## Code over mutable state

The state survives both an error return and an unwinding panic, so a failed
call still shows what it changed. -/

def Proc (σ ε α : Type) := σ → Res ε α × σ

namespace Proc

variable {σ τ ε α β : Type}

instance : Monad (Proc σ ε) where
  pure a := fun s ↦ (.ok a, s)
  bind x f := fun s ↦
    match x s with
    | (.ok a, s') => f a s'
    | (.error fault, s') => (.error fault, s')

instance : MonadLift (Res ε) (Proc σ ε) where
  monadLift x := fun s ↦ (x, s)

@[simp] theorem pure_apply (a : α) (s : σ) : (pure a : Proc σ ε α) s = (.ok a, s) := rfl

theorem bind_apply (x : Proc σ ε α) (f : α → Proc σ ε β) (s : σ) :
    (x >>= f) s = match x s with
      | (.ok a, s') => f a s'
      | (.error fault, s') => (.error fault, s') := rfl

@[simp] theorem lift_apply (x : Res ε α) (s : σ) :
    (liftM x : Proc σ ε α) s = (x, s) := rfl

@[simp] theorem lift_eval_apply (x : Eval α) (s : σ) :
    (liftM x : Proc σ ε α) s = (x.toRes, s) := rfl

theorem bind_of_ok {x : Proc σ ε α} {s s' : σ} {a : α} (h : x s = (.ok a, s'))
    (f : α → Proc σ ε β) : (x >>= f) s = f a s' := by
  rw [bind_apply, h]

theorem bind_of_error {x : Proc σ ε α} {s s' : σ} {fault : Fault ε}
    (h : x s = (.error fault, s')) (f : α → Proc σ ε β) :
    (x >>= f) s = (.error fault, s') := by
  rw [bind_apply, h]

theorem bind_assoc {γ : Type} (x : Proc σ ε α) (f : α → Proc σ ε β) (g : β → Proc σ ε γ) :
    (x >>= f) >>= g = x >>= fun a ↦ f a >>= g := by
  funext s
  simp only [bind_apply]
  rcases x s with ⟨fault | a, s'⟩ <;> rfl

theorem bind_eq_ok {x : Proc σ ε α} {f : α → Proc σ ε β} {s s' : σ} {b : β} :
    (x >>= f) s = (.ok b, s') ↔ ∃ a s₁, x s = (.ok a, s₁) ∧ f a s₁ = (.ok b, s') := by
  rw [bind_apply]
  rcases x s with ⟨fault | a, s₁⟩
  · simp
  · simp

theorem lift_eval_eq_ok {y : Eval α} {s s' : σ} {a : α} :
    (liftM y : Proc σ ε α) s = (.ok a, s') ↔ y = .ok a ∧ s = s' := by
  rw [lift_eval_apply, Prod.mk.injEq, Eval.toRes_eq_ok]

def fail (e : ε) : Proc σ ε α := fun s ↦ (.error (.err e), s)

@[simp] theorem fail_apply (e : ε) (s : σ) :
    (fail e : Proc σ ε α) s = (.error (.err e), s) := rfl

/-- Hand the error of an operation to the caller as a value (`match`). -/
def attempt {δ : Type} (x : Proc σ δ α) : Proc σ ε (Except δ α) := fun s ↦
  match x s with
  | (.ok a, s') => (.ok (.ok a), s')
  | (.error (.err e), s') => (.ok (.error e), s')
  | (.error (.panic cause), s') => (.error (.panic cause), s')

def mapErr {δ : Type} (wrap : δ → ε) (x : Proc σ δ α) : Proc σ ε α := fun s ↦
  (Res.mapErr wrap (x s).1, (x s).2)

theorem mapErr_apply {δ : Type} {wrap : δ → ε} {x : Proc σ δ α} {s s' : σ} {out : Res δ α}
    (h : x s = (out, s')) : x.mapErr wrap s = (Res.mapErr wrap out, s') := by
  rw [mapErr, h]

def modify (f : σ → σ) : Proc σ ε Unit := fun s ↦ (.ok (), f s)

@[simp] theorem modify_apply (f : σ → σ) (s : σ) :
    (modify f : Proc σ ε Unit) s = (.ok (), f s) := rfl

def onField (get : σ → τ) (set : τ → σ → σ) (x : Proc τ ε α) : Proc σ ε α := fun s ↦
  ((x (get s)).1, set (x (get s)).2 s)

end Proc

end RustStd
