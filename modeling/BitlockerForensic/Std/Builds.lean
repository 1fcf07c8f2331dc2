import BitlockerForensic.Std.Eval

/-!
# Checked and wrapping builds

One text compiled twice: the checked build panics where a sum overflows, and the
wrapping build goes on with the sum modulo `2 ^ w`.  Where the first does not panic
the two do the same, and this carries over from the parts of a computation to the
whole.
-/

namespace RustStd

variable {σ τ δ ε α β : Type}

/-- `x` is `y`, unless it panics over an overflow. -/
def Eval.Checks (x y : Eval α) : Prop := x = .error .overflow ∨ x = y

namespace Eval.Checks

theorem refl (x : Eval α) : x.Checks x := Or.inr rfl

theorem bind {x y : Eval α} {f g : α → Eval β} (hx : x.Checks y) (hf : ∀ a, (f a).Checks (g a)) :
    Eval.Checks (x >>= f) (y >>= g) := by
  rcases hx with rfl | rfl
  · exact Or.inl rfl
  · cases x with
    | error cause => exact Or.inr rfl
    | ok a => exact hf a

theorem addUsize (a b : ℕ) :
    (Profile.debug.addUsize a b).Checks (Profile.release.addUsize a b) := by
  unfold Profile.addUsize Profile.add
  split
  · exact Or.inr rfl
  · exact Or.inl rfl

theorem addU64 (a b : UInt64) :
    (Profile.debug.addU64 a b).Checks (Profile.release.addU64 a b) := by
  by_cases h : a.toNat + b.toNat < 2 ^ 64
  · exact Or.inr (by rw [Profile.addU64_ok .debug h, Profile.addU64_ok .release h])
  · exact Or.inl (Profile.addU64_debug_overflow h)

end Eval.Checks

/-- From every state `x` does what `y` does, unless it panics over an overflow. -/
def Proc.Checks (x y : Proc σ ε α) : Prop :=
  ∀ s, (∃ s', x s = (.error (.panic .overflow), s')) ∨ x s = y s

namespace Proc.Checks

variable {x y : Proc σ ε α}

theorem refl (x : Proc σ ε α) : x.Checks x := fun _ ↦ Or.inr rfl

theorem lift {e e' : Eval α} (h : e.Checks e') :
    Proc.Checks (liftM e : Proc σ ε α) (liftM e' : Proc σ ε α) := by
  intro s
  rcases h with rfl | rfl
  · exact Or.inl ⟨s, rfl⟩
  · exact Or.inr rfl

theorem bind {f g : α → Proc σ ε β} (hx : x.Checks y) (hf : ∀ a, (f a).Checks (g a)) :
    Proc.Checks (x >>= f) (y >>= g) := by
  intro s
  rcases hx s with ⟨s', hpanic⟩ | heq
  · exact Or.inl ⟨s', bind_of_error hpanic f⟩
  · rw [bind_apply, bind_apply, ← heq]
    rcases x s with ⟨fault | a, s'⟩
    · exact Or.inr rfl
    · exact hf a s'

theorem mapErr {wrap : δ → ε} {x y : Proc σ δ α} (hx : x.Checks y) :
    Proc.Checks (x.mapErr wrap) (y.mapErr wrap) := by
  intro s
  rcases hx s with ⟨s', hpanic⟩ | heq
  · exact Or.inl ⟨s', mapErr_apply hpanic⟩
  · right
    rw [Proc.mapErr, Proc.mapErr, heq]

theorem onField {get : σ → τ} {set : τ → σ → σ} {x y : Proc τ ε α} (hx : x.Checks y) :
    Proc.Checks (x.onField get set) (y.onField get set) := by
  intro s
  rcases hx (get s) with ⟨t, hpanic⟩ | heq
  · left
    rw [Proc.onField, hpanic]
    exact ⟨_, rfl⟩
  · right
    rw [Proc.onField, Proc.onField, heq]

theorem ite {c : Prop} [Decidable c] {x' y' : Proc σ ε α} (hx : x.Checks y) (hy : x'.Checks y') :
    Proc.Checks (if c then x else x') (if c then y else y') := by
  split
  · exact hx
  · exact hy

end Proc.Checks

end RustStd
