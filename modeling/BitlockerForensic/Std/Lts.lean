import Mathlib.Data.List.Basic

/-!
# Labelled transitions

Finite runs of a labelled transition relation, the invariant rule, and forward
simulation: when every step of one system is matched by a step of another with
the same label, every run is.  Labels that the other system does not see are
matched by no step of it.
-/

namespace Lts

variable {σ τ ℓ ℓ' : Type}

/-- The finite runs of a transition relation, with their labels in order. -/
inductive Run (step : σ → ℓ → σ → Prop) : σ → List ℓ → σ → Prop where
  | nil (s : σ) : Run step s [] s
  | cons {s t u : σ} {l : ℓ} {ls : List ℓ} :
      step s l t → Run step t ls u → Run step s (l :: ls) u

variable {step : σ → ℓ → σ → Prop} {spec : τ → ℓ → τ → Prop}

namespace Run

theorem single {s t : σ} {l : ℓ} (h : step s l t) : Run step s [l] t :=
  .cons h (.nil t)

theorem invariant {Inv : σ → Prop} (hstep : ∀ s l t, Inv s → step s l t → Inv t)
    {s u : σ} {ls : List ℓ} (hrun : Run step s ls u) (hs : Inv s) : Inv u := by
  induction hrun with
  | nil s => exact hs
  | cons h _ ih => exact ih (hstep _ _ _ hs h)

theorem mono {step' : σ → ℓ → σ → Prop} (hsub : ∀ s l t, step s l t → step' s l t)
    {s u : σ} {ls : List ℓ} (hrun : Run step s ls u) : Run step' s ls u := by
  induction hrun with
  | nil s => exact .nil s
  | cons h _ ih => exact .cons (hsub _ _ _ h) ih

/-- Forward simulation, from one step to a whole run. -/
theorem simulate {R : σ → τ → Prop}
    (hsim : ∀ s t l s', R s t → step s l s' → ∃ t', spec t l t' ∧ R s' t')
    {s s' : σ} {ls : List ℓ} (hrun : Run step s ls s') {t : τ} (hrel : R s t) :
    ∃ t', Run spec t ls t' ∧ R s' t' := by
  induction hrun generalizing t with
  | nil s => exact ⟨t, .nil t, hrel⟩
  | cons h _ ih =>
      obtain ⟨t₁, hspec, hrel₁⟩ := hsim _ _ _ _ hrel h
      obtain ⟨t₂, hspecs, hrel₂⟩ := ih hrel₁
      exact ⟨t₂, .cons hspec hspecs, hrel₂⟩

theorem append {s t u : σ} {ls ls' : List ℓ} (hrun : Run step s ls t)
    (hrun' : Run step t ls' u) : Run step s (ls ++ ls') u := by
  induction hrun with
  | nil s => exact hrun'
  | cons h _ ih => exact .cons h (ih hrun')

/-- A run that another relation follows until, perhaps, one of its steps goes wrong. -/
theorem follow {step' : σ → ℓ → σ → Prop} {wrong : ℓ → ℓ → Prop}
    (hstep : ∀ s l t, step s l t → step' s l t ∨ ∃ l' t', step' s l' t' ∧ wrong l l')
    {s u : σ} {ls : List ℓ} (hrun : Run step s ls u) :
    Run step' s ls u ∨ ∃ before l after t l' t', ls = before ++ l :: after ∧
      Run step' s before t ∧ step' t l' t' ∧ wrong l l' := by
  induction hrun with
  | nil s => exact Or.inl (.nil s)
  | @cons s t u l ls h _ ih =>
      rcases hstep s l t h with hl | ⟨l', t', hl', hwrong⟩
      · rcases ih with hrest | ⟨before, m, after, t₁, m', t₁', rfl, hbefore, hm', hwrong⟩
        · exact Or.inl (.cons hl hrest)
        · exact Or.inr ⟨l :: before, m, after, t₁, m', t₁', rfl, .cons hl hbefore, hm', hwrong⟩
      · exact Or.inr ⟨[], l, ls, s, l', t', rfl, .nil s, hl', hwrong⟩

/-- Forward simulation by a system that sees only some of the labels. -/
theorem simulate_effects {spec : τ → ℓ' → τ → Prop} (effect : ℓ → Option ℓ') {R : σ → τ → Prop}
    (hsim : ∀ s t l s', R s t → step s l s' → ∃ t', Run spec t (effect l).toList t' ∧ R s' t')
    {s s' : σ} {ls : List ℓ} (hrun : Run step s ls s') {t : τ} (hrel : R s t) :
    ∃ t', Run spec t (ls.filterMap effect) t' ∧ R s' t' := by
  induction hrun generalizing t with
  | nil s => exact ⟨t, .nil t, hrel⟩
  | @cons _ _ _ l ls h _ ih =>
      obtain ⟨t₁, hspec, hrel₁⟩ := hsim _ _ _ _ hrel h
      obtain ⟨t₂, hspecs, hrel₂⟩ := ih hrel₁
      rw [List.filterMap_eq_flatMap_toList] at hspecs ⊢
      exact ⟨t₂, hspec.append hspecs, hrel₂⟩

/-- A property of each step from a state with the invariant holds of every
label of a run. -/
theorem forall_labels {Inv : σ → Prop} {Q : ℓ → Prop}
    (hstep : ∀ s l t, Inv s → step s l t → Inv t ∧ Q l)
    {s u : σ} {ls : List ℓ} (hrun : Run step s ls u) (hs : Inv s) : ∀ l ∈ ls, Q l := by
  induction hrun with
  | nil s => simp
  | cons h _ ih =>
      obtain ⟨ht, hq⟩ := hstep _ _ _ hs h
      exact List.forall_mem_cons.mpr ⟨hq, ih ht⟩

end Run

end Lts
