import BitlockerForensic.Core.Safety
import BitlockerForensic.Core.Vfs

/-!
# Opening a layer with many credentials

`open` walks the offered credentials and keeps the last error.  Its result is
that of the first credential that unlocks the volume; when none does, it depends
only on the attempts that were made.
-/

namespace Bitlocker

open RustStd

/-- A password or a recovery key: the credentials that `open` makes an attempt with. -/
def VfsCredential.isWired {V : VfsCrate} : VfsCredential V → Bool
  | .password _ => true
  | .recoveryKey _ => true
  | .other _ => false

/-- The credential that the layer tries, if it tries one. -/
def VfsCredential.toCredential {V : VfsCrate} : VfsCredential V → Option Credential
  | .password text => some (.password text)
  | .recoveryKey text => some (.recoveryPassword text)
  | .other _ => none

namespace BitlockerLayer

variable (P : Crates) (p : Profile) {V : VfsCrate} (layer : BitlockerLayer V)

/-! ## One attempt -/

/-- A credential that the layer tries, and that unlocks the source on its own, from a
fresh cursor. -/
def Unlocks (c : VfsCredential V) : Prop :=
  ∃ cred vol, c.toCredential = some cred ∧
    cred.unlock P p (V.sourceCursor layer.encrypted 0 layer.len) = .ok vol

theorem attempt_eq_some {c : VfsCredential V}
    {result : Res BdeError (DecryptedVolume (SectorCipher P))} :
    layer.attempt P p c = some result ↔ ∃ cred, c.toCredential = some cred ∧
      cred.unlock P p (V.sourceCursor layer.encrypted 0 layer.len) = result := by
  rw [← Option.map_eq_some_iff]
  cases c <;> rfl

theorem unlocks_iff {c : VfsCredential V} :
    layer.Unlocks P p c ↔ ∃ vol, layer.attempt P p c = some (.ok vol) := by
  simp only [Unlocks, attempt_eq_some]
  exact exists_comm

def failure (cred : VfsCredential V) : Option BdeError :=
  match layer.attempt P p cred with
  | some (.error (.err e)) => some e
  | _ => none

/-- An attempt is skipped, unlocks, or fails with an error; it never panics. -/
theorem attempt_cases (cred : VfsCredential V) :
    (cred.isWired = false ∧ layer.attempt P p cred = none) ∨
      (cred.isWired = true ∧ ((∃ vol, layer.attempt P p cred = some (.ok vol)) ∨
        ∃ e, layer.attempt P p cred = some (.error (.err e)))) := by
  have hresult : ∀ result : Res BdeError (DecryptedVolume (SectorCipher P)), NoPanic result →
      (∃ vol, some result = some (.ok vol)) ∨ ∃ e, some result = some (.error (.err e)) := by
    rintro ((e | cause) | vol) hpanic
    · exact Or.inr ⟨e, rfl⟩
    · exact absurd (hpanic _ rfl) id
    · exact Or.inl ⟨vol, rfl⟩
  cases cred with
  | other cred => exact Or.inl ⟨rfl, rfl⟩
  | password text =>
      exact Or.inr ⟨rfl, hresult _ (unlock_noPanic P p _ _ _ _)⟩
  | recoveryKey text =>
      refine Or.inr ⟨rfl, hresult _ ?_⟩
      have hhash := recoveryKeyHash_noPanic P text
      rw [unlockWithRecoveryPassword]
      split
      · exact unlock_noPanic P p _ _ _ _
      · exact failsOnly_error trivial
      · rename_i cause hcause
        exact absurd (hhash _ hcause) id

/-! ## The loop -/

def opened (cands : List (VfsCredential V)) : Option (DecryptedVolume (SectorCipher P)) :=
  cands.findSome? fun cred ↦ (layer.attempt P p cred).bind Except.toOption

def lastFailure (cands : List (VfsCredential V)) : Option BdeError :=
  (cands.filterMap (layer.failure P p)).getLast?

def result (cands : List (VfsCredential V)) (lastErr : Option BdeError) :
    Res VfsError (BitlockerSource (SectorCipher P)) :=
  match layer.opened P p cands with
  | some vol => .ok (BitlockerSource.new vol)
  | none => .error (.err ((((layer.lastFailure P p cands).or lastErr).map mapBdeErr).getD
      needCredentials))

theorem openLoop_eq_result (cands : List (VfsCredential V)) (lastErr : Option BdeError) :
    layer.openLoop P p cands lastErr = layer.result P p cands lastErr := by
  induction cands generalizing lastErr with
  | nil => rfl
  | cons cred cands ih =>
      rcases layer.attempt_cases P p cred with ⟨-, hskip⟩ | ⟨-, ⟨vol, hvol⟩ | ⟨e, he⟩⟩
      · have hfailure : layer.failure P p cred = none := by rw [failure, hskip]
        simp only [openLoop, hskip, ih, result, opened, lastFailure, List.findSome?_cons,
          List.filterMap_cons, hfailure, Option.bind_none]
      · simp only [openLoop, hvol, result, opened, List.findSome?_cons, Option.bind_some,
          Except.toOption]
      · have hfailure : layer.failure P p cred = some e := by rw [failure, he]
        simp only [openLoop, he, ih, result, opened, lastFailure, List.findSome?_cons,
          List.filterMap_cons, hfailure, Option.bind_some, Except.toOption, List.getLast?_cons]
        cases (cands.filterMap (layer.failure P p)).getLast? <;> rfl

theorem openWith_eq_result (creds : CredentialSource V) :
    layer.openWith P p creds = layer.result P p (creds V.bitlocker "") none := by
  simp only [openWith, openLoop_eq_result]
  cases creds V.bitlocker "" <;> rfl

/-! ## What the result depends on -/

section Result

variable {P p layer} {cands : List (VfsCredential V)}

theorem opened_eq_none :
    layer.opened P p cands = none ↔ ∀ cred ∈ cands, ¬ layer.Unlocks P p cred := by
  rw [opened, List.findSome?_eq_none_iff]
  refine forall₂_congr fun cred _ ↦ ?_
  rcases layer.attempt_cases P p cred with ⟨-, hskip⟩ | ⟨-, ⟨vol, hvol⟩ | ⟨e, he⟩⟩
  · simp [unlocks_iff, hskip]
  · simp [unlocks_iff, hvol, Except.toOption]
  · simp [unlocks_iff, he, Except.toOption]

theorem opened_of_first {before after : List (VfsCredential V)} {cred : VfsCredential V}
    {vol : DecryptedVolume (SectorCipher P)} (hbefore : ∀ c ∈ before, ¬ layer.Unlocks P p c)
    (hcred : layer.attempt P p cred = some (.ok vol)) :
    layer.opened P p (before ++ cred :: after) = some vol := by
  have hnone : layer.opened P p before = none := opened_eq_none.mpr hbefore
  rw [opened] at hnone
  rw [opened, List.findSome?_append, hnone, Option.none_or, List.findSome?_cons, hcred]
  rfl

/-- A credential that is malformed unlocks nothing. -/
theorem not_unlocks_of_unwrap {c : VfsCredential V} {cred : Credential} {fault : Fault BdeError}
    (hcred : c.toCredential = some cred) (h : cred.unwrap P p = .error fault) :
    ¬ layer.Unlocks P p c := by
  rintro ⟨cred', vol, hcred', hunlock⟩
  cases hcred.symm.trans hcred'
  obtain ⟨unwrap, hunwrap, -⟩ := Credential.opened P hunlock
  rw [h] at hunwrap
  cases hunwrap

theorem failure_of_not_wired {cred : VfsCredential V} (h : cred.isWired = false) :
    layer.failure P p cred = none := by
  rcases layer.attempt_cases P p cred with ⟨-, hskip⟩ | ⟨hwired, -⟩
  · rw [failure, hskip]
  · rw [h] at hwired
    cases hwired

theorem failure_of_wired {cred : VfsCredential V} (h : cred.isWired = true)
    (hlocked : ¬ layer.Unlocks P p cred) :
    ∃ e, layer.attempt P p cred = some (.error (.err e)) ∧ layer.failure P p cred = some e := by
  rcases layer.attempt_cases P p cred with ⟨hskip, -⟩ | ⟨-, hvol | ⟨e, he⟩⟩
  · rw [h] at hskip
    cases hskip
  · exact absurd ((layer.unlocks_iff P p).mpr hvol) hlocked
  · exact ⟨e, he, by rw [failure, he]⟩

theorem lastFailure_of_not_wired (h : ∀ cred ∈ cands, cred.isWired = false) :
    layer.lastFailure P p cands = none := by
  have hnil : cands.filterMap (layer.failure P p) = [] :=
    List.filterMap_eq_nil_iff.mpr fun cred hcred ↦ failure_of_not_wired (h cred hcred)
  rw [lastFailure, hnil]
  rfl

theorem lastFailure_of_last {before after : List (VfsCredential V)} {cred : VfsCredential V}
    {e : BdeError} (he : layer.failure P p cred = some e)
    (hafter : ∀ c ∈ after, c.isWired = false) :
    layer.lastFailure P p (before ++ cred :: after) = some e := by
  have hnil : after.filterMap (layer.failure P p) = [] :=
    List.filterMap_eq_nil_iff.mpr fun c hc ↦ failure_of_not_wired (hafter c hc)
  rw [lastFailure, List.filterMap_append, List.filterMap_cons_some he, hnil,
    List.getLast?_concat]

theorem exists_lastFailure {cred : VfsCredential V} (hmem : cred ∈ cands)
    (hwired : cred.isWired = true) (hlocked : ¬ layer.Unlocks P p cred) :
    ∃ e, layer.lastFailure P p cands = some e := by
  obtain ⟨e, -, he⟩ := failure_of_wired hwired hlocked
  have hfailures : e ∈ cands.filterMap (layer.failure P p) :=
    List.mem_filterMap.mpr ⟨cred, hmem, he⟩
  exact ⟨_, List.getLast?_eq_getLast_of_ne_nil (List.ne_nil_of_mem hfailures)⟩

theorem result_of_locked (h : ∀ cred ∈ cands, ¬ layer.Unlocks P p cred) :
    layer.result P p cands none =
      .error (.err (((layer.lastFailure P p cands).map mapBdeErr).getD needCredentials)) := by
  rw [result, opened_eq_none.mpr h, Option.or_none]

theorem exists_result_ok :
    (∃ s, layer.result P p cands none = .ok s) ↔ ∃ cred ∈ cands, layer.Unlocks P p cred := by
  constructor
  · rintro ⟨s, hs⟩
    by_contra hnone
    rw [result_of_locked fun cred hcred hunlocks ↦ hnone ⟨cred, hcred, hunlocks⟩] at hs
    cases hs
  · rintro ⟨cred, hcred, hunlocks⟩
    cases hopened : layer.opened P p cands with
    | none => exact absurd hunlocks (opened_eq_none.mp hopened cred hcred)
    | some vol => exact ⟨_, by rw [result, hopened]⟩

theorem result_of_not_wired (h : ∀ cred ∈ cands, cred.isWired = false) :
    layer.result P p cands none = .error (.err needCredentials) := by
  have hlocked : ∀ cred ∈ cands, ¬ layer.Unlocks P p cred := by
    intro cred hcred hunlocks
    obtain ⟨vol, hvol⟩ := (layer.unlocks_iff P p).mp hunlocks
    rcases layer.attempt_cases P p cred with ⟨-, hskip⟩ | ⟨hwired, -⟩
    · rw [hskip] at hvol
      cases hvol
    · rw [h cred hcred] at hwired
      cases hwired
  rw [result_of_locked hlocked, lastFailure_of_not_wired h]
  rfl

theorem exists_result_decode :
    (∃ e, layer.result P p cands none = .error (.err (mapBdeErr e))) ↔
      (∃ cred ∈ cands, cred.isWired = true) ∧ ∀ cred ∈ cands, ¬ layer.Unlocks P p cred := by
  constructor
  · rintro ⟨e, he⟩
    constructor
    · by_contra hnone
      have hskipped : ∀ cred ∈ cands, cred.isWired = false :=
        fun cred hcred ↦ Bool.eq_false_of_not_eq_true fun hwired ↦ hnone ⟨cred, hcred, hwired⟩
      rw [result_of_not_wired hskipped] at he
      cases he
    · intro cred hcred hunlocks
      obtain ⟨s, hs⟩ := exists_result_ok.mpr ⟨cred, hcred, hunlocks⟩
      rw [hs] at he
      cases he
  · rintro ⟨⟨cred, hcred, hwired⟩, hlocked⟩
    obtain ⟨e, he⟩ := exists_lastFailure hcred hwired (hlocked cred hcred)
    refine ⟨e, ?_⟩
    rw [result_of_locked hlocked, he]
    rfl

theorem result_eq_needCredentials :
    layer.result P p cands none = .error (.err needCredentials) ↔
      ∀ cred ∈ cands, cred.isWired = false := by
  refine ⟨?_, result_of_not_wired⟩
  intro hneed cred hcred
  by_contra hwired
  by_cases hany : ∃ c ∈ cands, layer.Unlocks P p c
  · obtain ⟨s, hs⟩ := exists_result_ok.mpr hany
    rw [hs] at hneed
    cases hneed
  · have hlocked : ∀ c ∈ cands, ¬ layer.Unlocks P p c :=
      fun c hc hunlocks ↦ hany ⟨c, hc, hunlocks⟩
    obtain ⟨e, he⟩ := exists_result_decode.mpr
      ⟨⟨cred, hcred, Bool.eq_true_of_not_eq_false hwired⟩, hlocked⟩
    rw [he] at hneed
    cases hneed

end Result

/-- `open` succeeds if and only if some password or recovery key unlocks the volume
on its own, with the source of the first that does.  Otherwise it asks for
credentials if none of these kinds was offered, and else reports the error of the
last attempt.  The order of the credentials decides neither success nor the kind of
the error. -/
theorem open_tries_every_credential (creds : CredentialSource V) :
    ((∃ s, layer.openWith P p creds = .ok s) ↔
      ∃ c ∈ creds V.bitlocker "", layer.Unlocks P p c) ∧
    (∀ before c after cred vol, creds V.bitlocker "" = before ++ c :: after →
      (∀ c' ∈ before, ¬ layer.Unlocks P p c') → c.toCredential = some cred →
      cred.unlock P p (V.sourceCursor layer.encrypted 0 layer.len) = .ok vol →
      layer.openWith P p creds = .ok (BitlockerSource.new vol)) ∧
    ((∀ c ∈ creds V.bitlocker "", c.isWired = false) →
      layer.openWith P p creds = .error (.err (.needCredentials "bitlocker" ""))) ∧
    (∀ before c after, creds V.bitlocker "" = before ++ c :: after →
      (∀ c' ∈ creds V.bitlocker "", ¬ layer.Unlocks P p c') → c.isWired = true →
      (∀ c' ∈ after, c'.isWired = false) →
      ∃ cred e, c.toCredential = some cred ∧
        cred.unlock P p (V.sourceCursor layer.encrypted 0 layer.len) = .error (.err e) ∧
        layer.openWith P p creds = .error (.err (.decode "bitlocker" 0 e.display []))) ∧
    ∀ creds' : CredentialSource V, (creds' V.bitlocker "").Perm (creds V.bitlocker "") →
      ((∃ s, layer.openWith P p creds' = .ok s) ↔ ∃ s, layer.openWith P p creds = .ok s) ∧
      (layer.openWith P p creds' = .error (.err needCredentials) ↔
        layer.openWith P p creds = .error (.err needCredentials)) ∧
      ((∃ e, layer.openWith P p creds' = .error (.err (mapBdeErr e))) ↔
        ∃ e, layer.openWith P p creds = .error (.err (mapBdeErr e))) := by
  simp only [openWith_eq_result]
  refine ⟨exists_result_ok, ?_, result_of_not_wired, ?_, ?_⟩
  · intro before c after cred vol hcands hbefore hcred hunlock
    have hattempt := (layer.attempt_eq_some P p).mpr ⟨cred, hcred, hunlock⟩
    rw [result, hcands, opened_of_first hbefore hattempt]
  · intro before c after hcands hlocked hwired hafter
    have hmem : c ∈ creds V.bitlocker "" := by
      rw [hcands]
      exact List.mem_append_right before List.mem_cons_self
    obtain ⟨e, hattempt, he⟩ := failure_of_wired hwired (hlocked c hmem)
    obtain ⟨cred, hcred, hunlock⟩ := (layer.attempt_eq_some P p).mp hattempt
    refine ⟨cred, e, hcred, hunlock, ?_⟩
    rw [result_of_locked hlocked, hcands, lastFailure_of_last he hafter]
    rfl
  · intro creds' hperm
    simp only [exists_result_ok, result_eq_needCredentials, exists_result_decode, hperm.mem_iff,
      and_self]

end BitlockerLayer

/-- Sources that are images in memory, and are opened from end to end. -/
def imageVfs : VfsCrate where
  Source := Image
  len image := UInt64.ofNat image.length
  sourceCursor image _ _ := Reader.ofImage image
  Scheme := Unit
  bitlocker := ()
  OtherCredential := Empty

end Bitlocker
