import Mathlib.Data.List.Nodup
import BitlockerForensic.Std.Texts
import BitlockerForensic.Core.Diagnosis
import BitlockerForensic.Core.Guid
import BitlockerForensic.Core.Layer

/-!
# What the text of an error tells

A caller of the VFS layer receives an error of the reader as a text.  The texts of
two errors that an unlock can return are different, so the text tells the error.
-/

namespace Bitlocker

open RustStd
open RustStd.Reader

/-! ## Lists and numbers in a text -/

theorem debugList_inj {items items' : List String}
    (h : ∀ item ∈ items, item.toList ≠ [] ∧ ',' ∉ item.toList)
    (h' : ∀ item ∈ items', item.toList ≠ [] ∧ ',' ∉ item.toList)
    (heq : debugList items = debugList items') : items = items' := by
  unfold debugList at heq
  rw [String.append_left_inj, String.append_right_inj] at heq
  have hlist := congrArg String.toList heq
  rw [String.toList_intercalate, String.toList_intercalate] at hlist
  have hsep : ", ".toList = [',', ' '] := by simp
  rw [hsep] at hlist
  have hparts := intercalate_inj (by simpa using h) (by simpa using h') hlist
  exact (List.map_injective_iff.mpr fun _ _ ↦ String.toList_inj.mp) hparts

/-- A list is told from its text when each of its items is. -/
theorem debugList_map_inj {α : Type} {f : α → String} (hf : Function.Injective f)
    (hitems : ∀ a, (f a).toList ≠ [] ∧ ',' ∉ (f a).toList) {l l' : List α}
    (heq : debugList (l.map f) = debugList (l'.map f)) : l = l' := by
  have hmem : ∀ l : List α, ∀ item ∈ l.map f, item.toList ≠ [] ∧ ',' ∉ item.toList := by
    intro l item hitem
    obtain ⟨a, -, rfl⟩ := List.mem_map.mp hitem
    exact hitems a
  exact List.map_injective_iff.mpr hf (debugList_inj (hmem l) (hmem l') heq)

theorem toString_item (n : ℕ) : (toString n).toList ≠ [] ∧ ',' ∉ (toString n).toList :=
  ⟨toString_ne_nil n, not_mem_toString (by decide) n⟩

theorem hex_inj {t t' : UInt16} (h : (hex 4 t.toNat).toList = (hex 4 t'.toNat).toList) :
    t = t' := by
  have ht : t.toNat < 16 ^ 4 := t.toNat_lt
  have ht' : t'.toNat < 16 ^ 4 := t'.toNat_lt
  rw [toList_hex ht, toList_hex ht'] at h
  exact UInt16.toNat_inj.mp (hexDigits_inj ht ht' h)

theorem length_hex (t : UInt16) : (hex 4 t.toNat).toList.length = 4 := by
  rw [toList_hex (show t.toNat < 16 ^ 4 from t.toNat_lt), length_hexDigits]

/-- A text that ends in the digits of a word and a fixed text tells the word. -/
theorem word_of_text {pre pre' post : String} {t t' : UInt16}
    (h : pre ++ hex 4 t.toNat ++ post = pre' ++ hex 4 t'.toNat ++ post) : t = t' := by
  rw [String.append_left_inj] at h
  have hlist := congrArg String.toList h
  rw [String.toList_append, String.toList_append] at hlist
  obtain ⟨-, hdigits⟩ := List.append_inj' hlist (by rw [length_hex, length_hex])
  exact hex_inj hdigits

theorem byteDigits_inj {b b' : UInt8} (h : byteDigits b = byteDigits b') : b = b' := by
  have hbytes := congrArg hexBytes h
  rw [← List.append_nil (byteDigits b), ← List.append_nil (byteDigits b'), hexBytes_byteDigits,
    hexBytes_byteDigits] at hbytes
  exact (List.cons.inj hbytes).1

theorem byteDigits_item (b : UInt8) :
    (hex 2 b.toNat).toList ≠ [] ∧ ',' ∉ (hex 2 b.toNat).toList := by
  rw [toList_hex_byte]
  constructor
  · intro hnil
    have hlen := length_hexDigits 2 b.toNat
    rw [← byteDigits, hnil] at hlen
    cases hlen
  · intro hmem
    exact absurd (mem_lowerHexDigits hmem) (by decide)

theorem debugList_hex_inj {bytes bytes' : List UInt8}
    (heq : debugList (bytes.map fun b ↦ hex 2 b.toNat) =
      debugList (bytes'.map fun b ↦ hex 2 b.toNat)) : bytes = bytes' := by
  refine debugList_map_inj ?_ byteDigits_item heq
  intro b b' h
  have hlist := congrArg String.toList h
  rw [toList_hex_byte, toList_hex_byte] at hlist
  exact byteDigits_inj hlist

/-- Where one of some names with different first characters stands, the text tells
the name. -/
theorem name_of_text {names : List String} {lead name name' rest rest' : String}
    (hnodup : (names.map fun n ↦ n.toList.head?).Nodup) (hne : ∀ n ∈ names, n.toList ≠ [])
    (hname : name ∈ names) (hname' : name' ∈ names)
    (h : lead ++ (name ++ rest) = lead ++ (name' ++ rest')) : name = name' := by
  apply List.inj_on_of_nodup_map hnodup hname hname'
  rw [String.append_right_inj] at h
  have hhead := congrArg (fun text : String ↦ text.toList.head?) h
  simpa only [String.toList_append, List.head?_append_of_ne_nil _ (hne name hname),
    List.head?_append_of_ne_nil _ (hne name' hname')] using hhead

/-- Two numbers with a text between them that starts with a blank. -/
theorem numbers_of_text {m n m' n' : ℕ} {between : String}
    (hblank : between.toList.head? = some ' ')
    (h : toString m ++ (between ++ toString n) = toString m' ++ (between ++ toString n')) :
    m = m' ∧ n = n' := by
  have hhead : ∀ n : ℕ, ∀ c ∈ (between ++ toString n).toList.head?, c = ' ' := by
    intro n c hc
    rw [String.toList_append, List.head?_append, hblank] at hc
    exact (Option.some.inj hc).symm
  have hlist : (toString m).toList ++ (between ++ toString n).toList =
      (toString m').toList ++ (between ++ toString n').toList := by
    rw [← String.toList_append, ← String.toList_append, h]
  obtain ⟨hfirst, hrest⟩ := append_sep_inj (not_mem_toString (by decide) m)
    (not_mem_toString (by decide) m') (hhead n) (hhead n') hlist
  have hsecond := (String.append_right_inj _).mp (String.toList_inj.mp hrest)
  exact ⟨toString_inj hfirst, toString_inj (congrArg String.toList hsecond)⟩

namespace BdeError

def protectorNames : List String := ["password", "recovery password", "clear key", "startup key"]

def containerNames : List String := ["external key", "clear", "volume master key", "FVEK"]

/-- The errors that unlocking an image can give rise to. -/
def Named : BdeError → Prop
  | io e => e = unexpectedEof
  | noUnlockProtector protector _ => protector ∈ protectorNames
  | malformedKeyContainer what _ _ => what ∈ containerNames
  | _ => True

def tag : BdeError → ℕ
  | io _ => 0
  | notBitLocker _ => 1
  | noValidMetadata _ => 2
  | unsupportedEncryptionMethod _ => 3
  | unvalidatedEncryptionMethod _ => 4
  | noUnlockProtector _ _ => 5
  | invalidRecoveryPassword _ => 6
  | missingKeyMaterial _ => 7
  | authenticationFailed _ => 8
  | malformedKeyContainer _ _ _ => 9

/-- How the texts of the cases start.  A protector's name does not start with `v`. -/
def leads : List (List Char) :=
  [['i', '/', 'o', ' '], ['n', 'o', 't', ' '], ['n', 'o', ' ', 'v'], ['u', 'n', 's', 'u'],
    ['r', 'e', 'c', 'o'], ['n', 'o', ' '], ['i', 'n', 'v', 'a'], ['p', 'a', 's', 's'],
    ['A', 'E', 'S', '-'], ['d', 'e', 'c', 'r']]

/-- The case of an error, from the first four characters of its text. -/
def tagOf (text : List Char) : ℕ := leads.findIdx fun lead ↦ lead.isPrefixOf text

theorem display_io (e : IoError) :
    (io e).display = "i/o error reading BitLocker volume: " ++ e.message := rfl

theorem display_notBitLocker (signature : Octets 8) :
    (notBitLocker signature).display =
      "not a BitLocker volume: signature at offset 3 is " ++
        debugList (signature.toList.map fun b ↦ hex 2 b.toNat) ++
        " (expected \"-FVE-FS-\" or \"MSWIN4.1\")" := rfl

theorem display_noValidMetadata (offsets : FixedArray UInt64 3) :
    (noValidMetadata offsets).display =
      "no valid FVE metadata block found at candidate offsets " ++
        debugList (offsets.toList.map fun o ↦ toString o.toNat) := rfl

theorem display_unsupportedEncryptionMethod (method : UInt16) :
    (unsupportedEncryptionMethod method).display =
      "unsupported encryption method 0x" ++ hex 4 method.toNat ++
        " (not a recognized BitLocker cipher; this build decrypts 0x8000 AES-128-CBC + " ++
        "Elephant Diffuser and 0x8002 AES-128-CBC)" := rfl

theorem display_unvalidatedEncryptionMethod (method : UInt16) :
    (unvalidatedEncryptionMethod method).display =
      "recognized but unvalidated encryption method 0x" ++ hex 4 method.toNat ++
        " (no oracle yet; this build decrypts only 0x8000 and 0x8002)" := rfl

theorem display_noUnlockProtector (protector : String) (found : List UInt16) :
    (noUnlockProtector protector found).display =
      "no " ++ protector ++ " protector present; protectors found: " ++
        debugList (found.map fun t ↦ toString t.toNat) := rfl

theorem display_invalidRecoveryPassword (reason : String) :
    (invalidRecoveryPassword reason).display = "invalid recovery password: " ++ reason := rfl

theorem display_missingKeyMaterial (what : String) :
    (missingKeyMaterial what).display = "password protector is malformed: missing " ++ what := rfl

theorem display_authenticationFailed (what : String) :
    (authenticationFailed what).display =
      "AES-CCM authentication failed unwrapping the " ++ what ++
        " (wrong password or corrupt metadata)" := rfl

theorem display_malformedKeyContainer (what : String) (got need : ℕ) :
    (malformedKeyContainer what got need).display =
      "decrypted " ++ what ++ " key container is malformed (got " ++ toString got ++
        " bytes, need at least " ++ toString need ++ ")" := rfl

theorem tagOf_append {lead : String} (chars : List Char) {n : ℕ}
    (hlead : lead.toList.take 4 = chars) (hlen : chars.length = 4) (htag : tagOf chars = n)
    (rest : String) : tagOf ((lead ++ rest).toList.take 4) = n := by
  have hle : 4 ≤ lead.toList.length := by
    rw [← hlead, List.length_take] at hlen
    omega
  rw [String.toList_append, List.take_append_of_le_length hle, hlead, htag]

/-- The text of an error starts with its case. -/
theorem tagOf_display {e : BdeError} (h : e.Named) : tagOf (e.display.toList.take 4) = e.tag := by
  cases e with
  | io e =>
      rw [display_io]
      exact tagOf_append ['i', '/', 'o', ' '] (by simp) rfl rfl _
  | notBitLocker signature =>
      rw [display_notBitLocker, String.append_assoc]
      exact tagOf_append ['n', 'o', 't', ' '] (by simp) rfl rfl _
  | noValidMetadata offsets =>
      rw [display_noValidMetadata]
      exact tagOf_append ['n', 'o', ' ', 'v'] (by simp) rfl rfl _
  | unsupportedEncryptionMethod method =>
      rw [display_unsupportedEncryptionMethod]
      simp only [String.append_assoc]
      exact tagOf_append ['u', 'n', 's', 'u'] (by simp) rfl rfl _
  | unvalidatedEncryptionMethod method =>
      rw [display_unvalidatedEncryptionMethod, String.append_assoc]
      exact tagOf_append ['r', 'e', 'c', 'o'] (by simp) rfl rfl _
  | noUnlockProtector protector found =>
      rw [display_noUnlockProtector, String.append_assoc]
      simp only [Named, protectorNames, List.mem_cons, List.not_mem_nil, or_false] at h
      rcases h with rfl | rfl | rfl | rfl
      · exact tagOf_append ['n', 'o', ' ', 'p'] (by simp) rfl rfl _
      · exact tagOf_append ['n', 'o', ' ', 'r'] (by simp) rfl rfl _
      · exact tagOf_append ['n', 'o', ' ', 'c'] (by simp) rfl rfl _
      · exact tagOf_append ['n', 'o', ' ', 's'] (by simp) rfl rfl _
  | invalidRecoveryPassword reason =>
      rw [display_invalidRecoveryPassword]
      exact tagOf_append ['i', 'n', 'v', 'a'] (by simp) rfl rfl _
  | missingKeyMaterial what =>
      rw [display_missingKeyMaterial]
      exact tagOf_append ['p', 'a', 's', 's'] (by simp) rfl rfl _
  | authenticationFailed what =>
      rw [display_authenticationFailed, String.append_assoc]
      exact tagOf_append ['A', 'E', 'S', '-'] (by simp) rfl rfl _
  | malformedKeyContainer what got need =>
      rw [display_malformedKeyContainer]
      simp only [String.append_assoc]
      exact tagOf_append ['d', 'e', 'c', 'r'] (by simp) rfl rfl _

theorem toString_toNat_inj {α : Type} {toNat : α → ℕ} (htoNat : Function.Injective toNat) :
    Function.Injective fun a ↦ toString (toNat a) := by
  intro a a' h
  exact htoNat (toString_inj (congrArg String.toList h))

theorem noUnlockProtector_of_display {protector protector' : String} {found found' : List UInt16}
    (h : protector ∈ protectorNames) (h' : protector' ∈ protectorNames)
    (heq : (noUnlockProtector protector found).display =
      (noUnlockProtector protector' found').display) :
    protector = protector' ∧ found = found' := by
  rw [display_noUnlockProtector, display_noUnlockProtector] at heq
  have hname : protector = protector' := by
    simp only [String.append_assoc] at heq
    exact name_of_text (by simp [protectorNames]) (by simp [protectorNames]) h h' heq
  subst hname
  rw [String.append_right_inj] at heq
  exact ⟨rfl, debugList_map_inj (toString_toNat_inj fun _ _ ↦ UInt16.toNat_inj.mp)
    (fun t ↦ toString_item t.toNat) heq⟩

theorem malformedKeyContainer_of_display {what what' : String} {got need got' need' : ℕ}
    (h : what ∈ containerNames) (h' : what' ∈ containerNames)
    (heq : (malformedKeyContainer what got need).display =
      (malformedKeyContainer what' got' need').display) :
    what = what' ∧ got = got' ∧ need = need' := by
  rw [display_malformedKeyContainer, display_malformedKeyContainer, String.append_left_inj] at heq
  have hname : what = what' := by
    simp only [String.append_assoc] at heq
    exact name_of_text (by simp [containerNames]) (by simp [containerNames]) h h' heq
  subst hname
  simp only [String.append_assoc, String.append_right_inj] at heq
  exact ⟨rfl, numbers_of_text (by simp) heq⟩

/-- Two errors of unlocking with the same text are the same. -/
theorem display_inj {e e' : BdeError} (h : e.Named) (h' : e'.Named)
    (heq : e.display = e'.display) : e = e' := by
  have htag : e.tag = e'.tag := by rw [← tagOf_display h, ← tagOf_display h', heq]
  cases e <;> cases e' <;> cases htag
  case io.io.refl e e' => rw [show e = unexpectedEof from h, show e' = unexpectedEof from h']
  case notBitLocker.notBitLocker.refl signature signature' =>
    rw [display_notBitLocker, display_notBitLocker, String.append_left_inj,
      String.append_right_inj] at heq
    rw [FixedArray.ext (debugList_hex_inj heq)]
  case noValidMetadata.noValidMetadata.refl offsets offsets' =>
    rw [display_noValidMetadata, display_noValidMetadata, String.append_right_inj] at heq
    rw [FixedArray.ext (debugList_map_inj (toString_toNat_inj fun _ _ ↦ UInt64.toNat_inj.mp)
      (fun o ↦ toString_item o.toNat) heq)]
  case unsupportedEncryptionMethod.unsupportedEncryptionMethod.refl method method' =>
    rw [display_unsupportedEncryptionMethod, display_unsupportedEncryptionMethod,
      String.append_left_inj] at heq
    rw [word_of_text heq]
  case unvalidatedEncryptionMethod.unvalidatedEncryptionMethod.refl method method' =>
    rw [display_unvalidatedEncryptionMethod, display_unvalidatedEncryptionMethod] at heq
    rw [word_of_text heq]
  case noUnlockProtector.noUnlockProtector.refl protector found protector' found' =>
    obtain ⟨hname, hfound⟩ := noUnlockProtector_of_display h h' heq
    rw [hname, hfound]
  case invalidRecoveryPassword.invalidRecoveryPassword.refl reason reason' =>
    rw [display_invalidRecoveryPassword, display_invalidRecoveryPassword,
      String.append_right_inj] at heq
    rw [heq]
  case missingKeyMaterial.missingKeyMaterial.refl what what' =>
    rw [display_missingKeyMaterial, display_missingKeyMaterial, String.append_right_inj] at heq
    rw [heq]
  case authenticationFailed.authenticationFailed.refl what what' =>
    rw [display_authenticationFailed, display_authenticationFailed, String.append_left_inj,
      String.append_right_inj] at heq
    rw [heq]
  case malformedKeyContainer.malformedKeyContainer.refl what got need what' got' need' =>
    obtain ⟨hname, hgot, hneed⟩ := malformedKeyContainer_of_display h h' heq
    rw [hname, hgot, hneed]

end BdeError

/-! ## Errors of an unlock -/

section Named

variable {P : Crates} {e : BdeError}

theorem BekFault.named {bek : Bytes} (h : BekFault bek e) : e.Named := by
  cases h with
  | noExternalKey hexternal => trivial
  | noKeyProperty hexternal hkey => trivial
  | shortKey hexternal hkey hshort => exact List.mem_cons_self

theorem UnwrapFault.named {props : List MetadataEntry} {unwrap : VmkUnwrap}
    (h : UnwrapFault props unwrap e) : e.Named := by
  cases h with
  | noStretch hstretch => trivial
  | shortSalt hstretch hshort => trivial
  | noClearKey hkey => trivial
  | shortClearKey hkey hshort => simp [BdeError.Named, BdeError.containerNames]

theorem VmkFault.named {entry : MetadataEntry} {unwrap : VmkUnwrap}
    (h : VmkFault P entry unwrap e) : e.Named := by
  cases h with
  | noBlob hblob => trivial
  | noKey hblob hkey => exact hkey.named
  | wrongKey hblob hkey htag => trivial
  | shortVmk hblob hkey hopen hshort => simp [BdeError.Named, BdeError.containerNames]

theorem FvekFault.named {md : FveMetadata} {kind : SectorCipherKind} {vmk : Octets 32}
    (h : FvekFault P md kind vmk e) : e.Named := by
  cases h with
  | noEntry hfvek => trivial
  | wrongVmk hfvek htag => trivial
  | shortKeys hfvek hopen hshort => simp [BdeError.Named, BdeError.containerNames]

theorem VolumeFault.named {image : Image} {protectorType : UInt16} {protectorName : String}
    {unwrap : VmkUnwrap} (hname : protectorName ∈ BdeError.protectorNames)
    (h : VolumeFault P image protectorType protectorName unwrap e) : e.Named := by
  cases h with
  | tooShort hlen => rfl
  | notBitLocker hlen hnone hsignature => trivial
  | noMetadata hlen hoffsets hnone => trivial
  | unsupported hmd hmethod => trivial
  | unvalidated hmd hmethod => trivial
  | noProtector hmd hmethod hnone => exact hname
  | vmk hmd hmethod hentry hvmk => exact hvmk.named
  | fvek hmd hmethod hentry hvmk hfvek => exact hfvek.named

theorem protectorName_mem (cred : Credential) : cred.protectorName ∈ BdeError.protectorNames := by
  cases cred <;> simp [Credential.protectorName, BdeError.protectorNames]

theorem Diagnosis.named {image : Image} {cred : Credential} (h : Diagnosis P image cred e) :
    e.Named := by
  cases h with
  | credential hcred =>
      cases hcred with
      | recovery hfault => trivial
      | startup hbek => exact hbek.named
  | volume hcred hvolume => exact hvolume.named (protectorName_mem cred)

end Named

/-! ## The text that a layer hands on -/

namespace BitlockerLayer

variable {P : Crates} {p : Profile} {V : VfsCrate} {layer : BitlockerLayer V}

/-- The last failure is that of the last attempt. -/
theorem last_of_lastFailure {cands : List (VfsCredential V)} {e : BdeError}
    (hlocked : ∀ c ∈ cands, ¬ layer.Unlocks P p c)
    (h : layer.lastFailure P p cands = some e) :
    ∃ before c after, cands = before ++ c :: after ∧ (∀ c' ∈ after, c'.isWired = false) ∧
      layer.attempt P p c = some (.error (.err e)) := by
  rw [lastFailure, List.getLast?_filterMap, List.findSome?_eq_some_iff] at h
  obtain ⟨skipped, c, tried, hcands, hfailure, hskipped⟩ := h
  have hsplit : cands = tried.reverse ++ c :: skipped.reverse := by
    rw [← List.reverse_reverse cands, hcands, List.reverse_append, List.reverse_cons,
      List.append_assoc, List.singleton_append]
  have hmem : ∀ c' ∈ skipped, c' ∈ cands := by
    intro c' hc'
    rw [hsplit]
    exact List.mem_append_right _ (List.mem_cons_of_mem c (List.mem_reverse.mpr hc'))
  refine ⟨tried.reverse, c, skipped.reverse, hsplit, ?_, ?_⟩
  · intro c' hc'
    have hc'' := List.mem_reverse.mp hc'
    by_contra hwired
    obtain ⟨e', -, he'⟩ := failure_of_wired (Bool.eq_true_of_not_eq_false hwired)
      (hlocked c' (hmem c' hc''))
    rw [hskipped c' hc''] at he'
    cases he'
  · rw [failure] at hfailure
    split at hfailure
    · rename_i e' hattempt
      cases hfailure
      exact hattempt
    · cases hfailure

theorem lastFailure_of_decode {cands : List (VfsCredential V)} {name detail : String}
    {offset : UInt64} {bytes : List UInt8}
    (h : layer.result P p cands none = .error (.err (.decode name offset detail bytes))) :
    (∀ c ∈ cands, ¬ layer.Unlocks P p c) ∧
      ∃ e, layer.lastFailure P p cands = some e ∧ detail = e.display := by
  rw [result] at h
  split at h
  · cases h
  · rename_i hopened
    refine ⟨opened_eq_none.mp hopened, ?_⟩
    rcases hlast : layer.lastFailure P p cands with _ | e
    · rw [hlast] at h
      cases h
    · rw [hlast] at h
      cases h
      exact ⟨e, rfl, rfl⟩

/-- The text of a failed `open` is that of the error which the last attempt, the unlock
of the source with that credential, returned.  Unless the device reported that error,
no other error for any image and any credential has the same text. -/
theorem decode_text_tells_error {r : Reader}
    (hcursor : V.sourceCursor layer.encrypted 0 layer.len = r) {creds : CredentialSource V}
    {name detail : String} {offset : UInt64} {bytes : List UInt8}
    (h : layer.openWith P p creds = .error (.err (.decode name offset detail bytes))) :
    ∃ before c after cred e, creds V.bitlocker "" = before ++ c :: after ∧
      (∀ c' ∈ after, c'.isWired = false) ∧ c.toCredential = some cred ∧
      cred.unlock P p r = .error (.err e) ∧ detail = e.display ∧
      ((∃ io, r.Reports io ∧ e = .io io) ∨
        Diagnosis P r.image cred e ∧ ∀ (image : Image) (cred' : Credential) (e' : BdeError),
          Diagnosis P image cred' e' → e'.display = detail → e' = e) := by
  rw [openWith_eq_result] at h
  obtain ⟨hlocked, e, hlast, hdetail⟩ := lastFailure_of_decode h
  obtain ⟨before, c, after, hcands, hafter, hattempt⟩ := last_of_lastFailure hlocked hlast
  obtain ⟨cred, hcred, hunlock⟩ := (layer.attempt_eq_some P p).mp hattempt
  rw [hcursor] at hunlock
  refine ⟨before, c, after, cred, e, hcands, hafter, hcred, hunlock, hdetail, ?_⟩
  rcases Credential.unlock_eq_err P hunlock with hfault | hio
  · refine Or.inr ⟨hfault, ?_⟩
    intro image cred' e' hfault' htext
    exact BdeError.display_inj hfault'.named hfault.named (htext.trans hdetail)
  · exact Or.inl hio

end BitlockerLayer

def sampleReason : String := "each recovery group must be 6 digits"

theorem sampleReason_faults (image : Image) :
    Diagnosis sampleCrates image (.recoveryPassword "x") (.invalidRecoveryPassword sampleReason) :=
  .credential (.recovery (by decide))

/-- Only a recovery password with a group that is not of six digits has this text. -/
theorem decode_text_sample :
    (BitlockerLayer.new (V := imageVfs) (sampleImage 0 0)).openWith sampleCrates .debug
        (fun _ _ ↦ [.recoveryKey "x"]) =
      .error (.err (.decode "bitlocker" 0 ("invalid recovery password: " ++ sampleReason) [])) ∧
    ∀ (image : Image) (cred : Credential) (e : BdeError), Diagnosis sampleCrates image cred e →
      e.display = "invalid recovery password: " ++ sampleReason →
      e = .invalidRecoveryPassword sampleReason := by
  have hhash : recoveryKeyHash sampleCrates "x" = .error (.err sampleReason) :=
    (recoveryKeyHash_eq_err sampleCrates).mpr (by decide)
  have hopen : (BitlockerLayer.new (V := imageVfs) (sampleImage 0 0)).openWith sampleCrates .debug
        (fun _ _ ↦ [.recoveryKey "x"]) =
      .error (.err (.decode "bitlocker" 0 ("invalid recovery password: " ++ sampleReason) [])) := by
    simp only [BitlockerLayer.openWith, BitlockerLayer.openLoop, BitlockerLayer.attempt,
      unlockWithRecoveryPassword, hhash]
    rfl
  refine ⟨hopen, ?_⟩
  intro image cred e hfault htext
  obtain ⟨-, -, -, -, e', -, -, -, -, hdetail, ⟨io, hio, -⟩ | ⟨-, honly⟩⟩ :=
    BitlockerLayer.decode_text_tells_error rfl hopen
  · exact absurd hio (Reader.errorFree_ofImage (sampleImage 0 0) io)
  · rw [honly image cred e hfault htext, honly image _ _ (sampleReason_faults image) rfl]

end Bitlocker
