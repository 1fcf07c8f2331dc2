import Mathlib.Data.List.Induction
import Mathlib.Data.Set.Function
import BitlockerForensic.Core.Secrets

/-!
# Recovery passwords

The grammar of the 48-digit recovery password, and that `recovery_key_hash`
accepts exactly its texts.  They are in bijection with the 16-byte keys.
-/

namespace Bitlocker

open RustStd

/-! ## The grammar -/

def decimal (digits : List Char) : ℕ := digits.foldl (fun n c ↦ 10 * n + (c.toNat - 48)) 0

/-- Six ASCII digits whose value is a multiple of 11, at most `11 * 65535`. -/
structure IsRecoveryGroup (group : List Char) : Prop where
  length_eq : group.length = 6
  digits : ∀ c ∈ group, c.isDigit = true
  checksum : 11 ∣ decimal group
  range : decimal group / 11 ≤ 65535

def recoveryPasswords : Set String :=
  {text | ∃ groups : List (List Char), groups.length = 8 ∧
    text.toList = ['-'].intercalate groups ∧ ∀ group ∈ groups, IsRecoveryGroup group}

/-- The 16-bit words of the groups of a text, least byte first. -/
def recoveredKey (text : String) : List UInt8 :=
  (text.toList.splitOn '-').flatMap fun group ↦ leBytes 2 (decimal group / 11)

def keyWords : List UInt8 → List UInt16
  | low :: high :: rest => UInt16.ofNat (low.toNat + 256 * high.toNat) :: keyWords rest
  | _ => []

/-- Each word of the key times 11, as six digits. -/
def recoveryPassword (key : List UInt8) : String :=
  String.ofList (['-'].intercalate ((keyWords key).map recoveryGroup))

/-! ## Digits and their bytes -/

theorem isDigit_iff {c : Char} : c.isDigit = true ↔ 48 ≤ c.toNat ∧ c.toNat ≤ 57 := by
  rw [Char.isDigit, Bool.and_eq_true, decide_eq_true_iff, decide_eq_true_iff]
  exact Iff.rfl

theorem isAsciiDigit_iff {b : UInt8} : isAsciiDigit b = true ↔ 48 ≤ b.toNat ∧ b.toNat ≤ 57 := by
  rw [isAsciiDigit, decide_eq_true_iff, UInt8.le_iff_toNat_le, UInt8.le_iff_toNat_le]
  exact Iff.rfl

theorem not_isAsciiDigit_lead {lead : ℕ} (hlow : 192 ≤ lead) (hhigh : lead < 256) :
    isAsciiDigit (UInt8.ofNat lead) = false := by
  have hnat : (UInt8.ofNat lead).toNat = lead := UInt8.toNat_ofNat_of_lt hhigh
  rw [Bool.eq_false_iff, Ne, isAsciiDigit_iff, hnat]
  omega

/-- A character all of whose bytes are ASCII digits is one: the first byte of a
longer sequence is at least `0xc0`. -/
theorem utf8_of_digits {c : Char}
    (h : ∀ b ∈ String.utf8EncodeChar c, isAsciiDigit b = true) :
    c.isDigit = true ∧ String.utf8EncodeChar c = [UInt8.ofNat c.toNat] := by
  have hlead : ∀ lead rest, 192 ≤ lead → lead < 256 →
      String.utf8EncodeChar c ≠ UInt8.ofNat lead :: rest := by
    intro lead rest hlow hhigh heq
    have hdigit := h (UInt8.ofNat lead) (by rw [heq]; exact List.mem_cons_self)
    rw [not_isAsciiDigit_lead hlow hhigh] at hdigit
    cases hdigit
  have hdef : String.utf8EncodeChar c = String.utf8EncodeChar c := rfl
  conv_rhs at hdef => unfold String.utf8EncodeChar
  dsimp only at hdef
  split at hdef
  · rename_i hascii
    have hbyte := h (UInt8.ofNat c.toNat) (by rw [hdef]; exact List.mem_cons_self)
    have hnat : (UInt8.ofNat c.toNat).toNat = c.toNat :=
      UInt8.toNat_ofNat_of_lt (Nat.lt_of_le_of_lt hascii (by decide))
    rw [isAsciiDigit_iff, hnat] at hbyte
    exact ⟨isDigit_iff.mpr hbyte, hdef⟩
  · split at hdef
    · exact absurd hdef (hlead _ _ (by omega) (by omega))
    · split at hdef
      · exact absurd hdef (hlead _ _ (by omega) (by omega))
      · exact absurd hdef (hlead _ _ (by omega) (by omega))

theorem utf8_isDigit {c : Char} (h : c.isDigit = true) :
    String.utf8EncodeChar c = [UInt8.ofNat c.toNat] := by
  have hrange := isDigit_iff.mp h
  have hascii : c.val.toNat ≤ 0x7f := Nat.le_trans hrange.2 (by decide)
  rw [String.utf8EncodeChar, if_pos hascii]
  rfl

theorem utf8_group {group : List Char} (h : ∀ c ∈ group, c.isDigit = true) :
    group.flatMap String.utf8EncodeChar = group.map fun c ↦ UInt8.ofNat c.toNat := by
  induction group with
  | nil => rfl
  | cons c group ih =>
      rw [List.flatMap_cons, List.map_cons, utf8_isDigit (h c List.mem_cons_self),
        ih fun c' hc' ↦ h c' (List.mem_cons_of_mem c hc')]
      rfl

theorem isDigit_of_utf8 {group : List Char}
    (h : (group.flatMap String.utf8EncodeChar).all isAsciiDigit = true) :
    ∀ c ∈ group, c.isDigit = true := by
  intro c hc
  refine (utf8_of_digits ?_).1
  intro b hb
  exact List.all_eq_true.mp h b (List.mem_flatMap.mpr ⟨c, hc, hb⟩)

theorem toNat_digit {c : Char} (h : c.isDigit = true) :
    (UInt8.ofNat c.toNat).toNat = c.toNat := by
  have hrange := isDigit_iff.mp h
  exact UInt8.toNat_ofNat_of_lt (Nat.lt_of_le_of_lt hrange.2 (by decide))

theorem parseU32_utf8 {group : List Char} (hgroup : group ≠ [])
    (h : ∀ c ∈ group, c.isDigit = true) :
    parseU32 (group.flatMap String.utf8EncodeChar) = some (decimal group) := by
  have hall : (group.map fun c ↦ UInt8.ofNat c.toNat).all isAsciiDigit = true := by
    rw [List.all_map, List.all_eq_true]
    intro c hc
    rw [Function.comp_apply, isAsciiDigit_iff, toNat_digit (h c hc)]
    exact isDigit_iff.mp (h c hc)
  rw [utf8_group h, parseU32, if_pos ⟨by simpa using hgroup, hall⟩, List.foldl_map, decimal]
  congr 1
  apply List.foldl_ext
  intro n c hc
  rw [toNat_digit (h c hc)]

/-! ## Groups and words -/

theorem decimal_append_singleton (digits : List Char) (c : Char) :
    decimal (digits ++ [c]) = 10 * decimal digits + (c.toNat - 48) := by
  rw [decimal, List.foldl_append]
  rfl

/-- Digits are determined by their number and their value. -/
theorem decimal_inj {a b : List Char} (hlen : a.length = b.length)
    (ha : ∀ c ∈ a, c.isDigit = true) (hb : ∀ c ∈ b, c.isDigit = true)
    (hvalue : decimal a = decimal b) : a = b := by
  induction a using List.reverseRecOn generalizing b with
  | nil => exact (List.eq_nil_of_length_eq_zero hlen.symm).symm
  | append_singleton a x ih =>
      rcases List.eq_nil_or_concat b with rfl | ⟨b, y, rfl⟩
      · simp at hlen
      · rw [List.concat_eq_append] at hlen hb hvalue ⊢
        rw [decimal_append_singleton, decimal_append_singleton] at hvalue
        have hx := isDigit_iff.mp (ha x (by simp))
        have hy := isDigit_iff.mp (hb y (by simp))
        have hlast : x = y := Char.toNat_inj.mp (by omega)
        have hinit : a = b := by
          apply ih
          · simpa using hlen
          · intro c hc
            exact ha c (List.mem_append_left _ hc)
          · intro c hc
            exact hb c (List.mem_append_left _ hc)
          · omega
        rw [hinit, hlast]

theorem isDigit_recoveryGroup (word : UInt16) : ∀ c ∈ recoveryGroup word, c.isDigit = true := by
  apply isDigit_of_utf8
  rw [utf8_recoveryGroup]
  exact all_sixDigits _

theorem decimal_recoveryGroup (word : UInt16) : decimal (recoveryGroup word) = 11 * word.toNat := by
  have hword := word.toNat_lt
  have hparse := @parseU32_utf8 (recoveryGroup word) (by simp [recoveryGroup, sixDigits])
    (isDigit_recoveryGroup word)
  rw [utf8_recoveryGroup, parseU32_sixDigits (by omega)] at hparse
  exact (Option.some.inj hparse).symm

theorem isRecoveryGroup_recoveryGroup (word : UInt16) : IsRecoveryGroup (recoveryGroup word) where
  length_eq := rfl
  digits := isDigit_recoveryGroup word
  checksum := ⟨word.toNat, decimal_recoveryGroup word⟩
  range := by
    have hword := word.toNat_lt
    rw [decimal_recoveryGroup, Nat.mul_div_cancel_left _ (by decide)]
    omega

/-- Every group of the grammar is that of its word. -/
theorem IsRecoveryGroup.eq_recoveryGroup {group : List Char} (h : IsRecoveryGroup group) :
    group = recoveryGroup (UInt16.ofNat (decimal group / 11)) := by
  have hword : (UInt16.ofNat (decimal group / 11)).toNat = decimal group / 11 :=
    UInt16.toNat_ofNat_of_lt (Nat.lt_succ_of_le h.range)
  apply decimal_inj
  · exact h.length_eq
  · exact h.digits
  · exact isDigit_recoveryGroup _
  · rw [decimal_recoveryGroup, hword, Nat.mul_div_cancel' h.checksum]

/-! ## Texts and keys -/

theorem mem_recoveryPasswords {text : String} :
    text ∈ recoveryPasswords ↔ ∃ words : FixedArray UInt16 8, text = recoveryText words := by
  constructor
  · rintro ⟨groups, hcount, htext, hgroups⟩
    have hmap : (groups.map fun group ↦ UInt16.ofNat (decimal group / 11)).map recoveryGroup =
        groups := by
      rw [List.map_map]
      conv_rhs => rw [← List.map_id groups]
      apply List.map_congr_left
      intro group hgroup
      exact (hgroups group hgroup).eq_recoveryGroup.symm
    refine ⟨⟨groups.map fun group ↦ UInt16.ofNat (decimal group / 11),
      (List.length_map _).trans hcount⟩, ?_⟩
    rw [recoveryText, hmap, ← htext, String.ofList_toList]
  · rintro ⟨words, rfl⟩
    refine ⟨words.toList.map recoveryGroup, ?_, ?_, ?_⟩
    · rw [List.length_map, words.length_eq]
    · rw [recoveryText, String.toList_ofList]
    · intro group hgroup
      obtain ⟨word, -, rfl⟩ := List.mem_map.mp hgroup
      exact isRecoveryGroup_recoveryGroup word

theorem recoveredKey_recoveryText (words : FixedArray UInt16 8) :
    recoveredKey (recoveryText words) = recoveryKey words.toList := by
  rw [recoveredKey, splitOn_recoveryText, recoveryKey, List.flatMap_map]
  apply List.flatMap_congr
  intro word _
  rw [decimal_recoveryGroup, Nat.mul_div_cancel_left _ (by decide)]

theorem keyWords_recoveryKey (words : List UInt16) : keyWords (recoveryKey words) = words := by
  induction words with
  | nil => rfl
  | cons w words ih =>
      have hw := w.toNat_lt
      have hword : UInt16.ofNat ((UInt8.ofNat w.toNat).toNat +
          256 * (UInt8.ofNat (w.toNat / 256)).toNat) = w := by
        apply UInt16.toNat_inj.mp
        rw [UInt8.toNat_ofNat', UInt8.toNat_ofNat', UInt16.toNat_ofNat']
        omega
      change UInt16.ofNat _ :: keyWords (recoveryKey words) = _
      rw [hword, ih]

theorem recoveryKey_keyWords {n : ℕ} {key : List UInt8} (h : key.length = 2 * n) :
    (keyWords key).length = n ∧ recoveryKey (keyWords key) = key := by
  induction n generalizing key with
  | zero =>
      rw [List.eq_nil_of_length_eq_zero h]
      exact ⟨rfl, rfl⟩
  | succ n ih =>
      rcases key with _ | ⟨low, _ | ⟨high, rest⟩⟩
      · cases h
      · simp at h
        omega
      · have hlow := low.toNat_lt
        have hhigh := high.toNat_lt
        obtain ⟨hlen, hrest⟩ := @ih rest (by simp only [List.length_cons] at h; omega)
        have hword : (UInt16.ofNat (low.toNat + 256 * high.toNat)).toNat =
            low.toNat + 256 * high.toNat :=
          UInt16.toNat_ofNat_of_lt (show _ < 2 ^ 16 by omega)
        have hbytes : leBytes 2 (low.toNat + 256 * high.toNat) = [low, high] := by
          have hdiv : (low.toNat + 256 * high.toNat) / 256 = high.toNat := by omega
          have hfirst : UInt8.ofNat (low.toNat + 256 * high.toNat) = low := by
            apply UInt8.toNat_inj.mp
            rw [UInt8.toNat_ofNat']
            omega
          rw [leBytes, leBytes, leBytes, hdiv, hfirst, UInt8.ofNat_toNat]
        constructor
        · rw [keyWords, List.length_cons, hlen]
        · rw [keyWords, recoveryKey, List.flatMap_cons, hword, hbytes, ← recoveryKey, hrest]
          rfl

theorem length_recoveryKey (words : List UInt16) :
    (recoveryKey words).length = 2 * words.length := by
  induction words with
  | nil => rfl
  | cons w words ih =>
      rw [recoveryKey, List.flatMap_cons, List.length_append, ← recoveryKey, ih, length_leBytes,
        List.length_cons]
      omega

theorem recoveryPassword_recoveryKey (words : FixedArray UInt16 8) :
    recoveryPassword (recoveryKey words.toList) = recoveryText words := by
  rw [recoveryPassword, keyWords_recoveryKey, recoveryText]

/-! ## What the code accepts -/

theorem of_recoveryLoop {groups : List (List Char)} {i : ℕ} {key : List UInt8}
    {out : List UInt8 × ℕ} (h : recoveryLoop groups i key i = .ok out) :
    (∀ group ∈ groups, IsRecoveryGroup group) ∧ out.2 = i + groups.length := by
  induction groups generalizing i key with
  | nil =>
      cases h
      exact ⟨fun _ hmem ↦ absurd hmem List.not_mem_nil, rfl⟩
  | cons group groups ih =>
      rw [recoveryLoop] at h
      by_cases hcount : i ≥ 8
      · rw [if_pos hcount] at h
        cases h
      · rw [if_neg hcount] at h
        dsimp only at h
        by_cases hbytes : (group.flatMap String.utf8EncodeChar).length ≠ 6 ∨
            ¬ (group.flatMap String.utf8EncodeChar).all isAsciiDigit = true
        · rw [if_pos hbytes] at h
          cases h
        · rw [if_neg hbytes] at h
          rw [not_or, not_not, not_not] at hbytes
          have hdigits := isDigit_of_utf8 hbytes.2
          have hlen : group.length = 6 := by
            have hcount := hbytes.1
            rw [utf8_group hdigits, List.length_map] at hcount
            exact hcount
          have hgroup : group ≠ [] := by
            rintro rfl
            cases hlen
          rw [parseU32_utf8 hgroup hdigits, okOr_some, ok_bind] at h
          by_cases hchecksum : decimal group % 11 ≠ 0
          · rw [if_pos hchecksum] at h
            cases h
          · rw [if_neg hchecksum] at h
            by_cases hrange : decimal group / 11 > 0xffff
            · rw [if_pos hrange] at h
              cases h
            · rw [if_neg hrange] at h
              obtain ⟨key', -, hrest⟩ := bind_eq_ok.mp h
              obtain ⟨hgroups, hout⟩ := ih hrest
              have hfirst : IsRecoveryGroup group :=
                ⟨hlen, hdigits, Nat.dvd_of_mod_eq_zero (not_not.mp hchecksum), by omega⟩
              refine ⟨List.forall_mem_cons.mpr ⟨hfirst, hgroups⟩, ?_⟩
              rw [hout, List.length_cons]
              omega

theorem mem_of_recoveryKeyHash {P : Crates} {text : String} {hash : Octets 32}
    (h : recoveryKeyHash P text = .ok hash) : text ∈ recoveryPasswords := by
  obtain ⟨out, hloop, hhash⟩ := bind_eq_ok.mp h
  obtain ⟨hgroups, hcount⟩ := of_recoveryLoop hloop
  dsimp only at hhash
  by_cases height : out.2 ≠ 8
  · rw [if_pos height] at hhash
    cases hhash
  · refine ⟨text.toList.splitOn '-', ?_, ?_, hgroups⟩
    · omega
    · rw [List.intercalate_splitOn]

/-- `recovery_key_hash` accepts exactly the recovery passwords, hashes the key
they spell, and they are in bijection with the 16-byte keys. -/
theorem recovery_key_hash_grammar (P : Crates) :
    (∀ text, (∃ hash, recoveryKeyHash P text = .ok hash) ↔ text ∈ recoveryPasswords) ∧
    (∀ text ∈ recoveryPasswords,
      recoveryKeyHash P text = .ok (P.sha256 (recoveredKey text))) ∧
    Set.BijOn recoveredKey recoveryPasswords {key | key.length = 16} ∧
    Set.InvOn recoveryPassword recoveredKey recoveryPasswords {key | key.length = 16} := by
  have hhash : ∀ text ∈ recoveryPasswords,
      recoveryKeyHash P text = .ok (P.sha256 (recoveredKey text)) := by
    intro text htext
    obtain ⟨words, rfl⟩ := mem_recoveryPasswords.mp htext
    rw [recoveryKeyHash_recoveryText, recoveredKey_recoveryText]
  have hinv : Set.InvOn recoveryPassword recoveredKey recoveryPasswords
      {key | key.length = 16} := by
    constructor
    · intro text htext
      obtain ⟨words, rfl⟩ := mem_recoveryPasswords.mp htext
      rw [recoveredKey_recoveryText, recoveryPassword_recoveryKey]
    · intro key hkey
      obtain ⟨hlen, hround⟩ := @recoveryKey_keyWords 8 key hkey
      have htext : recoveryPassword key = recoveryText ⟨keyWords key, hlen⟩ := rfl
      rw [htext, recoveredKey_recoveryText, hround]
  refine ⟨?_, hhash, hinv.bijOn ?_ ?_, hinv⟩
  · intro text
    constructor
    · rintro ⟨hash, hok⟩
      exact mem_of_recoveryKeyHash hok
    · intro htext
      exact ⟨_, hhash text htext⟩
  · intro text htext
    obtain ⟨words, rfl⟩ := mem_recoveryPasswords.mp htext
    change (recoveredKey (recoveryText words)).length = 16
    rw [recoveredKey_recoveryText, length_recoveryKey, words.length_eq]
  · intro key hkey
    obtain ⟨hlen, -⟩ := @recoveryKey_keyWords 8 key hkey
    exact mem_recoveryPasswords.mpr ⟨⟨keyWords key, hlen⟩, rfl⟩

end Bitlocker
