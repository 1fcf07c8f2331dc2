import BitlockerForensic.Core.Layout
import BitlockerForensic.Core.Unlock

/-!
# Encoded secrets

The documented encodings of what an unlock starts from, each inverted by the
code that reads it: a key at a fixed offset of a value, an AES-CCM wrapped key, a
password, a 48-digit recovery password, and a `.BEK` startup-key file.
-/

namespace Bitlocker

open RustStd

/-! ## Keys at fixed offsets -/

def Holds {n : ℕ} (b : Bytes) (off : ℕ) (key : Octets n) : Prop :=
  ∃ lead rest, lead.length = off ∧ b.toList = lead ++ (key.toList ++ rest)

theorem Holds.length_le {n : ℕ} {b : Bytes} {off : ℕ} {key : Octets n} (h : Holds b off key) :
    off + n ≤ b.length := by
  obtain ⟨lead, rest, hlead, hb⟩ := h
  rw [Bytes.length, hb, List.length_append, List.length_append, key.length_eq]
  omega

theorem Holds.arrayAt_eq {n : ℕ} {b : Bytes} {off : ℕ} {key : Octets n} (h : Holds b off key) :
    arrayAt n b off = key := by
  obtain ⟨lead, rest, hlead, hb⟩ := h
  have hlen := Holds.length_le ⟨lead, rest, hlead, hb⟩
  refine @Bitlocker.arrayAt_eq n b off key rest (by omega) ?_
  rw [hb, List.drop_left' hlead]

/-! ## Wrapped keys -/

/-- The documented behaviour of `ccm` with a 12-byte nonce: the ciphertext has
the length of the plaintext, and below the limit of the mode it decrypts. -/
structure CcmLaws (P : Crates) : Prop where
  length_encrypt : ∀ key nonce plaintext,
    (P.ccmEncrypt key nonce plaintext).1.length = plaintext.length
  decrypt_encrypt : ∀ key nonce plaintext, plaintext.length < 2 ^ 24 →
    P.ccmDecrypt key nonce (P.ccmEncrypt key nonce plaintext).1
      (P.ccmEncrypt key nonce plaintext).2 = some plaintext

def WrapsKey (P : Crates) (key : Octets 32) (container value : Bytes) : Prop :=
  ∃ nonce, value.toList = aesCcmWrap P key nonce container

theorem ccmOpen_of_wrapsKey {P : Crates} (laws : CcmLaws P) {key : Octets 32}
    {container value : Bytes} (h : WrapsKey P key container value)
    (hsize : value.length ≤ 65527) : ccmOpen P key value = some container := by
  obtain ⟨nonce, hvalue⟩ := h
  have hlength := laws.length_encrypt key nonce container
  have hdecrypt := laws.decrypt_encrypt key nonce container
  rw [aesCcmWrap] at hvalue
  generalize P.ccmEncrypt key nonce container = wrapped at hvalue hlength hdecrypt
  obtain ⟨buffer, tag⟩ := wrapped
  dsimp only at hvalue hlength hdecrypt
  have hnonce : arrayAt 12 value 0 = nonce :=
    Holds.arrayAt_eq ⟨[], tag.toList ++ buffer.toList, rfl, by rw [hvalue, List.append_assoc]; rfl⟩
  have htag : arrayAt 16 value 12 = tag :=
    Holds.arrayAt_eq ⟨nonce.toList, buffer.toList, nonce.length_eq,
      by rw [hvalue, List.append_assoc]⟩
  have hlead : (nonce.toList ++ tag.toList).length = 28 := by
    rw [List.length_append, nonce.length_eq, tag.length_eq]
  have hlen : value.length = 28 + buffer.length := by
    rw [Bytes.length, hvalue, List.length_append, hlead, Bytes.length]
  have hbuffer : value.window 28 value.length = buffer := by
    apply Bytes.ext
    rw [MetadataEntry.window_suffix, hvalue, List.drop_left' hlead]
  rw [ccmOpen, if_pos (by omega), hnonce, htag, hbuffer]
  exact hdecrypt (by omega)

/-! ## Passwords -/

/-- The text in UTF-16, little-endian. -/
def utf16Le (text : String) : List UInt8 := (text.toList.flatMap utf16Units).flatMap (leBytes 2)

/-! ## Recovery passwords -/

def sixDigits (n : ℕ) : List ℕ :=
  [n / 100000 % 10, n / 10000 % 10, n / 1000 % 10, n / 100 % 10, n / 10 % 10, n % 10]

def recoveryGroup (word : UInt16) : List Char :=
  (sixDigits (11 * word.toNat)).map Nat.digitChar

/-- The recovery password of eight 16-bit words. -/
def recoveryText (words : FixedArray UInt16 8) : String :=
  String.ofList (['-'].intercalate (words.toList.map recoveryGroup))

def recoveryKey (words : List UInt16) : List UInt8 := words.flatMap fun w ↦ leBytes 2 w.toNat

theorem digit_lt {n d : ℕ} (h : d ∈ sixDigits n) : d < 10 := by
  simp only [sixDigits, List.mem_cons, List.not_mem_nil, or_false] at h
  rcases h with rfl | rfl | rfl | rfl | rfl | rfl <;> exact Nat.mod_lt _ (by decide)

theorem utf8_digitChar {d : ℕ} (h : d < 10) :
    String.utf8EncodeChar (Nat.digitChar d) = [UInt8.ofNat (48 + d)] := by
  have hall : ∀ d < 10, String.utf8EncodeChar (Nat.digitChar d) = [UInt8.ofNat (48 + d)] := by
    decide
  exact hall d h

theorem utf8_recoveryGroup (word : UInt16) :
    (recoveryGroup word).flatMap String.utf8EncodeChar =
      (sixDigits (11 * word.toNat)).map fun d ↦ UInt8.ofNat (48 + d) := by
  have hall : ∀ ds : List ℕ, (∀ d ∈ ds, d < 10) →
      (ds.map Nat.digitChar).flatMap String.utf8EncodeChar =
        ds.map fun d ↦ UInt8.ofNat (48 + d) := by
    intro ds
    induction ds with
    | nil => exact fun _ ↦ rfl
    | cons d ds ih =>
        intro h
        rw [List.map_cons, List.flatMap_cons, utf8_digitChar (h d List.mem_cons_self),
          ih fun d' hd' ↦ h d' (List.mem_cons_of_mem d hd')]
        rfl
  exact hall _ fun _ ↦ digit_lt

theorem isAsciiDigit_digit {d : ℕ} (h : d < 10) : isAsciiDigit (UInt8.ofNat (48 + d)) = true := by
  have hall : ∀ d < 10, isAsciiDigit (UInt8.ofNat (48 + d)) = true := by decide
  exact hall d h

theorem all_sixDigits (n : ℕ) :
    ((sixDigits n).map fun d ↦ UInt8.ofNat (48 + d)).all isAsciiDigit = true := by
  refine List.all_eq_true.mpr fun b hb ↦ ?_
  obtain ⟨d, hd, rfl⟩ := List.mem_map.mp hb
  exact isAsciiDigit_digit (digit_lt hd)

theorem parseU32_sixDigits {n : ℕ} (h : n < 1000000) :
    parseU32 ((sixDigits n).map fun d ↦ UInt8.ofNat (48 + d)) = some n := by
  have hvalue : ∀ d < 10, (UInt8.ofNat (48 + d)).toNat - 0x30 = d := by decide
  have hmod : ∀ m, m % 10 < 10 := fun m ↦ Nat.mod_lt m (by decide)
  rw [parseU32, if_pos ⟨by simp [sixDigits], all_sixDigits n⟩]
  simp only [sixDigits, List.map_cons, List.map_nil, List.foldl_cons, List.foldl_nil,
    hvalue _ (hmod _)]
  congr 1
  omega

theorem recoveryLoop_groups (words : List UInt16) (i : ℕ) (key : List UInt8)
    (hkey : key.length = 2 * i) (hi : i + words.length ≤ 8) :
    recoveryLoop (words.map recoveryGroup) i (key ++ List.replicate (2 * words.length) 0) i =
      .ok (key ++ recoveryKey words, i + words.length) := by
  induction words generalizing i key with
  | nil => simp [recoveryLoop, recoveryKey]
  | cons w words ih =>
      have hw := w.toNat_lt
      have hlen : words.length + 1 + i ≤ 8 := by
        rw [List.length_cons] at hi
        omega
      have hbytes : ¬ (((sixDigits (11 * w.toNat)).map fun d ↦ UInt8.ofNat (48 + d)).length ≠ 6 ∨
          ¬ ((sixDigits (11 * w.toNat)).map fun d ↦ UInt8.ofNat (48 + d)).all isAsciiDigit =
            true) := by
        rintro (hlength | hall)
        · exact hlength rfl
        · exact hall (all_sixDigits _)
      have hcopy : copyInto (key ++ List.replicate (2 * (words.length + 1)) 0) (i * 2)
          (i * 2 + 2) (leBytes 2 w.toNat) =
            .ok ((key ++ leBytes 2 w.toNat) ++ List.replicate (2 * words.length) 0) := by
        rw [Nat.mul_add, Nat.add_comm (2 * words.length), List.replicate_add, ← List.append_assoc]
        exact copyInto_segment (by omega) (by rw [List.length_append, hkey]; simp; omega) (by simp)
      have hrest := ih (i + 1) (key ++ leBytes 2 w.toNat)
        (by rw [List.length_append, hkey, length_leBytes]; omega) (by omega)
      rw [List.map_cons, recoveryLoop, utf8_recoveryGroup, List.length_cons, if_neg (by omega)]
      simp only [if_neg hbytes, parseU32_sixDigits (show 11 * w.toNat < 1000000 by omega),
        okOr_some, ok_bind]
      rw [if_neg (by omega), if_neg (by omega), Nat.mul_div_cancel_left _ (by decide)]
      simp only [hcopy, monadLift_ok, ok_bind, hrest, recoveryKey, List.flatMap_cons]
      rw [List.append_assoc, Nat.add_right_comm, Nat.add_assoc]

theorem splitOn_recoveryText (words : FixedArray UInt16 8) :
    (recoveryText words).toList.splitOn '-' = words.toList.map recoveryGroup := by
  rw [recoveryText, String.toList_ofList]
  refine List.splitOn_intercalate '-' (fun group hgroup hdash ↦ ?_) ?_
  · obtain ⟨w, -, rfl⟩ := List.mem_map.mp hgroup
    obtain ⟨d, hd, heq⟩ := List.mem_map.mp hdash
    have hall : ∀ d < 10, Nat.digitChar d ≠ '-' := by decide
    exact hall d (digit_lt hd) heq
  · intro hnil
    have hlen := congrArg List.length hnil
    rw [List.length_map, words.length_eq] at hlen
    cases hlen

theorem recoveryKeyHash_recoveryText (P : Crates) (words : FixedArray UInt16 8) :
    recoveryKeyHash P (recoveryText words) = .ok (P.sha256 (recoveryKey words.toList)) := by
  have hloop := recoveryLoop_groups words.toList 0 [] rfl (by rw [words.length_eq])
  rw [words.length_eq, List.nil_append, List.nil_append] at hloop
  rw [recoveryKeyHash, splitOn_recoveryText,
    show (zeros 16).toList = List.replicate (2 * 8) 0 from rfl, hloop]
  rfl

/-! ## Startup-key files -/

/-- A `.BEK` file: a 48-byte header, then entries, the first external-key entry
among which nests a key after 24 bytes. -/
structure BekLayout (bek : Bytes) (key : Octets 32) (entries props : List MetadataEntry)
    (external keyEntry : MetadataEntry) : Prop where
  file : ∃ header : Octets 48, bek.toList = header.toList ++ MetadataEntry.encodeAll entries
  encodable : ∀ e ∈ entries, e.Encodable
  find_external : property entries valueTypeExternalKey = some external
  nested : ∃ lead : Octets 24, external.data.toList = lead.toList ++ MetadataEntry.encodeAll props
  encodableNested : ∀ e ∈ props, e.Encodable
  find_key : property props valueTypeKey = some keyEntry
  holds : Holds keyEntry.data 4 key

theorem parseStartupKey_of_layout (p : Profile) {bek : Bytes} {key : Octets 32}
    {entries props : List MetadataEntry} {external keyEntry : MetadataEntry}
    (h : BekLayout bek key entries props external keyEntry) :
    parseStartupKey p bek = .ok key := by
  obtain ⟨header, hfile⟩ := h.file
  obtain ⟨lead, hnested⟩ := h.nested
  have hentries : MetadataEntry.entriesOf (bek.window 48 bek.length) = entries := by
    refine MetadataEntry.entriesOf_encodeAll h.encodable (by decide)
      (show _ = _ ++ Bytes.empty.toList from ?_)
    rw [MetadataEntry.window_suffix, hfile, List.drop_left' header.length_eq]
    exact (List.append_nil _).symm
  have hprops : external.nestedOf 24 = props := by
    rw [← lead.length_eq]
    exact MetadataEntry.nestedOf_encodeAll h.encodableNested hnested
  rw [parseStartupKey_eq, hentries, h.find_external, okOr_some, ok_bind, hprops, h.find_key,
    okOr_some, ok_bind, if_pos h.holds.length_le, h.holds.arrayAt_eq]

end Bitlocker
