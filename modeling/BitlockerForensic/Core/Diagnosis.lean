import BitlockerForensic.Core.EntryGrammar
import BitlockerForensic.Core.MetadataSearch
import BitlockerForensic.Core.RecoveryPassword
import BitlockerForensic.Core.Safety

/-!
# Why an unlock fails

Each error an unlock can return, with what must be true of the image and the
credential for it.  The stages come in a fixed order (the credential, the header,
the metadata, the method, the protector, the VMK, the FVEK), and each fault takes
for granted that the stages before it passed.  Of several VMK entries of one type the
unlock looks at the first only, and so do the faults.
-/

namespace Bitlocker

open RustStd
open RustStd.Reader

variable (P : Crates)

/-! ## Recovery passwords -/

def groupFault (group : List Char) : Option String :=
  if ¬ (group.length = 6 ∧ group.all Char.isDigit = true) then
    some "each recovery group must be 6 digits"
  else if decimal group % 11 ≠ 0 then
    some "recovery group failed the divisible-by-11 checksum"
  else if decimal group / 11 > 0xffff then
    some "recovery group out of range (value / 11 exceeds 16 bits)"
  else none

/-- The first of the leading `count` groups that is at fault, or else that there
are too many. -/
def leadingFault (count : ℕ) (groups : List (List Char)) : Option String :=
  ((groups.take count).findSome? groupFault).or
    (if groups.length ≤ count then none else some "recovery password must be exactly 8 groups")

/-- The reason to refuse a text, by its groups. -/
def recoveryFault (groups : List (List Char)) : Option String :=
  (leadingFault 8 groups).or
    (if groups.length = 8 then none else some "recovery password must be exactly 8 groups")

theorem sixDigits_iff {group : List Char} :
    ((group.flatMap String.utf8EncodeChar).length ≠ 6 ∨
        ¬ (group.flatMap String.utf8EncodeChar).all isAsciiDigit = true) ↔
      ¬ (group.length = 6 ∧ group.all Char.isDigit = true) := by
  rw [← not_and_or, not_iff_not, List.all_eq_true (p := Char.isDigit)]
  constructor
  · rintro ⟨hlen, hall⟩
    have hdigits := isDigit_of_utf8 hall
    rw [utf8_group hdigits, List.length_map] at hlen
    exact ⟨hlen, hdigits⟩
  · rintro ⟨hlen, hdigits⟩
    rw [utf8_group hdigits]
    refine ⟨by rw [List.length_map, hlen], List.all_eq_true.mpr ?_⟩
    intro b hb
    obtain ⟨c, hc, rfl⟩ := List.mem_map.mp hb
    rw [isAsciiDigit_iff, toNat_digit (hdigits c hc)]
    exact isDigit_iff.mp (hdigits c hc)

theorem leadingFault_cons {count : ℕ} (hcount : 0 < count) (group : List Char)
    (groups : List (List Char)) :
    leadingFault count (group :: groups) =
      (groupFault group).or (leadingFault (count - 1) groups) := by
  obtain ⟨n, rfl⟩ : ∃ n, count = n + 1 := ⟨count - 1, by omega⟩
  simp only [leadingFault, List.take_succ_cons, List.findSome?_cons, List.length_cons,
    Nat.add_le_add_iff_right, Nat.add_sub_cancel]
  cases groupFault group <;> simp

theorem recoveryLoop_eq_err {groups : List (List Char)} {i n : ℕ} {key : List UInt8}
    {reason : String} (hkey : key.length = 16) :
    recoveryLoop groups i key n = .error (.err reason) ↔
      leadingFault (8 - i) groups = some reason := by
  induction groups generalizing i n key with
  | nil => simp [recoveryLoop, leadingFault]
  | cons group groups ih =>
      have herr : ∀ text : String,
          (.error (.err text) : Res String (List UInt8 × ℕ)) = .error (.err reason) ↔
            some text = some reason := by simp
      rw [recoveryLoop]
      by_cases hcount : i ≥ 8
      · have hmany : leadingFault (8 - i) (group :: groups) =
            some "recovery password must be exactly 8 groups" := by
          rw [Nat.sub_eq_zero_of_le hcount]
          rfl
        rw [if_pos hcount, hmany]
        exact herr _
      · rw [if_neg hcount, leadingFault_cons (by omega), Nat.sub_sub, groupFault]
        by_cases hsix : ¬ (group.length = 6 ∧ group.all Char.isDigit = true)
        · rw [if_pos hsix]
          simp only [if_pos (sixDigits_iff.mpr hsix), Option.some_or]
          exact herr _
        · simp only [if_neg (mt sixDigits_iff.mp hsix), if_neg hsix]
          obtain ⟨hlen, hdigits⟩ := not_not.mp hsix
          have hgroup : group ≠ [] := by
            rintro rfl
            cases hlen
          rw [parseU32_utf8 hgroup (List.all_eq_true.mp hdigits), okOr_some, ok_bind]
          by_cases hchecksum : decimal group % 11 ≠ 0
          · rw [if_pos hchecksum, if_pos hchecksum, Option.some_or]
            exact herr _
          · rw [if_neg hchecksum, if_neg hchecksum]
            by_cases hrange : decimal group / 11 > 0xffff
            · rw [if_pos hrange, if_pos hrange, Option.some_or]
              exact herr _
            · have hword : (leBytes 2 (decimal group / 11)).length = i * 2 + 2 - i * 2 := by
                rw [length_leBytes]
                omega
              rw [if_neg hrange, if_neg hrange, Option.none_or,
                copyInto_ok (by omega) (by omega) hword]
              refine ih ?_
              simp only [List.length_append, List.length_take, List.length_drop, hword]
              omega

theorem recoveryKeyHash_eq_err {text reason : String} :
    recoveryKeyHash P text = .error (.err reason) ↔
      recoveryFault (text.toList.splitOn '-') = some reason := by
  have hkey := (zeros 16).length_eq
  rw [recoveryKeyHash, recoveryFault]
  rcases hloop : recoveryLoop (text.toList.splitOn '-') 0 (zeros 16).toList 0 with
    (err | cause) | out
  · rw [(recoveryLoop_eq_err hkey).mp hloop, Option.some_or, error_bind]
    simp
  · exact absurd (recoveryLoop_noPanic _ 0 0 hkey _ hloop) id
  · have hnone : leadingFault (8 - 0) (text.toList.splitOn '-') = none := by
      rw [Option.eq_none_iff_forall_ne_some]
      intro err herr
      rw [(recoveryLoop_eq_err hkey).mpr herr] at hloop
      cases hloop
    obtain ⟨-, hcount⟩ := of_recoveryLoop hloop
    rw [Nat.zero_add] at hcount
    rw [hnone, Option.none_or, ok_bind]
    dsimp only
    rw [hcount]
    by_cases height : (text.toList.splitOn '-').length = 8
    · rw [if_neg (not_not.mpr height), if_pos height]
      simp [pure, Except.pure]
    · rw [if_pos height, if_neg height]
      simp [throw, throwThe, MonadExceptOf.throw]

/-! ## The credential -/

/-- What a `.BEK` file lacks. -/
inductive BekFault (bek : Bytes) : BdeError → Prop where
  | noExternalKey
      (hexternal : property (MetadataEntry.entriesOf (bek.window 48 bek.length))
        valueTypeExternalKey = none) :
      BekFault bek (.missingKeyMaterial "external key")
  | noKeyProperty {external : MetadataEntry}
      (hexternal : property (MetadataEntry.entriesOf (bek.window 48 bek.length))
        valueTypeExternalKey = some external)
      (hkey : property (external.nestedOf 24) valueTypeKey = none) :
      BekFault bek (.missingKeyMaterial "external key property")
  | shortKey {external key : MetadataEntry}
      (hexternal : property (MetadataEntry.entriesOf (bek.window 48 bek.length))
        valueTypeExternalKey = some external)
      (hkey : property (external.nestedOf 24) valueTypeKey = some key)
      (hshort : key.data.length < 36) :
      BekFault bek (.malformedKeyContainer "external key" key.data.length 36)

theorem parseStartupKey_eq_err {p : Profile} {bek : Bytes} {e : BdeError} :
    parseStartupKey p bek = .error (.err e) ↔ BekFault bek e := by
  rw [parseStartupKey_eq]
  simp only [bind_eq_error, okOr_eq_err, okOr_eq_ok]
  constructor
  · rintro (⟨hexternal, rfl⟩ | ⟨external, hexternal, ⟨hkey, rfl⟩ | ⟨key, hkey, hlen⟩⟩)
    · exact .noExternalKey hexternal
    · exact .noKeyProperty hexternal hkey
    · split at hlen
      · cases hlen
      · rename_i hshort
        cases hlen
        exact .shortKey hexternal hkey (Nat.lt_of_not_le hshort)
  · rintro (hexternal | ⟨hexternal, hkey⟩ | ⟨hexternal, hkey, hshort⟩)
    · exact Or.inl ⟨hexternal, rfl⟩
    · exact Or.inr ⟨_, hexternal, Or.inl ⟨hkey, rfl⟩⟩
    · refine Or.inr ⟨_, hexternal, Or.inr ⟨_, hkey, ?_⟩⟩
      rw [if_neg (Nat.not_le.mpr hshort)]

/-- What makes a credential unusable on any volume. -/
inductive CredentialFault : Credential → BdeError → Prop where
  | recovery {text reason : String}
      (hfault : recoveryFault (text.toList.splitOn '-') = some reason) :
      CredentialFault (.recoveryPassword text) (.invalidRecoveryPassword reason)
  | startup {bek : Bytes} {e : BdeError} (hbek : BekFault bek e) :
      CredentialFault (.startupKey bek) e

theorem unwrap_eq_err {p : Profile} {cred : Credential} {e : BdeError} :
    cred.unwrap P p = .error (.err e) ↔ CredentialFault cred e := by
  cases cred with
  | password text =>
      constructor
      · intro h
        cases h
      · rintro ⟨⟩
  | clearKey =>
      constructor
      · intro h
        cases h
      · rintro ⟨⟩
  | recoveryPassword text =>
      rw [Credential.unwrap]
      constructor
      · intro h
        rcases hhash : recoveryKeyHash P text with (reason | cause) | keyHash
        · rw [hhash] at h
          cases h
          exact .recovery ((recoveryKeyHash_eq_err P).mp hhash)
        · rw [hhash] at h
          cases h
        · rw [hhash] at h
          cases h
      · intro h
        cases h with
        | recovery hfault =>
            rw [(recoveryKeyHash_eq_err P).mpr hfault]
            rfl
  | startupKey bek =>
      rw [Credential.unwrap]
      constructor
      · intro h
        rcases hparse : parseStartupKey p bek with fault | key
        · rw [hparse] at h
          cases h
          exact .startup (parseStartupKey_eq_err.mp hparse)
        · rw [hparse] at h
          cases h
      · intro h
        cases h with
        | startup hbek =>
            rw [parseStartupKey_eq_err.mpr hbek]
            rfl

/-- The key material a usable credential brings. -/
inductive Brings : Credential → VmkUnwrap → Prop where
  | password (text : String) : Brings (.password text) (.stretch (passwordHash P text))
  | recovery {text : String} (htext : text ∈ recoveryPasswords) :
      Brings (.recoveryPassword text) (.stretch (P.sha256 (recoveredKey text)))
  | clear : Brings .clearKey .clear
  | startup {bek : Bytes} {external key : MetadataEntry}
      (hexternal : property (MetadataEntry.entriesOf (bek.window 48 bek.length))
        valueTypeExternalKey = some external)
      (hkey : property (external.nestedOf 24) valueTypeKey = some key)
      (hlen : 36 ≤ key.data.length) :
      Brings (.startupKey bek) (.external (arrayAt 32 key.data 4))

theorem recoveryKeyHash_eq_ok {text : String} {hash : Octets 32} :
    recoveryKeyHash P text = .ok hash ↔
      text ∈ recoveryPasswords ∧ hash = P.sha256 (recoveredKey text) := by
  have hhash : text ∈ recoveryPasswords →
      recoveryKeyHash P text = .ok (P.sha256 (recoveredKey text)) := by
    intro htext
    obtain ⟨words, rfl⟩ := mem_recoveryPasswords.mp htext
    rw [recoveryKeyHash_recoveryText, recoveredKey_recoveryText]
  constructor
  · intro h
    have htext := mem_of_recoveryKeyHash h
    rw [hhash htext] at h
    exact ⟨htext, (Except.ok.inj h).symm⟩
  · rintro ⟨htext, rfl⟩
    exact hhash htext

theorem parseStartupKey_eq_arrayAt {p : Profile} {bek : Bytes} {out : Octets 32} :
    parseStartupKey p bek = .ok out ↔
      ∃ external key, property (MetadataEntry.entriesOf (bek.window 48 bek.length))
          valueTypeExternalKey = some external ∧
        property (external.nestedOf 24) valueTypeKey = some key ∧ 36 ≤ key.data.length ∧
        out = arrayAt 32 key.data 4 := by
  rw [parseStartupKey_eq_ok]
  refine exists₂_congr fun external key ↦ and_congr_right fun _ ↦ and_congr_right fun _ ↦
    and_congr_right fun hlen ↦ ?_
  have hkey : (arrayAt 32 key.data 4).toList = (key.data.toList.take 36).drop 4 :=
    arrayAt_toList hlen
  rw [← hkey]
  exact ⟨FixedArray.ext, congrArg FixedArray.toList⟩

theorem unwrap_eq_ok {p : Profile} {cred : Credential} {unwrap : VmkUnwrap} :
    cred.unwrap P p = .ok unwrap ↔ Brings P cred unwrap := by
  cases cred with
  | password text =>
      constructor
      · intro h
        cases h
        exact .password text
      · rintro ⟨⟩
        rfl
  | clearKey =>
      constructor
      · intro h
        cases h
        exact .clear
      · rintro ⟨⟩
        rfl
  | recoveryPassword text =>
      rw [Credential.unwrap]
      constructor
      · intro h
        rcases hhash : recoveryKeyHash P text with (reason | cause) | keyHash
        · rw [hhash] at h
          cases h
        · rw [hhash] at h
          cases h
        · rw [hhash] at h
          cases h
          obtain ⟨htext, rfl⟩ := (recoveryKeyHash_eq_ok P).mp hhash
          exact .recovery htext
      · intro h
        cases h with
        | recovery htext =>
            rw [(recoveryKeyHash_eq_ok P).mpr ⟨htext, rfl⟩]
            rfl
  | startupKey bek =>
      rw [Credential.unwrap]
      constructor
      · intro h
        rcases hparse : parseStartupKey p bek with fault | key
        · rw [hparse] at h
          cases h
        · rw [hparse] at h
          cases h
          obtain ⟨external, entry, hexternal, hkey, hlen, rfl⟩ :=
            parseStartupKey_eq_arrayAt.mp hparse
          exact .startup hexternal hkey hlen
      · intro h
        cases h with
        | startup hexternal hkey hlen =>
            rw [parseStartupKey_eq_arrayAt.mpr ⟨_, _, hexternal, hkey, hlen, rfl⟩]
            rfl

/-! ## The volume master key -/

/-- What an entry's properties lack of the key that opens its blob. -/
inductive UnwrapFault (props : List MetadataEntry) : VmkUnwrap → BdeError → Prop where
  | noStretch {keyHash : Octets 32} (hstretch : property props valueTypeStretch = none) :
      UnwrapFault props (.stretch keyHash) (.missingKeyMaterial "stretch key")
  | shortSalt {keyHash : Octets 32} {stretch : MetadataEntry}
      (hstretch : property props valueTypeStretch = some stretch)
      (hshort : stretch.data.length < 20) :
      UnwrapFault props (.stretch keyHash) (.missingKeyMaterial "stretch salt")
  | noClearKey (hkey : property props valueTypeKey = none) :
      UnwrapFault props .clear (.missingKeyMaterial "clear key")
  | shortClearKey {key : MetadataEntry} (hkey : property props valueTypeKey = some key)
      (hshort : key.data.length < 36) :
      UnwrapFault props .clear (.malformedKeyContainer "clear" key.data.length 36)

theorem unwrapKeyOf_eq_err {props : List MetadataEntry} {unwrap : VmkUnwrap} {e : BdeError} :
    unwrapKeyOf P props unwrap = .error (.err e) ↔ UnwrapFault props unwrap e := by
  cases unwrap with
  | external key =>
      constructor
      · intro h
        cases h
      · rintro ⟨⟩
  | stretch keyHash =>
      simp only [unwrapKeyOf, bind_eq_error, okOr_eq_err, okOr_eq_ok]
      constructor
      · rintro (⟨hstretch, rfl⟩ | ⟨stretch, hstretch, hlen⟩)
        · exact .noStretch hstretch
        · split at hlen
          · cases hlen
          · rename_i hshort
            cases hlen
            exact .shortSalt hstretch (Nat.lt_of_not_le hshort)
      · rintro (hstretch | ⟨hstretch, hshort⟩)
        · exact Or.inl ⟨hstretch, rfl⟩
        · exact Or.inr ⟨_, hstretch, if_neg (Nat.not_le.mpr hshort)⟩
  | clear =>
      simp only [unwrapKeyOf, bind_eq_error, okOr_eq_err, okOr_eq_ok]
      constructor
      · rintro (⟨hkey, rfl⟩ | ⟨key, hkey, hlen⟩)
        · exact .noClearKey hkey
        · split at hlen
          · cases hlen
          · rename_i hshort
            cases hlen
            exact .shortClearKey hkey (Nat.lt_of_not_le hshort)
      · rintro (_ | _ | hkey | ⟨hkey, hshort⟩)
        · exact Or.inl ⟨hkey, rfl⟩
        · exact Or.inr ⟨_, hkey, if_neg (Nat.not_le.mpr hshort)⟩

/-- What keeps the credential's key from yielding the VMK of an entry. -/
inductive VmkFault (e : MetadataEntry) (unwrap : VmkUnwrap) : BdeError → Prop where
  | noBlob (hblob : property (e.nestedOf 28) valueTypeAesCcm = none) :
      VmkFault e unwrap (.missingKeyMaterial "VMK AES-CCM key")
  | noKey {blob : MetadataEntry} {err : BdeError}
      (hblob : property (e.nestedOf 28) valueTypeAesCcm = some blob)
      (hkey : UnwrapFault (e.nestedOf 28) unwrap err) : VmkFault e unwrap err
  | wrongKey {blob : MetadataEntry} {key : Octets 32}
      (hblob : property (e.nestedOf 28) valueTypeAesCcm = some blob)
      (hkey : unwrapKeyOf P (e.nestedOf 28) unwrap = .ok key)
      (htag : ccmOpen P key blob.data = none) :
      VmkFault e unwrap (.authenticationFailed "volume master key")
  | shortVmk {blob : MetadataEntry} {key : Octets 32} {container : Bytes}
      (hblob : property (e.nestedOf 28) valueTypeAesCcm = some blob)
      (hkey : unwrapKeyOf P (e.nestedOf 28) unwrap = .ok key)
      (hopen : ccmOpen P key blob.data = some container) (hshort : container.length < 44) :
      VmkFault e unwrap (.malformedKeyContainer "volume master key" container.length 44)

theorem vmkOf_eq_err {e : MetadataEntry} {unwrap : VmkUnwrap} {err : BdeError} :
    vmkOf P e unwrap = .error (.err err) ↔ VmkFault P e unwrap err := by
  simp only [vmkOf, bind_eq_error, okOr_eq_err, okOr_eq_ok, unwrapKeyOf_eq_err]
  constructor
  · rintro (⟨hblob, rfl⟩ |
      ⟨blob, hblob, hkey | ⟨key, hkey, ⟨htag, rfl⟩ | ⟨container, hopen, hlen⟩⟩⟩)
    · exact .noBlob hblob
    · exact .noKey hblob hkey
    · exact .wrongKey hblob hkey htag
    · split at hlen
      · cases hlen
      · rename_i hshort
        cases hlen
        exact .shortVmk hblob hkey hopen (Nat.lt_of_not_le hshort)
  · rintro (hblob | ⟨hblob, hkey⟩ | ⟨hblob, hkey, htag⟩ | ⟨hblob, hkey, hopen, hshort⟩)
    · exact Or.inl ⟨hblob, rfl⟩
    · exact Or.inr ⟨_, hblob, Or.inl hkey⟩
    · exact Or.inr ⟨_, hblob, Or.inr ⟨_, hkey, Or.inl ⟨htag, rfl⟩⟩⟩
    · exact Or.inr ⟨_, hblob, Or.inr ⟨_, hkey, Or.inr ⟨_, hopen,
        if_neg (Nat.not_le.mpr hshort)⟩⟩⟩

/-! ## The volume encryption key -/

/-- The number of bytes a kind misses first: the diffuser's key lies behind the
FVEK. -/
def SectorCipherKind.needed (kind : SectorCipherKind) (got : ℕ) : ℕ :=
  if kind = .cbc128Diffuser ∧ got < 28 then 28 else kind.keyEnd

inductive FvekFault (md : FveMetadata) (kind : SectorCipherKind) (vmk : Octets 32) :
    BdeError → Prop where
  | noEntry (hfvek : md.fvekEntry = none) :
      FvekFault md kind vmk (.missingKeyMaterial "FVEK entry")
  | wrongVmk {fvek : MetadataEntry} (hfvek : md.fvekEntry = some fvek)
      (htag : ccmOpen P vmk fvek.data = none) :
      FvekFault md kind vmk (.authenticationFailed "FVEK")
  | shortKeys {fvek : MetadataEntry} {container : Bytes} (hfvek : md.fvekEntry = some fvek)
      (hopen : ccmOpen P vmk fvek.data = some container)
      (hshort : container.length < kind.keyEnd) :
      FvekFault md kind vmk
        (.malformedKeyContainer "FVEK" container.length (kind.needed container.length))

theorem buildCipher_needed (p : Profile) {container : Bytes} {kind : SectorCipherKind}
    (h : container.length < kind.keyEnd) :
    buildCipher P p container kind =
      .error (.err (.malformedKeyContainer "FVEK" container.length
        (kind.needed container.length))) := by
  cases kind with
  | cbc128Diffuser =>
      by_cases hfirst : 12 + 16 ≤ container.length
      · rw [SectorCipherKind.needed, if_neg (by omega)]
        simp only [buildCipher, takeKey16]
        rw [takeKey_eq p "FVEK" (by decide), if_pos hfirst, ok_bind]
        exact bind_takeKey_short p "FVEK" (by decide) h _
      · rw [SectorCipherKind.needed, if_pos ⟨rfl, by omega⟩]
        exact bind_takeKey_short p "FVEK" (by decide) (Nat.lt_of_not_le hfirst) _
  | cbc128 => exact bind_takeKey_short p "FVEK" (by decide) h _
  | cbc256 => exact bind_takeKey_short p "FVEK" (by decide) h _
  | xts128 => exact bind_takeKey_short p "FVEK" (by decide) h _
  | xts256 => exact bind_takeKey_short p "FVEK" (by decide) h _

theorem keyed_eq_err {p : Profile} {md : FveMetadata} {kind : SectorCipherKind}
    {vmk : Octets 32} {e : BdeError} :
    (fvekContainer P md vmk >>= fun container ↦ buildCipher P p container kind) =
        .error (.err e) ↔
      FvekFault P md kind vmk e := by
  simp only [fvekContainer, bind_assoc, bind_eq_error, okOr_eq_err, okOr_eq_ok]
  constructor
  · rintro (⟨hfvek, rfl⟩ | ⟨fvek, hfvek, ⟨htag, rfl⟩ | ⟨container, hopen, hbuild⟩⟩)
    · exact .noEntry hfvek
    · exact .wrongVmk hfvek htag
    · by_cases hlen : kind.keyEnd ≤ container.length
      · rw [buildCipher_ok P p hlen] at hbuild
        cases hbuild
      · have hshort := Nat.lt_of_not_le hlen
        rw [buildCipher_needed P p hshort] at hbuild
        cases hbuild
        exact .shortKeys hfvek hopen hshort
  · rintro (hfvek | ⟨hfvek, htag⟩ | ⟨hfvek, hopen, hshort⟩)
    · exact Or.inl ⟨hfvek, rfl⟩
    · exact Or.inr ⟨_, hfvek, Or.inl ⟨htag, rfl⟩⟩
    · exact Or.inr ⟨_, hfvek, Or.inr ⟨_, hopen, buildCipher_needed P p hshort⟩⟩

/-! ## The volume -/

theorem metadataIn_eq_err {image : Image} {e : BdeError} :
    metadataIn image = .error (.err e) ↔
      (image.length < sectorSize ∧ e = .io unexpectedEof) ∨
      (sectorSize ≤ image.length ∧ candidates image.bytes = none ∧ ∃ signature : Octets 8,
        signature.toList = (image.bytes.take 11).drop 3 ∧ e = .notBitLocker signature) ∨
      (sectorSize ≤ image.length ∧ ∃ offsets, candidates image.bytes = some offsets ∧
        (∀ c ∈ offsets.toList, startsBlock image c = false) ∧ e = .noValidMetadata offsets) := by
  by_cases hlen : sectorSize ≤ image.length
  · rcases hcandidates : candidates image.bytes with _ | offsets
    · rcases headerIn_cases hlen with ⟨-, signature, hsig, hheader⟩ | ⟨vh, -, -, hsome⟩
      · rw [metadataIn, hheader, error_bind]
        constructor
        · intro h
          cases h
          exact Or.inr (Or.inl ⟨hlen, rfl, signature, hsig, rfl⟩)
        · rintro (⟨hshort, -⟩ | ⟨-, -, signature', hsig', rfl⟩ | ⟨-, offsets, hoffsets, -⟩)
          · omega
          · rw [FixedArray.ext (hsig.trans hsig'.symm)]
          · cases hoffsets
      · rw [hsome] at hcandidates
        cases hcandidates
    · rw [metadataIn_of_candidates hlen hcandidates, okOr_eq_err, firstBlock_eq]
      constructor
      · rintro ⟨hnone, rfl⟩
        refine Or.inr (Or.inr ⟨hlen, offsets, rfl, ?_, rfl⟩)
        intro c hc
        by_contra hstarts
        rw [Bool.not_eq_false] at hstarts
        rcases hfirst : offsets.toList.find? (startsBlock image) with _ | c'
        · exact absurd hstarts (by simpa using List.find?_eq_none.mp hfirst c hc)
        · obtain ⟨md, hmd⟩ :=
            blockAt_of_startsBlock (List.find?_some hfirst) (sectorBytes image.bytes)
          rw [hfirst, Option.bind_some, hmd] at hnone
          cases hnone
      · rintro (⟨hshort, -⟩ | ⟨-, hnone, -⟩ | ⟨-, offsets', hoffsets, hnone, rfl⟩)
        · omega
        · cases hnone
        · cases hoffsets
          have hfirst : offsets.toList.find? (startsBlock image) = none := by
            apply List.find?_eq_none.mpr
            intro c hc
            rw [hnone c hc]
            decide
          rw [hfirst]
          exact ⟨rfl, rfl⟩
  · rw [metadataIn, headerIn, if_neg hlen, error_bind]
    constructor
    · intro h
      cases h
      exact Or.inl ⟨Nat.lt_of_not_le hlen, rfl⟩
    · rintro (⟨-, rfl⟩ | ⟨hlong, -⟩ | ⟨hlong, -⟩)
      · rfl
      · exact absurd hlong hlen
      · exact absurd hlong hlen

theorem gate_eq_err {raw : UInt16} {e : BdeError} :
    gate raw = .error (.err e) ↔
      (¬ EncryptionMethod.Defined raw ∧ e = .unsupportedEncryptionMethod raw) ∨
        (raw = 0x8001 ∧ e = .unvalidatedEncryptionMethod raw) := by
  by_cases hdefined : EncryptionMethod.Defined raw
  · by_cases hraw : raw = 0x8001
    · subst hraw
      change Except.error (Fault.err (BdeError.unvalidatedEncryptionMethod 0x8001)) = _ ↔ _
      simp [hdefined, eq_comm]
    · have hkind : ∃ kind : SectorCipherKind, raw = kind.method := by
        rcases hdefined.cases with rfl | rfl | rfl | rfl | rfl | rfl
        · exact ⟨.cbc128Diffuser, rfl⟩
        · exact absurd rfl hraw
        · exact ⟨.cbc128, rfl⟩
        · exact ⟨.cbc256, rfl⟩
        · exact ⟨.xts128, rfl⟩
        · exact ⟨.xts256, rfl⟩
      obtain ⟨kind, hmethod⟩ := hkind
      rw [gate_eq_ok.mpr (gatedKind_eq_some.mpr hmethod)]
      simp [hdefined, hraw]
  · have hraw : raw ≠ 0x8001 := by
      rintro rfl
      exact hdefined (by decide)
    rw [gate, EncryptionMethod.decode_of_not_defined hdefined, okOr_none, error_bind]
    simp [hdefined, hraw, eq_comm]

/-- What keeps a volume closed to the key that the first VMK entry of a type is tried
with. -/
inductive VolumeFault (image : Image) (protectorType : UInt16) (protectorName : String)
    (unwrap : VmkUnwrap) : BdeError → Prop where
  | tooShort (hlen : image.length < sectorSize) :
      VolumeFault image protectorType protectorName unwrap (.io unexpectedEof)
  | notBitLocker {signature : Octets 8} (hlen : sectorSize ≤ image.length)
      (hnone : candidates image.bytes = none)
      (hsignature : signature.toList = (image.bytes.take 11).drop 3) :
      VolumeFault image protectorType protectorName unwrap (.notBitLocker signature)
  | noMetadata {offsets : FixedArray UInt64 3} (hlen : sectorSize ≤ image.length)
      (hoffsets : candidates image.bytes = some offsets)
      (hnone : ∀ c ∈ offsets.toList, startsBlock image c = false) :
      VolumeFault image protectorType protectorName unwrap (.noValidMetadata offsets)
  | unsupported {md : FveMetadata} (hmd : metadataIn image = .ok md)
      (hmethod : ¬ EncryptionMethod.Defined md.encryptionMethod) :
      VolumeFault image protectorType protectorName unwrap
        (.unsupportedEncryptionMethod md.encryptionMethod)
  | unvalidated {md : FveMetadata} (hmd : metadataIn image = .ok md)
      (hmethod : md.encryptionMethod = 0x8001) :
      VolumeFault image protectorType protectorName unwrap
        (.unvalidatedEncryptionMethod md.encryptionMethod)
  | noProtector {md : FveMetadata} {kind : SectorCipherKind} (hmd : metadataIn image = .ok md)
      (hmethod : md.encryptionMethod = kind.method)
      (hnone : ∀ e ∈ md.vmkEntries, e.typeField ≠ protectorType) :
      VolumeFault image protectorType protectorName unwrap
        (.noUnlockProtector protectorName (md.vmkEntries.map MetadataEntry.typeField))
  | vmk {md : FveMetadata} {kind : SectorCipherKind} {entry : MetadataEntry} {e : BdeError}
      (hmd : metadataIn image = .ok md) (hmethod : md.encryptionMethod = kind.method)
      (hentry : vmkFor md protectorType = some entry) (hvmk : VmkFault P entry unwrap e) :
      VolumeFault image protectorType protectorName unwrap e
  | fvek {md : FveMetadata} {kind : SectorCipherKind} {entry : MetadataEntry} {vmk : Octets 32}
      {e : BdeError} (hmd : metadataIn image = .ok md)
      (hmethod : md.encryptionMethod = kind.method)
      (hentry : vmkFor md protectorType = some entry) (hvmk : vmkOf P entry unwrap = .ok vmk)
      (hfvek : FvekFault P md kind vmk e) :
      VolumeFault image protectorType protectorName unwrap e

theorem deriveCipher_eq_err {p : Profile} {md : FveMetadata} {kind : SectorCipherKind}
    {protectorType : UInt16} {protectorName : String} {unwrap : VmkUnwrap} {e : BdeError} :
    deriveCipher P p md kind protectorType protectorName unwrap = .error (.err e) ↔
      (vmkFor md protectorType = none ∧
        .noUnlockProtector protectorName (md.vmkEntries.map MetadataEntry.typeField) = e) ∨
      ∃ entry, vmkFor md protectorType = some entry ∧ (VmkFault P entry unwrap e ∨
        ∃ vmk, vmkOf P entry unwrap = .ok vmk ∧ FvekFault P md kind vmk e) := by
  rw [deriveCipher_eq, bind_eq_error, okOr_eq_err]
  refine or_congr Iff.rfl (exists_congr fun entry ↦ and_congr okOr_eq_ok ?_)
  rw [bind_eq_error, vmkOf_eq_err]
  exact or_congr Iff.rfl (exists_congr fun vmk ↦ and_congr Iff.rfl (keyed_eq_err P))

theorem unlockIn_eq_err {p : Profile} {image : Image} {protectorType : UInt16}
    {protectorName : String} {unwrap : VmkUnwrap} {e : BdeError} :
    unlockIn P p image protectorType protectorName unwrap = .error (.err e) ↔
      VolumeFault P image protectorType protectorName unwrap e := by
  have hstages : unlockIn P p image protectorType protectorName unwrap = .error (.err e) ↔
      metadataIn image = .error (.err e) ∨ ∃ md, metadataIn image = .ok md ∧
        (gate md.encryptionMethod = .error (.err e) ∨
          ∃ kind, gate md.encryptionMethod = .ok kind ∧
            deriveCipher P p md kind protectorType protectorName unwrap = .error (.err e)) := by
    rw [unlockIn, bind_eq_error]
    refine or_congr Iff.rfl (exists_congr fun md ↦ and_congr Iff.rfl ?_)
    rw [bind_eq_error]
    refine or_congr Iff.rfl (exists_congr fun kind ↦ and_congr Iff.rfl ?_)
    simp [bind_eq_error, pure, Except.pure]
  simp only [hstages, gate_eq_err, gate_eq_ok, gatedKind_eq_some, deriveCipher_eq_err]
  constructor
  · rintro (hmd | ⟨md, hmd, (⟨hmethod, rfl⟩ | ⟨hmethod, rfl⟩) | ⟨kind, hmethod, hkeys⟩⟩)
    · rcases metadataIn_eq_err.mp hmd with ⟨hlen, rfl⟩ | ⟨hlen, hnone, signature, hsig, rfl⟩ |
        ⟨hlen, offsets, hoffsets, hnone, rfl⟩
      · exact .tooShort hlen
      · exact .notBitLocker hlen hnone hsig
      · exact .noMetadata hlen hoffsets hnone
    · exact .unsupported hmd hmethod
    · exact .unvalidated hmd hmethod
    · rcases hkeys with ⟨hnone, rfl⟩ | ⟨entry, hentry, hvmk | ⟨vmk, hvmk, hfvek⟩⟩
      · exact .noProtector hmd hmethod (vmkFor_eq_none.mp hnone)
      · exact .vmk hmd hmethod hentry hvmk
      · exact .fvek hmd hmethod hentry hvmk hfvek
  · intro h
    cases h with
    | tooShort hlen => exact Or.inl (metadataIn_eq_err.mpr (Or.inl ⟨hlen, rfl⟩))
    | notBitLocker hlen hnone hsig =>
        exact Or.inl (metadataIn_eq_err.mpr (Or.inr (Or.inl ⟨hlen, hnone, _, hsig, rfl⟩)))
    | noMetadata hlen hoffsets hnone =>
        exact Or.inl (metadataIn_eq_err.mpr (Or.inr (Or.inr ⟨hlen, _, hoffsets, hnone, rfl⟩)))
    | unsupported hmd hmethod => exact Or.inr ⟨_, hmd, Or.inl (Or.inl ⟨hmethod, rfl⟩)⟩
    | unvalidated hmd hmethod => exact Or.inr ⟨_, hmd, Or.inl (Or.inr ⟨hmethod, rfl⟩)⟩
    | noProtector hmd hmethod hnone =>
        exact Or.inr ⟨_, hmd, Or.inr ⟨_, hmethod, Or.inl ⟨vmkFor_eq_none.mpr hnone, rfl⟩⟩⟩
    | vmk hmd hmethod hentry hvmk =>
        exact Or.inr ⟨_, hmd, Or.inr ⟨_, hmethod, Or.inr ⟨_, hentry, Or.inl hvmk⟩⟩⟩
    | fvek hmd hmethod hentry hvmk hfvek =>
        exact Or.inr ⟨_, hmd, Or.inr ⟨_, hmethod, Or.inr ⟨_, hentry, Or.inr ⟨_, hvmk, hfvek⟩⟩⟩⟩

/-! ## The error of an unlock -/

/-- The stage at which an unlock stops: a fault of the credential, or of the volume for
the key the credential brings and the first VMK entry of its type. -/
inductive Diagnosis (image : Image) (cred : Credential) : BdeError → Prop where
  | credential {e : BdeError} (hcred : CredentialFault cred e) : Diagnosis image cred e
  | volume {unwrap : VmkUnwrap} {e : BdeError} (hcred : Brings P cred unwrap)
      (hvolume : VolumeFault P image cred.protectorType cred.protectorName unwrap e) :
      Diagnosis image cred e

theorem unwrap_noPanic (p : Profile) (cred : Credential) : NoPanic (cred.unwrap P p) := by
  cases cred with
  | password text => exact failsOnly_ok _
  | clearKey => exact failsOnly_ok _
  | recoveryPassword text =>
      have hhash := recoveryKeyHash_noPanic P text
      rw [Credential.unwrap]
      rcases hout : recoveryKeyHash P text with (reason | cause) | keyHash
      · exact failsOnly_error trivial
      · exact absurd (hhash _ hout) id
      · exact failsOnly_ok _
  | startupKey bek =>
      have hparse := parseStartupKey_noPanic p bek
      rw [Credential.unwrap]
      rcases hout : parseStartupKey p bek with fault | key
      · exact failsOnly_error (hparse _ hout)
      · exact failsOnly_ok _

theorem Credential.unlock_noPanic (p : Profile) (cred : Credential) (r : Reader) :
    NoPanic (cred.unlock P p r) := by
  rw [Credential.unlock_eq]
  exact FailsOnly.bind (unwrap_noPanic P p cred) fun unwrap _ ↦ Bitlocker.unlock_noPanic P p _ _ _ _

/-- The error of an unlock is that of the image, or one the device reported. -/
theorem unlock_eq_err {p : Profile} {protectorType : UInt16} {protectorName : String}
    {unwrap : VmkUnwrap} {r : Reader} {e : BdeError}
    (h : unlock P p protectorType protectorName unwrap r = .error (.err e)) :
    VolumeFault P r.image protectorType protectorName unwrap e ∨
      ∃ io, r.Reports io ∧ e = .io io := by
  unfold unlock at h
  split at h
  · cases h
  · rename_i fault r' hproc
    cases h
    obtain ⟨r₁, -, hok | ⟨io, hio, herr⟩⟩ :=
      yields_unlockProc P p protectorType protectorName unwrap r
    · rw [hproc] at hok
      exact Or.inl ((unlockIn_eq_err P).mp (Prod.mk.inj hok).1.symm)
    · rw [hproc] at herr
      cases herr
      exact Or.inr ⟨io, hio, rfl⟩

theorem Credential.unlock_eq_err {p : Profile} {cred : Credential} {r : Reader} {e : BdeError}
    (h : cred.unlock P p r = .error (.err e)) :
    Diagnosis P r.image cred e ∨ ∃ io, r.Reports io ∧ e = .io io := by
  rw [Credential.unlock_eq] at h
  rcases bind_eq_error.mp h with hcred | ⟨unwrap, hcred, hunlock⟩
  · exact Or.inl (.credential ((unwrap_eq_err P).mp hcred))
  · rcases Bitlocker.unlock_eq_err P hunlock with hvolume | hio
    · exact Or.inl (.volume ((unwrap_eq_ok P).mp hcred) hvolume)
    · exact Or.inr hio

/-- An error of an unlock is one the device reported or names the first stage that
fails, for the first VMK entry of the credential's type.  Over a device without errors
these are exactly the errors, and the unlock succeeds if and only if no stage fails. -/
theorem unlock_reports_first_fault (p : Profile) (cred : Credential) (r : Reader) :
    (∀ e, cred.unlock P p r = .error (.err e) →
      Diagnosis P r.image cred e ∨ ∃ io, r.Reports io ∧ e = .io io) ∧
    (r.ErrorFree →
      (∀ e, cred.unlock P p r = .error (.err e) ↔ Diagnosis P r.image cred e) ∧
      ((∃ v, cred.unlock P p r = .ok v) ↔ ∀ e, ¬ Diagnosis P r.image cred e)) := by
  refine ⟨fun e ↦ Credential.unlock_eq_err P, ?_⟩
  intro hfree
  have hexact : ∀ e, cred.unlock P p r = .error (.err e) ↔ Diagnosis P r.image cred e := by
    intro e
    constructor
    · intro h
      rcases Credential.unlock_eq_err P h with hfault | ⟨io, hio, -⟩
      · exact hfault
      · exact absurd hio (hfree io)
    · intro hfault
      rw [Credential.unlock_eq]
      cases hfault with
      | credential hcred =>
          rw [(unwrap_eq_err P).mpr hcred]
          rfl
      | volume hcred hvolume =>
          obtain ⟨r', -, hunlock⟩ := unlock_of_errorFree P p cred.protectorType
            cred.protectorName _ hfree
          rw [(unwrap_eq_ok P).mpr hcred, ok_bind, hunlock, (unlockIn_eq_err P).mpr hvolume]
          rfl
  refine ⟨hexact, ?_⟩
  constructor
  · rintro ⟨v, hv⟩ e hfault
    rw [(hexact e).mpr hfault] at hv
    cases hv
  · intro hnone
    rcases hunlock : cred.unlock P p r with (e | cause) | v
    · exact absurd ((hexact e).mp hunlock) (hnone e)
    · exact absurd (cred.unlock_noPanic P p r _ hunlock) id
    · exact ⟨v, rfl⟩

/-- The sample volume has no fault for a clear key, and only a protector of that
type to offer to a password. -/
theorem unlock_reports_sample :
    (Reader.ofImage (sampleImage 0 0)).ErrorFree ∧
      (∀ e, ¬ Diagnosis sampleCrates (sampleImage 0 0) .clearKey e) ∧
      (Credential.password "password").unlock sampleCrates .debug
          (Reader.ofImage (sampleImage 0 0)) =
        .error (.err (.noUnlockProtector "password" [protectionClear])) := by
  have hfree := Reader.errorFree_ofImage (sampleImage 0 0)
  have hclear := (unlock_reports_first_fault sampleCrates .debug .clearKey
    (Reader.ofImage (sampleImage 0 0))).2 hfree
  have hpassword := (unlock_reports_first_fault sampleCrates .debug (.password "password")
    (Reader.ofImage (sampleImage 0 0))).2 hfree
  have hmethod : ((sampleBlock 0 0).metadata 512).encryptionMethod =
      SectorCipherKind.cbc128.method := rfl
  have hother : ∀ e ∈ ((sampleBlock 0 0).metadata 512).vmkEntries,
      e.typeField ≠ protectionPassword := by
    decide +kernel
  have hfound : ((sampleBlock 0 0).metadata 512).vmkEntries.map MetadataEntry.typeField =
      [protectionClear] := by
    decide +kernel
  have hfault : VolumeFault sampleCrates (sampleImage 0 0) protectionPassword "password"
      (.stretch (passwordHash sampleCrates "password"))
      (.noUnlockProtector "password" [protectionClear]) := by
    rw [← hfound]
    exact .noProtector (metadataIn_sampleImage 0 0) hmethod hother
  exact ⟨hfree, hclear.2.mp (sampleImage_unlocks .debug 0 0 hfree rfl),
    (hpassword.1 _).mpr (.volume (.password "password") hfault)⟩

end Bitlocker
