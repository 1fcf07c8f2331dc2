import BitlockerForensic.Core.Diagnosis
import BitlockerForensic.Core.OneVolume

/-!
# A second credential for a volume

Passwords and recovery passwords reach the volume as a hash of their text,
stretched with the salt of the protector.  Two texts that come out as one key
collide in SHA-256, at inputs the derivation is seen to hash.
-/

namespace Bitlocker

open RustStd
open RustStd.Reader

/-! ## Collisions -/

/-- Two inputs, one of each list, that the hash does not tell apart. -/
def Collides {α β : Type} (hash : α → β) (xs ys : List α) : Prop :=
  ∃ x ∈ xs, ∃ y ∈ ys, x ≠ y ∧ hash x = hash y

theorem eq_or_collides {α β : Type} {hash : α → β} {xs ys : List α} {x y : α}
    (h : hash x = hash y) (hx : x ∈ xs) (hy : y ∈ ys) : x = y ∨ Collides hash xs ys := by
  by_cases hxy : x = y
  · exact .inl hxy
  · exact .inr ⟨x, hx, y, hy, hxy, h⟩

theorem Collides.mono {α β : Type} {hash : α → β} {xs ys xs' ys' : List α}
    (h : Collides hash xs ys) (hxs : xs ⊆ xs') (hys : ys ⊆ ys') : Collides hash xs' ys' := by
  obtain ⟨x, hx, y, hy, hne⟩ := h
  exact ⟨x, hxs hx, y, hys hy, hne⟩

/-! ## The text of a password -/

/-- The characters: no surrogates, and nothing past `0x10ffff`. -/
theorem toNat_char (c : Char) :
    c.toNat < 0xd800 ∨ 0xdfff < c.toNat ∧ c.toNat < 0x110000 := c.valid

theorem toNat_of_mem_utf16Units {c : Char} {u : ℕ} (hu : u ∈ utf16Units c) :
    (UInt16.ofNat u).toNat = u := by
  have hc := toNat_char c
  apply UInt16.toNat_ofNat_of_lt
  unfold utf16Units at hu
  split at hu
  · cases List.mem_singleton.mp hu
    change _ < 2 ^ 16
    omega
  · change _ < 2 ^ 16
    rcases List.mem_pair.mp hu with hu | hu <;> omega

/-- The units of a character tell where it ends: a leading surrogate is not a
character of its own. -/
theorem utf16Units_append_inj {c d : Char} {s t : List ℕ}
    (h : utf16Units c ++ s = utf16Units d ++ t) : c = d ∧ s = t := by
  have hc := toNat_char c
  have hd := toNat_char d
  unfold utf16Units at h
  split at h <;> split at h
  · obtain ⟨hhead, htail⟩ := List.cons.inj h
    exact ⟨Char.toNat_inj.mp hhead, htail⟩
  · obtain ⟨hhead, -⟩ := List.cons.inj h
    omega
  · obtain ⟨hhead, -⟩ := List.cons.inj h
    omega
  · obtain ⟨hlead, hrest⟩ := List.cons.inj h
    obtain ⟨htrail, htail⟩ := List.cons.inj hrest
    exact ⟨Char.toNat_inj.mp (by omega), htail⟩

theorem utf16Units_ne_nil (c : Char) : utf16Units c ≠ [] := by
  unfold utf16Units
  split <;> exact List.cons_ne_nil _ _

theorem flatMap_utf16Units_inj {s t : List Char}
    (h : s.flatMap utf16Units = t.flatMap utf16Units) : s = t := by
  induction s generalizing t with
  | nil =>
      cases t with
      | nil => rfl
      | cons d t => exact absurd (List.append_eq_nil_iff.mp h.symm).1 (utf16Units_ne_nil d)
  | cons c s ih =>
      cases t with
      | nil => exact absurd (List.append_eq_nil_iff.mp h).1 (utf16Units_ne_nil c)
      | cons d t =>
          obtain ⟨rfl, hrest⟩ := utf16Units_append_inj h
          rw [ih hrest]

theorem utf16Le_eq_recoveryKey (text : String) :
    utf16Le text = recoveryKey ((text.toList.flatMap utf16Units).map UInt16.ofNat) := by
  rw [utf16Le, recoveryKey, List.flatMap_map]
  apply List.flatMap_congr
  intro u hu
  obtain ⟨c, -, hc⟩ := List.mem_flatMap.mp hu
  rw [toNat_of_mem_utf16Units hc]

theorem utf16Le_inj {text text' : String} (h : utf16Le text = utf16Le text') : text = text' := by
  rw [utf16Le_eq_recoveryKey, utf16Le_eq_recoveryKey] at h
  have hwords := congrArg keyWords h
  rw [keyWords_recoveryKey, keyWords_recoveryKey] at hwords
  have hunits := congrArg (List.map UInt16.toNat) hwords
  have hback : ∀ text : String, ((text.toList.flatMap utf16Units).map UInt16.ofNat).map
      UInt16.toNat = text.toList.flatMap utf16Units := by
    intro text
    rw [List.map_map]
    conv_rhs => rw [← List.map_id (text.toList.flatMap utf16Units)]
    apply List.map_congr_left
    intro u hu
    obtain ⟨c, -, hc⟩ := List.mem_flatMap.mp hu
    exact toNat_of_mem_utf16Units hc
  rw [hback, hback] at hunits
  exact String.toList_inj.mp (flatMap_utf16Units_inj hunits)

/-! ## The key of a text -/

section Stretching

variable (P : Crates)

theorem stretchRounds_succ (hash : Octets 32) (salt : Octets 16) (count i : ℕ)
    (last : Octets 32) :
    stretchRounds P hash salt (count + 1) i last =
      P.sha256 ((stretchRounds P hash salt count i last).toList ++ hash.toList ++ salt.toList ++
        leBytes 8 (i + count)) := by
  induction count generalizing i last with
  | zero => rfl
  | succ count ih =>
      rw [stretchRounds, ih, stretchRounds]
      congr 3
      omega

/-- The input of the last round of the stretch. -/
def lastRound (hash : Octets 32) (salt : Octets 16) : List UInt8 :=
  (stretchRounds P hash salt (stretchIterations - 1) 0 (zeros 32)).toList ++ hash.toList ++
    salt.toList ++ leBytes 8 (stretchIterations - 1)

theorem stretched_eq_sha256 (hash : Octets 32) (salt : Octets 16) :
    stretched P hash salt = P.sha256 (lastRound P hash salt) := by
  have hround := stretchRounds_succ P hash salt (stretchIterations - 1) 0 (zeros 32)
  rw [Nat.zero_add] at hround
  exact hround

theorem lastRound_inj {hash hash' : Octets 32} {salt salt' : Octets 16}
    (h : lastRound P hash salt = lastRound P hash' salt') : hash = hash' ∧ salt = salt' := by
  obtain ⟨hfront, -⟩ := List.append_inj' h rfl
  obtain ⟨hlast, hsalt⟩ := List.append_inj' hfront (by rw [salt.length_eq, salt'.length_eq])
  obtain ⟨-, hhash⟩ := List.append_inj' hlast (by rw [hash.length_eq, hash'.length_eq])
  exact ⟨FixedArray.ext hhash, FixedArray.ext hsalt⟩

end Stretching

/-! ## Credentials of one kind -/

inductive SameKind : Credential → Credential → Prop where
  | password (text text' : String) : SameKind (.password text) (.password text')
  | recovery (text text' : String) : SameKind (.recoveryPassword text) (.recoveryPassword text')
  | clear : SameKind .clearKey .clearKey
  | startup (bek bek' : Bytes) : SameKind (.startupKey bek) (.startupKey bek')

theorem sameKind_of_protectorType {cred cred' : Credential}
    (h : cred.protectorType = cred'.protectorType) : SameKind cred cred' := by
  cases cred <;> cases cred' <;> simp only [Credential.protectorType] at h <;>
    first | constructor | exact absurd h (by decide)

/-! ## What a credential hashes -/

variable (P : Crates)

namespace Credential

/-- The hash that stands for a text, where the credential is one. -/
def keyHash : Credential → Option (Octets 32)
  | password text => some (passwordHash P text)
  | recoveryPassword text => some (P.sha256 (recoveredKey text))
  | clearKey => none
  | startupKey _ => none

/-- The inputs hashed for a text before the stretch. -/
def textInputs : Credential → List (List UInt8)
  | password text => [utf16Le text, (P.sha256 (utf16Le text)).toList]
  | recoveryPassword text => [recoveredKey text]
  | clearKey => []
  | startupKey _ => []

/-- The inputs hashed for a text, with that of the last round of its stretch. -/
def hashInputs (cred : Credential) (salt : Octets 16) : List (List UInt8) :=
  cred.textInputs P ++ ((cred.keyHash P).map fun hash ↦ lastRound P hash salt).toList

theorem lastRound_mem_hashInputs {cred : Credential} {hash : Octets 32}
    (h : cred.keyHash P = some hash) (salt : Octets 16) :
    lastRound P hash salt ∈ cred.hashInputs P salt := by
  rw [hashInputs, h]
  exact List.mem_append_right _ (List.mem_singleton.mpr rfl)

end Credential

theorem keyHash_of_brings {cred : Credential} {hash : Octets 32}
    (h : Brings P cred (.stretch hash)) : cred.keyHash P = some hash := by
  cases h with
  | password text => rfl
  | recovery htext => rfl

theorem recoveredKey_inj {text text' : String} (h : text ∈ recoveryPasswords)
    (h' : text' ∈ recoveryPasswords) (hkey : recoveredKey text = recoveredKey text') :
    text = text' := by
  obtain ⟨words, rfl⟩ := mem_recoveryPasswords.mp h
  obtain ⟨words', rfl⟩ := mem_recoveryPasswords.mp h'
  rw [recoveredKey_recoveryText, recoveredKey_recoveryText] at hkey
  rw [← recoveryPassword_recoveryKey, hkey, recoveryPassword_recoveryKey]

/-- Two texts of one kind with the same hash are one text, or collide on the way to it. -/
theorem eq_or_textInputs_collide {cred cred' : Credential} {hash hash' : Octets 32}
    (h : Brings P cred (.stretch hash)) (h' : Brings P cred' (.stretch hash'))
    (hkind : SameKind cred cred') (heq : hash = hash') :
    cred = cred' ∨ Collides P.sha256 (cred.textInputs P) (cred'.textInputs P) := by
  cases hkind with
  | password text text' =>
      cases h
      cases h'
      have houter : (P.sha256 (utf16Le text)).toList = (P.sha256 (utf16Le text')).toList ∨
          Collides P.sha256 ((Credential.password text).textInputs P)
            ((Credential.password text').textInputs P) :=
        eq_or_collides heq (List.mem_pair.mpr (.inr rfl)) (List.mem_pair.mpr (.inr rfl))
      rcases houter with hdigest | hcollides
      · refine (eq_or_collides (FixedArray.ext hdigest) (List.mem_pair.mpr (.inl rfl))
          (List.mem_pair.mpr (.inl rfl))).imp_left fun hutf16 ↦ ?_
        rw [utf16Le_inj hutf16]
      · exact .inr hcollides
  | recovery text text' =>
      cases h with
      | recovery htext =>
          cases h' with
          | recovery htext' =>
              refine (eq_or_collides heq (List.mem_singleton.mpr rfl)
                (List.mem_singleton.mpr rfl)).imp_left fun hkey ↦ ?_
              rw [recoveredKey_inj htext htext' hkey]
  | clear => cases h
  | startup bek bek' => cases h

/-- The stretched key commits to the text: one key means one text, or a collision. -/
theorem eq_or_hashInputs_collide {cred cred' : Credential} {hash hash' : Octets 32}
    (h : Brings P cred (.stretch hash)) (h' : Brings P cred' (.stretch hash'))
    (hkind : SameKind cred cred') {salt : Octets 16}
    (hkey : stretched P hash salt = stretched P hash' salt) :
    cred = cred' ∨ Collides P.sha256 (cred.hashInputs P salt) (cred'.hashInputs P salt) := by
  rw [stretched_eq_sha256, stretched_eq_sha256] at hkey
  have hround := eq_or_collides hkey
    (Credential.lastRound_mem_hashInputs P (keyHash_of_brings P h) salt)
    (Credential.lastRound_mem_hashInputs P (keyHash_of_brings P h') salt)
  refine hround.elim (fun hinput ↦ ?_) .inr
  obtain ⟨hhash, -⟩ := lastRound_inj P hinput
  refine (eq_or_textInputs_collide P h h' hkind hhash).imp_right fun hcollides ↦ ?_
  exact hcollides.mono (List.subset_append_left _ _) (List.subset_append_left _ _)

/-! ## Two credentials for one volume -/

/-- Credentials that bring the same secret.  Startup key files may differ around the key
they hold. -/
inductive SameSecret : Credential → Credential → Prop where
  | refl (cred : Credential) : SameSecret cred cred
  | startup {bek bek' : Bytes} {key : Octets 32}
      (h : Brings P (.startupKey bek) (.external key))
      (h' : Brings P (.startupKey bek') (.external key)) :
      SameSecret (.startupKey bek) (.startupKey bek')

theorem unwrapKeyOf_stretch_eq_ok {props : List MetadataEntry} {hash key : Octets 32} :
    unwrapKeyOf P props (.stretch hash) = .ok key ↔
      ∃ stretch, property props valueTypeStretch = some stretch ∧ 20 ≤ stretch.data.length ∧
        key = stretched P hash (arrayAt 16 stretch.data 4) := by
  rw [unwrapKeyOf]
  simp only [bind_eq_ok, okOr_eq_ok]
  constructor
  · rintro ⟨stretch, hstretch, hkey⟩
    split at hkey
    · rename_i hlen
      exact ⟨stretch, hstretch, hlen, (Except.ok.inj hkey).symm⟩
    · cases hkey
  · rintro ⟨stretch, hstretch, hlen, hkey⟩
    exact ⟨stretch, hstretch, by rw [if_pos hlen, hkey]⟩

/-- Credentials of one kind that unwrap a protector with one key hold one secret, or
their texts collide under its salt. -/
theorem sameSecret_or_collides {cred cred' : Credential} {unwrap unwrap' : VmkUnwrap}
    (h : Brings P cred unwrap) (h' : Brings P cred' unwrap')
    (hkind : SameKind cred cred') {props : List MetadataEntry}
    {key : Octets 32} (hkey : unwrapKeyOf P props unwrap = .ok key)
    (hkey' : unwrapKeyOf P props unwrap' = .ok key) :
    SameSecret P cred cred' ∨ ∃ stretch, property props valueTypeStretch = some stretch ∧
      Collides P.sha256 (cred.hashInputs P (arrayAt 16 stretch.data 4))
        (cred'.hashInputs P (arrayAt 16 stretch.data 4)) := by
  have htexts : ∀ {hash hash' : Octets 32}, unwrap = .stretch hash → unwrap' = .stretch hash' →
      SameSecret P cred cred' ∨ ∃ stretch, property props valueTypeStretch = some stretch ∧
        Collides P.sha256 (cred.hashInputs P (arrayAt 16 stretch.data 4))
          (cred'.hashInputs P (arrayAt 16 stretch.data 4)) := by
    rintro hash hash' rfl rfl
    obtain ⟨stretch, hstretch, -, hkey⟩ := (unwrapKeyOf_stretch_eq_ok P).mp hkey
    obtain ⟨stretch', hstretch', -, hkey'⟩ := (unwrapKeyOf_stretch_eq_ok P).mp hkey'
    obtain rfl : stretch = stretch' := Option.some.inj (hstretch.symm.trans hstretch')
    rcases eq_or_hashInputs_collide P h h' hkind (hkey.symm.trans hkey') with rfl | hcollides
    · exact .inl (.refl cred)
    · exact .inr ⟨stretch, hstretch, hcollides⟩
  cases hkind with
  | password text text' =>
      cases h
      cases h'
      exact htexts rfl rfl
  | recovery text text' =>
      cases h
      cases h'
      exact htexts rfl rfl
  | clear => exact .inl (.refl _)
  | startup bek bek' =>
      cases h with
      | startup hexternal hentry hlen =>
          cases h' with
          | startup hexternal' hentry' hlen' =>
              have hsame := (Except.ok.inj hkey).trans (Except.ok.inj hkey').symm
              refine .inl (.startup (.startup hexternal hentry hlen) ?_)
              rw [hsame]
              exact .startup hexternal' hentry' hlen'

/-- What it takes for a second credential of the kind to open a volume: it holds the
secret of the first; or SHA-256 collides between inputs hashed for the one and for the
other; or the tag of the stored VMK verifies under two different keys. -/
theorem second_credential_opens {p p' : Profile} {r r' : Reader} (himage : r'.image = r.image)
    {cred cred' : Credential} (htype : cred.protectorType = cred'.protectorType)
    {v v' : DecryptedVolume (SectorCipher P)} (h : cred.unlock P p r = .ok v)
    (h' : cred'.unlock P p' r' = .ok v') :
    ∃ e blob, vmkFor v.metadata cred.protectorType = some e ∧
      property (e.nestedOf 28) valueTypeAesCcm = some blob ∧
      (SameSecret P cred cred' ∨
        (∃ stretch, property (e.nestedOf 28) valueTypeStretch = some stretch ∧
          Collides P.sha256 (cred.hashInputs P (arrayAt 16 stretch.data 4))
            (cred'.hashInputs P (arrayAt 16 stretch.data 4))) ∨
        ∃ unwrap unwrap' key key', cred.unwrap P p = .ok unwrap ∧ cred'.unwrap P p' = .ok unwrap' ∧
          unwrapKeyOf P (e.nestedOf 28) unwrap = .ok key ∧
          unwrapKeyOf P (e.nestedOf 28) unwrap' = .ok key' ∧ key ≠ key' ∧
          (ccmOpen P key blob.data).isSome ∧ (ccmOpen P key' blob.data).isSome) := by
  obtain ⟨unwrap, hunwrap, hopened⟩ := Credential.opened P h
  obtain ⟨unwrap', hunwrap', hopened'⟩ := Credential.opened P h'
  have hmd := metadata_of_unlocks P himage h h'
  obtain ⟨kind, -, hderive⟩ := hopened.kind
  obtain ⟨kind', -, hderive'⟩ := hopened'.kind
  rw [hmd, ← htype] at hderive'
  obtain ⟨e, vmk, -, he, hvmk, -⟩ := (deriveCipher_eq_ok P).mp hderive
  obtain ⟨e', vmk', -, he', hvmk', -⟩ := (deriveCipher_eq_ok P).mp hderive'
  obtain rfl : e = e' := Option.some.inj (he.symm.trans he')
  obtain ⟨blob, key, container, hblob, hkey, hopen, -⟩ := (vmkOf_eq_ok P).mp hvmk
  obtain ⟨blob', key', container', hblob', hkey', hopen', -⟩ := (vmkOf_eq_ok P).mp hvmk'
  obtain rfl : blob = blob' := Option.some.inj (hblob.symm.trans hblob')
  refine ⟨e, blob, he, hblob, ?_⟩
  by_cases hsame : key = key'
  · subst hsame
    have hsecret := sameSecret_or_collides P ((unwrap_eq_ok P).mp hunwrap)
      ((unwrap_eq_ok P).mp hunwrap') (sameKind_of_protectorType htype) hkey hkey'
    exact hsecret.imp_right .inl
  · refine .inr (.inr ⟨unwrap, unwrap', key, key', hunwrap, hunwrap', hkey, hkey', hsame, ?_, ?_⟩)
    · rw [hopen]
      rfl
    · rw [hopen']
      rfl

/-- Two startup key files that differ in their headers open one volume, and hold one
secret. -/
theorem second_credential_sample :
    ∃ (bek bek' : Bytes) (v v' : DecryptedVolume (SectorCipher sampleCrates)),
      bek ≠ bek' ∧
      (Credential.startupKey bek).unlock sampleCrates .debug (Reader.ofImage cbcImage) = .ok v ∧
      (Credential.startupKey bek').unlock sampleCrates .release (Reader.ofImage cbcImage) =
        .ok v' ∧
      SameSecret sampleCrates (.startupKey bek) (.startupKey bek') := by
  have hfree := Reader.errorFree_ofImage cbcImage
  have hunwrap : ∀ (header : Octets 48) (p : Profile),
      (Credential.startupKey (bekFile header sampleClearKey)).unwrap sampleCrates p =
        .ok (.external sampleClearKey) := by
    intro header p
    rw [Credential.unwrap, parseStartupKey_of_layout p (bekLayout_bekFile header sampleClearKey)]
    rfl
  obtain ⟨v, hv, -, -, hmd, -⟩ :=
    SampleVolumeKey.unlocks (.startup (zeros 48)) .debug hfree rfl
  obtain ⟨v', hv', -⟩ := SampleVolumeKey.unlocks (.startup (octets 1)) .release hfree rfl
  have htype : ∀ bek bek', (Credential.startupKey bek).protectorType =
      (Credential.startupKey bek').protectorType := fun _ _ ↦ rfl
  refine ⟨_, _, v, v', by decide +kernel, hv, hv', ?_⟩
  obtain ⟨e, blob, he, -, hsecret | ⟨stretch, hstretch, -⟩ |
    ⟨unwrap, unwrap', key, key', hfirst, hsecond, hkey, hkey', hne, -⟩⟩ :=
    second_credential_opens sampleCrates rfl (htype _ _) hv hv'
  · exact hsecret
  · -- The entry has no stretch property for texts to collide under.
    have hentry : e = startupVmk sampleVmk.blob := by
      rw [hmd, SampleVolumeKey.vmkFor_block (.startup (zeros 48))] at he
      exact (Option.some.inj he).symm
    have hnone : property ((startupVmk sampleVmk.blob).nestedOf 28) valueTypeStretch = none := by
      decide +kernel
    rw [hentry, hnone] at hstretch
    cases hstretch
  · -- Both files give the same key.
    rw [hunwrap] at hfirst hsecond
    cases hfirst
    cases hsecond
    exact absurd (Except.ok.inj (hkey.symm.trans hkey')) hne

end Bitlocker
