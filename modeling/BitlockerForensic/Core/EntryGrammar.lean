import BitlockerForensic.Core.Secrets

/-!
# The grammar of entry sequences

`parse_sequence` decomposes every byte string in the only possible way: into
encoded entries and a rest that does not start with a complete one.  Nested
sequences and startup-key files are read through the same decomposition.
-/

namespace Bitlocker

open RustStd

theorem segment_append {α : Type} (l : List α) {a b c : ℕ} (hab : a ≤ b) (hbc : b ≤ c) :
    (l.take b).drop a ++ (l.take c).drop b = (l.take c).drop a := by
  have hhead : (l.take b).drop a = ((l.take c).drop a).take (b - a) := by
    rw [List.take_drop, Nat.add_sub_cancel' hab, List.take_take, Nat.min_eq_left hbc]
  have htail : (l.take c).drop b = ((l.take c).drop a).drop (b - a) := by
    rw [List.drop_drop, Nat.add_sub_cancel' hab]
  rw [hhead, htail, List.take_append_drop]

namespace MetadataEntry

/-! ## Decompositions -/

/-- The bytes do not start with a complete entry: they are shorter than an entry
header, or the size field is below 8 or runs past the end. -/
def NoEntry (rest : Bytes) : Prop :=
  rest.length < 8 ∨ leAt rest.toList 0 2 < 8 ∨ rest.length < leAt rest.toList 0 2

/-- The bytes are the encodings of the entries, then `rest`, which does not start
with a complete entry. -/
structure Decomposes (d : Bytes) (es : List MetadataEntry) (rest : Bytes) : Prop where
  encodable : ∀ e ∈ es, e.Encodable
  bytes_eq : d.toList = encodeAll es ++ rest.toList
  noEntry : NoEntry rest

theorem front_eq_none {rest : Bytes} : front rest = none ↔ NoEntry rest := by
  unfold front NoEntry
  dsimp only
  split
  · rename_i h
    simp only [reduceCtorEq, false_iff]
    omega
  · rename_i h
    simp only [true_iff]
    omega

theorem fields_of_front {d : Bytes} {e : MetadataEntry} (h : front d = some e) :
    e.entryType = UInt16.ofNat (leAt d.toList 2 2) ∧
      e.valueType = UInt16.ofNat (leAt d.toList 4 2) ∧
      e.version = UInt16.ofNat (leAt d.toList 6 2) ∧ e.data = d.window 8 e.size := by
  obtain ⟨hsize, -, -⟩ := size_of_front h
  rw [hsize]
  simp only [front] at h
  split at h
  · cases h
    exact ⟨rfl, rfl, rfl, rfl⟩
  · cases h

/-- The entry in front is encoded by the bytes it was read from. -/
theorem encode_front {d : Bytes} {e : MetadataEntry} (h : front d = some e) :
    e.Encodable ∧ d.toList = e.encode ++ (d.window e.size d.length).toList := by
  obtain ⟨hsize, hmin, hmax⟩ := size_of_front h
  obtain ⟨hentryType, hvalueType, hversion, hdata⟩ := fields_of_front h
  have hfield : ∀ off, leAt d.toList off 2 < 2 ^ 16 := fun off ↦ leAt_lt d.toList off 2
  have hsum : e.size = 8 + e.data.length := rfl
  have hlong : 8 ≤ d.toList.length := hmin.trans hmax
  have hfixed : ∀ off, off + 2 ≤ 8 →
      leBytes 2 (UInt16.ofNat (leAt d.toList off 2)).toNat =
        (d.toList.take (off + 2)).drop off := by
    intro off hoff
    have hnat : (UInt16.ofNat (leAt d.toList off 2)).toNat = leAt d.toList off 2 :=
      UInt16.toNat_ofNat_of_lt (hfield off)
    rw [hnat, leBytes_leAt (by omega)]
  have hsizeBytes : leBytes 2 e.size = d.toList.take 2 := by
    rw [hsize, leBytes_leAt (by omega), List.drop_zero]
  have hentry : e.encode = d.toList.take e.size := by
    rw [encode, hsizeBytes, hentryType, hvalueType, hversion, hfixed 2 (by omega),
      hfixed 4 (by omega), hfixed 6 (by omega), hdata, Bytes.window_toList,
      segment_append _ (by omega) hmin, segment_append _ (by omega) (by omega),
      segment_append _ (by omega) (by omega)]
    exact segment_append d.toList (Nat.zero_le 2) (by omega)
  constructor
  · have := hfield 0
    unfold Encodable
    omega
  · rw [hentry, window_suffix, List.take_append_drop]

/-- The parsed entries decompose the bytes they were parsed from. -/
theorem decomposes_entriesOf (d : Bytes) : ∃ rest, Decomposes d (entriesOf d) rest := by
  induction hn : d.length using Nat.strong_induction_on generalizing d with
  | _ n ih =>
      rw [entriesOf_step]
      cases hfront : front d with
      | none => exact ⟨d, List.forall_mem_nil _, rfl, front_eq_none.mp hfront⟩
      | some e =>
          obtain ⟨-, hmin, hmax⟩ := size_of_front hfront
          obtain ⟨hencodable, hbytes⟩ := encode_front hfront
          have hless : (d.window e.size d.length).length < n := by
            rw [d.window_length (le_refl _)]
            omega
          obtain ⟨rest, hrest⟩ := ih _ hless (d.window e.size d.length) rfl
          refine ⟨rest, ?_, ?_, hrest.noEntry⟩
          · exact List.forall_mem_cons.mpr ⟨hencodable, hrest.encodable⟩
          · rw [hbytes, hrest.bytes_eq, encodeAll_cons, List.append_assoc]

theorem entriesOf_eq_iff {d : Bytes} {es : List MetadataEntry} :
    entriesOf d = es ↔ ∃ rest, Decomposes d es rest := by
  constructor
  · intro h
    rw [← h]
    exact decomposes_entriesOf d
  · rintro ⟨rest, h⟩
    exact entriesOf_encodeAll h.encodable (front_eq_none.mpr h.noEntry) h.bytes_eq

/-- `parse_sequence` accepts exactly its grammar: its result is the one list of
entries whose encodings, followed by a rest that starts with no complete entry,
are the bytes.  Encoded lists parse back, the result re-encodes to a prefix of
the bytes, and a nested sequence is the same decomposition of the value data. -/
theorem parse_sequence_accepts_grammar (p : Profile) :
    (∀ d : Bytes, ∃! es, ∃ rest, Decomposes d es rest) ∧
      (∀ (d : Bytes) (es : List MetadataEntry),
        parseSequence p d = .ok es ↔ ∃ rest, Decomposes d es rest) ∧
      (∀ (es : List MetadataEntry) (rest d : Bytes), (∀ e ∈ es, e.Encodable) → NoEntry rest →
        d.toList = encodeAll es ++ rest.toList → parseSequence p d = .ok es) ∧
      (∀ (d : Bytes) (es : List MetadataEntry), parseSequence p d = .ok es →
        encodeAll es <+: d.toList) ∧
      ∀ (e : MetadataEntry) (offset : ℕ) (es : List MetadataEntry), e.nested p offset = .ok es ↔
        ∃ value rest : Bytes, value.toList = e.data.toList.drop (min offset e.data.length) ∧
          Decomposes value es rest := by
  have hparse : ∀ (d : Bytes) (es : List MetadataEntry),
      parseSequence p d = .ok es ↔ ∃ rest, Decomposes d es rest := by
    intro d es
    rw [parseSequence_eq, Except.ok.injEq]
    exact entriesOf_eq_iff
  refine ⟨?_, hparse, ?_, ?_, ?_⟩
  · intro d
    refine ⟨entriesOf d, decomposes_entriesOf d, ?_⟩
    intro es h
    exact (entriesOf_eq_iff.mpr h).symm
  · intro es rest d hencodable hrest hd
    exact (hparse d es).mpr ⟨rest, hencodable, hd, hrest⟩
  · intro d es h
    obtain ⟨rest, hrest⟩ := (hparse d es).mp h
    exact ⟨rest.toList, hrest.bytes_eq.symm⟩
  · intro e offset es
    rw [nested_eq, Except.ok.injEq, nestedOf, entriesOf_eq_iff]
    constructor
    · rintro ⟨rest, h⟩
      exact ⟨_, rest, window_suffix _ _, h⟩
    · rintro ⟨value, rest, hvalue, h⟩
      rw [← window_suffix] at hvalue
      rw [← Bytes.ext hvalue]
      exact ⟨rest, h⟩

end MetadataEntry

/-! ## Startup-key files -/

open MetadataEntry

theorem parseStartupKey_eq_ok {p : Profile} {bek : Bytes} {k : Octets 32} :
    parseStartupKey p bek = .ok k ↔
      ∃ external entry,
        property (entriesOf (bek.window 48 bek.length)) valueTypeExternalKey = some external ∧
        property (external.nestedOf 24) valueTypeKey = some entry ∧ 36 ≤ entry.data.length ∧
        k.toList = (entry.data.toList.take 36).drop 4 := by
  rw [parseStartupKey_eq]
  constructor
  · intro h
    obtain ⟨external, hexternal, hrest⟩ := bind_eq_ok.mp h
    obtain ⟨entry, hentry, hkey⟩ := bind_eq_ok.mp hrest
    split at hkey
    · rename_i hlen
      cases hkey
      exact ⟨external, entry, okOr_eq_ok.mp hexternal, okOr_eq_ok.mp hentry, hlen,
        arrayAt_toList hlen⟩
    · cases hkey
  · rintro ⟨external, entry, hexternal, hentry, hlen, hk⟩
    have hkey : arrayAt 32 entry.data 4 = k := by
      apply FixedArray.ext
      rw [hk]
      exact arrayAt_toList hlen
    rw [hexternal, okOr_some, ok_bind, hentry, okOr_some, ok_bind, if_pos hlen, hkey]

theorem property_of_before {before after : List MetadataEntry} {e : MetadataEntry}
    {valueType : UInt16} (hbefore : ∀ q ∈ before, q.valueType ≠ valueType)
    (he : e.valueType = valueType) : property (before ++ e :: after) valueType = some e := by
  have hnone : property before valueType = none := by
    apply List.find?_eq_none.mpr
    intro q hq htype
    exact hbefore q hq (of_decide_eq_true htype)
  unfold property at hnone ⊢
  rw [List.find?_append, hnone, Option.none_or]
  exact List.find?_cons_of_pos (decide_eq_true he)

theorem forall_mem_around {α : Type} {before after : List α} {a : α} {Q : α → Prop}
    (h : ∀ b ∈ before ++ after, Q b) (ha : Q a) : ∀ b ∈ before ++ a :: after, Q b := by
  intro b hb
  rcases List.mem_append.mp hb with hb | hb
  · exact h b (List.mem_append_left after hb)
  · rcases List.mem_cons.mp hb with rfl | hb
    · exact ha
    · exact h b (List.mem_append_right before hb)

/-- A file with other entries before and after its external key, and other
properties before and after the key in it. -/
theorem parseStartupKey_encoded (p : Profile) {bek : Bytes} {header : Octets 48} {lead : Octets 24}
    {keyType : Octets 4} {k : Octets 32}
    {before after propsBefore propsAfter : List MetadataEntry} {external entry : MetadataEntry}
    (hothers : ∀ e ∈ before ++ after, e.Encodable ∧ e.valueType ≠ valueTypeExternalKey)
    (hprops : ∀ e ∈ propsBefore ++ propsAfter, e.Encodable ∧ e.valueType ≠ valueTypeKey)
    (hencodable : external.Encodable) (hexternal : external.valueType = valueTypeExternalKey)
    (hentry : entry.valueType = valueTypeKey)
    (hkey : entry.data.toList = keyType.toList ++ k.toList)
    (hdata : external.data.toList = lead.toList ++ encodeAll (propsBefore ++ entry :: propsAfter))
    (hbek : bek.toList = header.toList ++ encodeAll (before ++ external :: after)) :
    parseStartupKey p bek = .ok k := by
  have hlen : entry.data.length = 36 := by
    rw [Bytes.length, hkey, List.length_append, keyType.length_eq, k.length_eq]
  have hencodableEntry : entry.Encodable := by
    rw [MetadataEntry.Encodable, hlen]
    decide
  have hlayout : BekLayout bek k (before ++ external :: after) (propsBefore ++ entry :: propsAfter)
      external entry := by
    refine ⟨⟨header, hbek⟩, ?_, ?_, ⟨lead, hdata⟩, ?_, ?_, keyType.toList, [],
      keyType.length_eq, ?_⟩
    · exact forall_mem_around (fun e he ↦ (hothers e he).1) hencodable
    · exact property_of_before (fun q hq ↦ (hothers q (List.mem_append_left after hq)).2) hexternal
    · exact forall_mem_around (fun e he ↦ (hprops e he).1) hencodableEntry
    · exact property_of_before (fun q hq ↦ (hprops q (List.mem_append_left propsAfter hq)).2) hentry
    · rw [hkey, List.append_nil]
  exact parseStartupKey_of_layout p hlayout

/-- `parse_startup_key` returns a key exactly for a well-formed file, and that
key.  Whatever other entries stand before and after at both levels, an encoded
file gives its key; every other file is refused for the first part it lacks. -/
theorem startup_key_decoded_iff (p : Profile) (bek : Bytes) :
    (∀ k : Octets 32, parseStartupKey p bek = .ok k ↔
      ∃ es external props entry, parseSequence p (bek.window 48 bek.length) = .ok es ∧
        property es valueTypeExternalKey = some external ∧ external.nested p 24 = .ok props ∧
        property props valueTypeKey = some entry ∧ 36 ≤ entry.data.length ∧
        k.toList = (entry.data.toList.take 36).drop 4) ∧
      (∀ (header : Octets 48) (lead : Octets 24) (keyType : Octets 4) (k : Octets 32)
        (before after propsBefore propsAfter : List MetadataEntry) (external entry : MetadataEntry),
        (∀ e ∈ before ++ after, e.Encodable ∧ e.valueType ≠ valueTypeExternalKey) →
        (∀ e ∈ propsBefore ++ propsAfter, e.Encodable ∧ e.valueType ≠ valueTypeKey) →
        external.Encodable → external.valueType = valueTypeExternalKey →
        entry.valueType = valueTypeKey → entry.data.toList = keyType.toList ++ k.toList →
        external.data.toList = lead.toList ++ encodeAll (propsBefore ++ entry :: propsAfter) →
        bek.toList = header.toList ++ encodeAll (before ++ external :: after) →
        parseStartupKey p bek = .ok k) ∧
      ∃ es, parseSequence p (bek.window 48 bek.length) = .ok es ∧
        (property es valueTypeExternalKey = none →
          parseStartupKey p bek = .error (.err (.missingKeyMaterial "external key"))) ∧
        ∀ external, property es valueTypeExternalKey = some external →
          ∃ props, external.nested p 24 = .ok props ∧
            (property props valueTypeKey = none → parseStartupKey p bek =
              .error (.err (.missingKeyMaterial "external key property"))) ∧
            ∀ entry, property props valueTypeKey = some entry → entry.data.length < 36 →
              parseStartupKey p bek =
                .error (.err (.malformedKeyContainer "external key" entry.data.length 36)) := by
  refine ⟨?_, ?_, ?_⟩
  · intro k
    rw [parseStartupKey_eq_ok]
    constructor
    · rintro ⟨external, entry, hexternal, hentry, hlen, hk⟩
      exact ⟨_, external, _, entry, parseSequence_eq p _, hexternal, nested_eq p external 24,
        hentry, hlen, hk⟩
    · rintro ⟨es, external, props, entry, hes, hexternal, hprops, hentry, hlen, hk⟩
      rw [parseSequence_eq] at hes
      rw [nested_eq] at hprops
      cases hes
      cases hprops
      exact ⟨external, entry, hexternal, hentry, hlen, hk⟩
  · intro header lead keyType k before after propsBefore propsAfter external entry hothers hprops
      hencodable hexternal hentry hkey hdata hbek
    exact parseStartupKey_encoded p hothers hprops hencodable hexternal hentry hkey hdata hbek
  · refine ⟨_, parseSequence_eq p _, ?_, ?_⟩
    · intro hnone
      rw [parseStartupKey_eq, hnone]
      rfl
    · intro external hexternal
      refine ⟨_, nested_eq p external 24, ?_, ?_⟩
      · intro hnone
        rw [parseStartupKey_eq, hexternal, okOr_some, ok_bind, hnone]
        rfl
      · intro entry hentry hshort
        rw [parseStartupKey_eq, hexternal, okOr_some, ok_bind, hentry, okOr_some, ok_bind,
          if_neg (Nat.not_le_of_lt hshort)]

end Bitlocker
