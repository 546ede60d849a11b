import Kopiur.Api.Recorded

/-!
# Recorded metadata on the result wire

The mover does not ship a snapshot's tags: metadata that it can read is written
anew, and anything else travels as it is, cut to a bound. The cut may change
how the text is classified, as the part that is left may be a complete object
where the whole was not, or the other way round.
-/

namespace Kopiur

open Lib

def metaTagWireCapBytes : Nat := 4096

def normalizeMetaTags (reader : JsonReader) (tags : List (String × String)) :
    List (String × String) :=
  match decodeMetaTag reader tags with
  | .absent => []
  | .decoded recorded => [(kopiurMetaTag, encodeMetaTag recorded)]
  | .unsupportedSchema _ | .malformed _ =>
    [(kopiurMetaTag, truncateUtf8 ((metaTagValue tags).getD "") metaTagWireCapBytes)]

/-- The text is one JSON object with a schema number, and either the number is
newer or its fields can be read. -/
def Versioned (reader : JsonReader) (text : String) : Prop :=
  ∃ fields schema, reader.parse text = .ok (.object fields) ∧
    ((Json.object fields).get "schema").bind Json.asI64 = some schema ∧
      (kopiurMetaSchemaV1 < schema ∨ (readRecorded (.object fields)).isSome = true)

def cutOff (text : String) : String :=
  String.ofList (text.toList.drop (truncateUtf8 text metaTagWireCapBytes).toList.length)

/-- The metadata can be read, or only white space is cut off, or neither the
text nor what is left of it says which version it is. -/
def WireKeeps (reader : JsonReader) (tags : List (String × String)) : Prop :=
  ∀ text ∈ metaTagValue tags, (∃ recorded, decodeMetaText reader text = .decoded recorded) ∨
    (∀ c ∈ (cutOff text).toList, isJsonSpace c = true) ∨
      (¬Versioned reader text ∧ ¬Versioned reader (truncateUtf8 text metaTagWireCapBytes))

section Texts

variable {reader : JsonReader} {text text' : String}

theorem truncate_append_cutOff (text : String) :
    truncateUtf8 text metaTagWireCapBytes ++ cutOff text = text := by
  obtain ⟨rest, hrest⟩ := truncateUtf8_start text metaTagWireCapBytes
  rw [← String.toList_inj, String.toList_append, cutOff, String.toList_ofList, ← hrest,
    List.drop_left]

theorem cutOff_of_short (h : text.utf8ByteSize ≤ metaTagWireCapBytes) : cutOff text = "" := by
  rw [cutOff, truncateUtf8_eq_self h, List.drop_length]

theorem get_eq_some {key : String} {value field : Json} (h : value.get key = some field) :
    ∃ fields, value = .object fields := by
  cases value with
  | object fields => exact ⟨fields, rfl⟩
  | _ => cases h

theorem classification_congr (h : (reader.parse text).toOption = (reader.parse text').toOption) :
    (decodeMetaText reader text).classification = (decodeMetaText reader text').classification := by
  rw [decodeMetaText, decodeMetaText]
  cases hparse : reader.parse text with
  | error e =>
    cases hparse' : reader.parse text' with
    | error e' => rfl
    | ok value => simp [hparse, hparse', Except.toOption] at h
  | ok value =>
    cases hparse' : reader.parse text' with
    | error e' => simp [hparse, hparse', Except.toOption] at h
    | ok value' =>
      obtain rfl : value = value' := by simpa [hparse, hparse', Except.toOption] using h
      rfl

theorem malformed_iff : (decodeMetaText reader text).classification = .malformed "" ↔
    ¬Versioned reader text := by
  rw [decodeMetaText]
  cases hparse : reader.parse text with
  | error e =>
    refine iff_of_true rfl ?_
    rintro ⟨fields, schema, hok, -⟩
    rw [hparse] at hok
    cases hok
  | ok parsed =>
    cases hschema : (parsed.get "schema").bind Json.asI64 with
    | none =>
      refine iff_of_true (by simp [hschema, MetaTagDecode.classification]) ?_
      rintro ⟨fields, schema, hok, hsome, -⟩
      obtain rfl := Except.ok.inj (hparse.symm.trans hok)
      rw [hschema] at hsome
      cases hsome
    | some schema =>
      obtain ⟨field, hfield, -⟩ := Option.bind_eq_some_iff.mp hschema
      obtain ⟨fields, rfl⟩ := get_eq_some hfield
      have hversioned : Versioned reader text ↔
          kopiurMetaSchemaV1 < schema ∨ (readRecorded (.object fields)).isSome = true := by
        constructor
        · rintro ⟨fields', schema', hok, hsome, hread⟩
          obtain ⟨rfl⟩ := Json.object.inj (Except.ok.inj (hparse.symm.trans hok))
          obtain rfl := Option.some.inj (hschema.symm.trans hsome)
          exact hread
        · exact fun hread => ⟨fields, schema, hparse, hschema, hread⟩
      rw [hversioned]
      by_cases hnewer : kopiurMetaSchemaV1 < schema
      · simp [hschema, hnewer, MetaTagDecode.classification]
      · cases hread : readRecorded (.object fields) <;>
          simp [hschema, hnewer, hread, MetaTagDecode.classification]

theorem decode_encoded (hreads : ReadsRecorded reader) {recorded : RecordedSnapshotMeta}
    (h : decodeMetaText reader text = .decoded recorded) :
    decodeMetaText reader (encodeMetaTag recorded) = .decoded recorded := by
  obtain ⟨_, -, hread, hold⟩ := decodeMetaText_eq_decoded_iff.mp h
  have hfits := (of_readRecorded hread).1
  exact decodeMetaText_eq_decoded_iff.mpr
    ⟨_, hreads recorded hfits, readRecorded_metaFields hfits, hold⟩

/-- The cut keeps a text's class just when it cuts off white space, or when
neither text says its version. -/
theorem truncated_class_iff (hlawful : reader.Lawful) :
    (decodeMetaText reader (truncateUtf8 text metaTagWireCapBytes)).classification =
        (decodeMetaText reader text).classification ↔
      (∀ c ∈ (cutOff text).toList, isJsonSpace c = true) ∨
        (¬Versioned reader text ∧ ¬Versioned reader (truncateUtf8 text metaTagWireCapBytes)) := by
  constructor
  · intro hsame
    have hversioned : Versioned reader (truncateUtf8 text metaTagWireCapBytes) ↔
        Versioned reader text := by
      rw [← not_iff_not, ← malformed_iff, ← malformed_iff, hsame]
    by_cases hwhole : Versioned reader text
    · obtain ⟨fields, -, hcut, -⟩ := hversioned.mpr hwhole
      obtain ⟨fields', -, hparse, -⟩ := hwhole
      rw [← truncate_append_cutOff text] at hparse
      exact .inl (hlawful.closed _ _ _ _ hcut hparse)
    · exact .inr ⟨hwhole, mt hversioned.mp hwhole⟩
  · rintro (hspace | ⟨hwhole, hcut⟩)
    · refine classification_congr ?_
      rw [← hlawful.padded _ _ hspace, truncate_append_cutOff]
    · rw [malformed_iff.mpr hwhole, malformed_iff.mpr hcut]

theorem metaTagValue_bare (text : String) : metaTagValue [(kopiurMetaTag, text)] = some text := by
  simp [metaTagValue, kopiurMetaTag, List.lookup_cons, List.lookup_nil]

end Texts

/-- A scan through the wire classifies a snapshot's metadata as a listing read
in process does, just where the cut keeps the class. -/
theorem normalized_tags_classified_iff (reader : JsonReader) (hlawful : reader.Lawful)
    (hreads : ReadsRecorded reader) (tags : List (String × String)) :
    (decodeMetaTag reader (normalizeMetaTags reader tags)).classification =
        (decodeMetaTag reader tags).classification ↔ WireKeeps reader tags := by
  cases hvalue : metaTagValue tags with
  | none =>
    refine iff_of_true ?_ fun text htext => absurd htext (by simp [hvalue])
    have habsent : decodeMetaTag reader tags = .absent := by rw [decodeMetaTag, hvalue]
    simp only [normalizeMetaTags, habsent]
    rfl
  | some text =>
    have hkeeps : WireKeeps reader tags ↔
        (∃ recorded, decodeMetaText reader text = .decoded recorded) ∨
          (∀ c ∈ (cutOff text).toList, isJsonSpace c = true) ∨
          (¬Versioned reader text ∧ ¬Versioned reader (truncateUtf8 text metaTagWireCapBytes)) := by
      simp [WireKeeps, hvalue]
    rw [hkeeps]
    by_cases hdecoded : ∃ recorded, decodeMetaText reader text = .decoded recorded
    · obtain ⟨recorded, h⟩ := hdecoded
      refine iff_of_true ?_ (.inl ⟨recorded, h⟩)
      simp [decodeMetaTag, normalizeMetaTags, hvalue, h, metaTagValue_bare, decode_encoded hreads h]
    · have hnormal : normalizeMetaTags reader tags =
          [(kopiurMetaTag, truncateUtf8 text metaTagWireCapBytes)] := by
        rw [normalizeMetaTags, decodeMetaTag, hvalue]
        cases hdecode : decodeMetaText reader text with
        | decoded recorded => exact absurd ⟨recorded, hdecode⟩ hdecoded
        | absent => exact absurd hdecode (decodeMetaText_ne_absent reader text)
        | unsupportedSchema schema => simp [hdecode]
        | malformed reason => simp [hdecode]
      rw [or_iff_right hdecoded, ← truncated_class_iff hlawful, hnormal]
      simp [decodeMetaTag, hvalue, metaTagValue_bare]

section Written

def isNumberChar (c : Char) : Bool := c.isDigit || c == '-'

def takeLiteral (literal : String) (l : List Char) : Option (List Char) :=
  if literal.toList.isPrefixOf l then some (l.drop literal.toList.length) else none

def takeNumber (l : List Char) : Option (Int × List Char) :=
  (parseInt (String.ofList (l.takeWhile isNumberChar))).map
    fun n => (n, l.dropWhile isNumberChar)

def takeField (key : String) (l : List Char) : Option (Option Int × List Char) :=
  match takeLiteral (",\"" ++ key ++ "\":") l with
  | some rest => (takeNumber rest).map fun p => (some p.1, p.2)
  | none => some (none, l)

/-- The metadata a text was written for, if it was written for any. -/
def takeRecorded (l : List Char) : Option RecordedSnapshotMeta := do
  let l ← takeLiteral "\x7b\"schema\":" l
  let (schema, l) ← takeNumber l
  let l ← takeLiteral ",\"src\":\"" l
  let src := RecordedSrc.named (String.ofList (l.takeWhile (· != '"')))
  let (uid, l) ← takeField "uid" ((l.dropWhile (· != '"')).drop 1)
  let (gid, l) ← takeField "gid" l
  let (fsGroup, _) ← takeField "fsGroup" l
  some { schema, src, uid, gid, fsGroup }

theorem takeLiteral_append (literal : String) (l : List Char) :
    takeLiteral literal (literal.toList ++ l) = some l := by
  rw [takeLiteral, if_pos (List.isPrefixOf_iff_prefix.mpr (List.prefix_append _ _)), List.drop_left]

theorem isNumberChar_of_mem_repr {n : Int} {c : Char} (h : c ∈ n.repr.toList) :
    isNumberChar c = true := by
  have hdigits : ∀ m : Nat, c ∈ Nat.toDigits 10 m → isNumberChar c = true := fun m hm => by
    rw [isNumberChar, Nat.isDigit_of_mem_toDigits (by decide) (by decide) hm, Bool.true_or]
  cases n with
  | ofNat m => exact hdigits m (by simpa [Int.repr, Nat.repr] using h)
  | negSucc m =>
    have hsign : c = '-' ∨ c ∈ Nat.toDigits 10 (m + 1) := by simpa [Int.repr, Nat.repr] using h
    rcases hsign with rfl | h
    · rfl
    · exact hdigits _ h

theorem takeNumber_repr (n : Int) {l : List Char} (hl : ∀ c ∈ l.head?, isNumberChar c = false) :
    takeNumber (n.repr.toList ++ l) = some (n, l) := by
  have hall : ∀ d ∈ n.repr.toList, isNumberChar d = true := fun d => isNumberChar_of_mem_repr
  rw [takeNumber, List.takeWhile_append_of_pos hall, List.dropWhile_append_of_pos hall]
  cases l with
  | nil => simp [parseInt_repr]
  | cons c l => simp [hl c rfl, parseInt_repr]

theorem takeField_text (key : String) (value : Option Int) {l : List Char}
    (hl : ∀ c ∈ l.head?, isNumberChar c = false)
    (hnot : takeLiteral (",\"" ++ key ++ "\":") l = none) :
    takeField key ((metaFieldText key value).toList ++ l) = some (value, l) := by
  cases value with
  | none => simp [takeField, metaFieldText, hnot]
  | some n =>
    have htext : (metaFieldText key (some n)).toList ++ l =
        (",\"" ++ key ++ "\":").toList ++ (n.repr.toList ++ l) := by
      simp [metaFieldText]
    rw [htext, takeField, takeLiteral_append]
    simp [takeNumber_repr n hl]

/-- What comes after the fields up to `gid`, and up to `fsGroup`. -/
def afterGid (fsGroup : Option Int) : List Char :=
  (metaFieldText "fsGroup" fsGroup).toList ++ ['\x7d']

def afterUid (gid fsGroup : Option Int) : List Char :=
  (metaFieldText "gid" gid).toList ++ afterGid fsGroup

theorem afterGid_head (fsGroup : Option Int) : ∀ c ∈ (afterGid fsGroup).head?,
    isNumberChar c = false := by
  cases fsGroup <;> simp [afterGid, metaFieldText, isNumberChar]

theorem afterUid_head (gid fsGroup : Option Int) : ∀ c ∈ (afterUid gid fsGroup).head?,
    isNumberChar c = false := by
  cases gid <;> cases fsGroup <;> simp [afterUid, afterGid, metaFieldText, isNumberChar]

theorem not_uid_afterUid (gid fsGroup : Option Int) :
    takeLiteral (",\"" ++ "uid" ++ "\":") (afterUid gid fsGroup) = none := by
  cases gid <;> cases fsGroup <;> simp [takeLiteral, afterUid, afterGid, metaFieldText]

theorem not_gid_afterGid (fsGroup : Option Int) :
    takeLiteral (",\"" ++ "gid" ++ "\":") (afterGid fsGroup) = none := by
  cases fsGroup <;> simp [takeLiteral, afterGid, metaFieldText]

theorem toList_encodeMetaTag (recorded : RecordedSnapshotMeta) :
    (encodeMetaTag recorded).toList = "\x7b\"schema\":".toList ++
      (recorded.schema.repr.toList ++ (",\"src\":\"".toList ++
        (recorded.src.text.toList ++ '"' :: ((metaFieldText "uid" recorded.uid).toList ++
          afterUid recorded.gid recorded.fsGroup)))) := by
  simp [encodeMetaTag_eq, afterUid, afterGid]

theorem takeRecorded_encodeMetaTag (recorded : RecordedSnapshotMeta) :
    takeRecorded (encodeMetaTag recorded).toList = some recorded := by
  obtain ⟨schema, src, uid, gid, fsGroup⟩ := recorded
  have hsrc : ∀ c ∈ src.text.toList, (c != '"') = true := by
    cases src <;> exact List.all_eq_true.mp (by decide)
  have hquote : ∀ l : List Char, (src.text.toList ++ '"' :: l).takeWhile (· != '"') =
      src.text.toList := fun l => by rw [List.takeWhile_append_of_pos hsrc]; simp
  have hafter : ∀ l : List Char, (src.text.toList ++ '"' :: l).dropWhile (· != '"') =
      '"' :: l := fun l => by rw [List.dropWhile_append_of_pos hsrc]; simp
  have hschema : ∀ l : List Char, takeNumber (schema.repr.toList ++ (",\"src\":\"".toList ++ l)) =
      some (schema, ",\"src\":\"".toList ++ l) := fun l =>
    takeNumber_repr schema (by simp [isNumberChar])
  have hfsGroup : takeField "fsGroup" (afterGid fsGroup) = some (fsGroup, ['\x7d']) :=
    takeField_text "fsGroup" fsGroup (by simp [isNumberChar]) (by simp [takeLiteral])
  have hgid : takeField "gid" (afterUid gid fsGroup) = some (gid, afterGid fsGroup) :=
    takeField_text "gid" gid (afterGid_head fsGroup) (not_gid_afterGid fsGroup)
  have huid := takeField_text "uid" uid (afterUid_head gid fsGroup) (not_uid_afterUid gid fsGroup)
  rw [toList_encodeMetaTag, takeRecorded, takeLiteral_append]
  simp only [Option.bind_eq_bind, Option.bind_some, hschema, takeLiteral_append, hquote, hafter,
    List.drop_succ_cons, List.drop_zero, huid, hgid, hfsGroup, String.ofList_toList,
    RecordedSrc.named_text]

/-- Takes the texts that the writer writes, and refuses any other. -/
def writtenReader : JsonReader where
  parse text :=
    let body := trimEndMatches isJsonSpace text.toList
    match takeRecorded body with
    | some recorded =>
      if (encodeMetaTag recorded).toList = body then .ok (.object (metaFields recorded))
      else .error "expected value"
    | none => .error "expected value"
  mismatch _ := "invalid type"

theorem encodeMetaTag_closed (recorded : RecordedSnapshotMeta) :
    ∃ l, (encodeMetaTag recorded).toList = l ++ ['\x7d'] ∧ '\x7d' ∉ l := by
  have hnumber : ∀ n : Int, '\x7d' ∉ n.repr.toList := fun n h =>
    absurd (isNumberChar_of_mem_repr h) (by decide)
  have hfield : ∀ key value, '\x7d' ∉ key.toList → '\x7d' ∉ (metaFieldText key value).toList := by
    intro key value hkey
    cases value <;> simp [metaFieldText, hkey, hnumber]
  have hsrc : '\x7d' ∉ recorded.src.text.toList := by
    cases recorded.src <;> decide
  refine ⟨("\x7b\"schema\":" ++ recorded.schema.repr ++ ",\"src\":\"" ++ recorded.src.text ++
    "\"" ++ metaFieldText "uid" recorded.uid ++ metaFieldText "gid" recorded.gid ++
    metaFieldText "fsGroup" recorded.fsGroup).toList, ?_, ?_⟩
  · rw [encodeMetaTag_eq, String.toList_append]
    rfl
  · simp [hnumber, hsrc, hfield "uid" _ (by decide), hfield "gid" _ (by decide),
      hfield "fsGroup" _ (by decide)]

theorem parse_written {text : String} {recorded : RecordedSnapshotMeta} {w : List Char}
    (hw : ∀ c ∈ w, isJsonSpace c = true)
    (htext : text.toList = (encodeMetaTag recorded).toList ++ w) :
    writtenReader.parse text = .ok (.object (metaFields recorded)) := by
  have hbody : trimEndMatches isJsonSpace text.toList = (encodeMetaTag recorded).toList := by
    obtain ⟨l, hl, -⟩ := encodeMetaTag_closed recorded
    rw [htext, trimEndMatches_append_of_forall hw, hl]
    simp [trimEndMatches, isJsonSpace]
  simp [writtenReader, hbody, takeRecorded_encodeMetaTag]

theorem of_parse_written {text : String} {value : Json} (h : writtenReader.parse text = .ok value) :
    ∃ recorded w, (∀ c ∈ w, isJsonSpace c = true) ∧
      text.toList = (encodeMetaTag recorded).toList ++ w := by
  obtain ⟨w, hw, htext⟩ := exists_append_trimEndMatches isJsonSpace text.toList
  simp only [writtenReader] at h
  split at h
  · split at h
    next recorded _ hbody => exact ⟨recorded, w, hw, by rw [hbody]; exact htext⟩
    next => cases h
  · cases h

theorem writtenReader_lawful : writtenReader.Lawful where
  padded text space hspace := by
    simp only [writtenReader, String.toList_append, trimEndMatches_append_of_forall hspace]
  closed text rest fields value hclosed hmore := by
    obtain ⟨recorded, w, -, htext⟩ := of_parse_written hclosed
    obtain ⟨recorded', w', hw', hmore⟩ := of_parse_written hmore
    obtain ⟨l, hl, hbrace⟩ := encodeMetaTag_closed recorded
    obtain ⟨l', hl', hbrace'⟩ := encodeMetaTag_closed recorded'
    rw [String.toList_append, htext, hl, hl', List.append_assoc, List.append_assoc,
      List.append_assoc, List.singleton_append, List.singleton_append] at hmore
    obtain ⟨-, hrest⟩ := append_cons_inj_left hbrace hbrace' hmore
    exact fun c hc => hw' c (hrest ▸ List.mem_append_right w hc)

theorem writtenReader_reads : ReadsRecorded writtenReader := fun _ _ =>
  parse_written (w := []) (by simp) (by simp)

end Written

/-- A newer schema in a short value. -/
theorem normalized_tags_classified_newer :
    (decodeMetaTag writtenReader (normalizeMetaTags writtenReader
        [("tag:kopiur-meta", encodeMetaTag { schema := 2, src := .explicit })])).classification =
      (decodeMetaTag writtenReader
        [("tag:kopiur-meta", encodeMetaTag { schema := 2, src := .explicit })]).classification := by
  refine (normalized_tags_classified_iff _ writtenReader_lawful writtenReader_reads _).mpr ?_
  intro text htext
  obtain rfl := Option.some.inj htext
  refine .inr (.inl ?_)
  rw [cutOff_of_short (by decide)]
  simp

theorem clipChars_append {keep : Nat} {l : List Char} {c : Char} {rest : List Char}
    (hsize : (l.map Char.utf8Size).sum = keep) : clipChars keep (l ++ c :: rest) = l := by
  induction l generalizing keep with
  | nil =>
    obtain rfl : 0 = keep := hsize
    have := c.utf8Size_pos
    rw [List.nil_append, clipChars, if_neg (by omega)]
  | cons d l ih =>
    rw [List.map_cons, List.sum_cons] at hsize
    rw [List.cons_append, clipChars, if_pos (by omega), ih (by omega)]

theorem truncateUtf8_append {text rest : String} (hsize : text.utf8ByteSize = metaTagWireCapBytes)
    (hrest : rest ≠ "") : truncateUtf8 (text ++ rest) metaTagWireCapBytes = text := by
  obtain ⟨c, l, hl⟩ : ∃ c l, rest.toList = c :: l := by
    cases hl : rest.toList with
    | nil => exact absurd (String.toList_inj.mp hl) hrest
    | cons c l => exact ⟨c, l, rfl⟩
  have hlong : ¬(text ++ rest).utf8ByteSize ≤ metaTagWireCapBytes := by
    have hpos := length_le_utf8ByteSize rest
    rw [← String.length_toList, hl, List.length_cons] at hpos
    rw [String.utf8ByteSize_append, hsize]
    omega
  have hsum : (text.toList.map Char.utf8Size).sum = metaTagWireCapBytes := by
    rw [← utf8ByteSize_ofList, String.ofList_toList, hsize]
  rw [truncateUtf8, if_neg hlong, String.toList_append, hl, clipChars_append hsum,
    String.ofList_toList]

/-- One character behind metadata that fills the bound makes the text malformed,
and the wire cuts that character off. -/
theorem reclassified_of_full {reader : JsonReader} (hlawful : reader.Lawful) {text : String}
    {recorded : RecordedSnapshotMeta} (hsize : text.utf8ByteSize = metaTagWireCapBytes)
    (hparse : reader.parse text = .ok (.object (metaFields recorded))) (hfits : recorded.Fits)
    (hold : ¬kopiurMetaSchemaV1 < recorded.schema) :
    (decodeMetaTag reader [("tag:kopiur-meta", text ++ "x")]).classification = .malformed "" ∧
      (decodeMetaTag reader (normalizeMetaTags reader
        [("tag:kopiur-meta", text ++ "x")])).classification = .decoded recorded := by
  have hvalue : metaTagValue [("tag:kopiur-meta", text ++ "x")] = some (text ++ "x") := rfl
  have hmore : "x" ≠ "" := by decide
  have hcut := truncateUtf8_append hsize hmore
  have hwhole : ¬Versioned reader (text ++ "x") := by
    rintro ⟨fields, -, hok, -⟩
    exact absurd (hlawful.closed _ _ _ _ hparse hok 'x' (by decide)) (by decide)
  have hdecoded : decodeMetaText reader text = .decoded recorded :=
    decodeMetaText_eq_decoded_iff.mpr ⟨_, hparse, readRecorded_metaFields hfits, hold⟩
  have hmalformed := malformed_iff.mpr hwhole
  have hnormal : normalizeMetaTags reader [("tag:kopiur-meta", text ++ "x")] =
      [(kopiurMetaTag, text)] := by
    rw [normalizeMetaTags, decodeMetaTag, hvalue]
    cases hdecode : decodeMetaText reader (text ++ "x") with
    | malformed reason => simp [hdecode, hcut]
    | unsupportedSchema schema => simp [hdecode, hcut]
    | absent => exact absurd hdecode (decodeMetaText_ne_absent _ _)
    | decoded recorded =>
      rw [hdecode] at hmalformed
      cases hmalformed
  refine ⟨by rw [decodeMetaTag, hvalue]; exact hmalformed, ?_⟩
  rw [hnormal, decodeMetaTag, metaTagValue_bare]
  simp only [hdecoded]
  rfl

def paddedValue (n : Nat) : String :=
  encodeMetaTag { schema := 1, src := .explicit } ++ String.ofList (List.replicate n ' ')

theorem utf8ByteSize_paddedValue (n : Nat) : (paddedValue n).utf8ByteSize = 29 + n := by
  have hvalue : (encodeMetaTag { schema := 1, src := .explicit }).utf8ByteSize = 29 := by decide
  have hspaces : ∀ c ∈ List.replicate n ' ', c.utf8Size = 1 := fun c hc => by
    rw [List.eq_of_mem_replicate hc]
    decide
  rw [paddedValue, String.utf8ByteSize_append, hvalue, utf8ByteSize_of_narrow hspaces,
    List.length_replicate]

theorem parse_paddedValue (n : Nat) : writtenReader.parse (paddedValue n) =
    .ok (.object (metaFields { schema := 1, src := .explicit })) := by
  refine parse_written (w := List.replicate n ' ') (fun c hc => ?_) ?_
  · rw [List.eq_of_mem_replicate hc]
    rfl
  · rw [paddedValue, String.toList_append, String.toList_ofList]

theorem normalized_tags_reclassified :
    (decodeMetaTag writtenReader [("tag:kopiur-meta", paddedValue 4067 ++ "x")]).classification =
        .malformed "" ∧
      (decodeMetaTag writtenReader (normalizeMetaTags writtenReader
        [("tag:kopiur-meta", paddedValue 4067 ++ "x")])).classification =
          .decoded { schema := 1, src := .explicit } :=
  reclassified_of_full writtenReader_lawful (utf8ByteSize_paddedValue 4067) (parse_paddedValue 4067)
    ⟨by decide, by simp, by simp, by simp⟩ (by decide)

end Kopiur
