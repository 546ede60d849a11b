import Kopiur.Api.ChildNameBounds
import Kopiur.Lib.Json

/-!
# Recorded snapshot metadata

The identity a backup ran as is recorded in a tag of the kopia snapshot, as one
JSON object. The tag is repository data that anyone may write, so reading it
never fails: whatever cannot be read is classified.
-/

namespace Kopiur

open Lib

def kopiurMetaTag : String := "kopiur-meta"

def kopiurMetaSchemaV1 : Int := 1

inductive RecordedSrc
  | inherited
  | explicit
  | defaults
  -- A provenance of a newer version.
  | unknown
deriving DecidableEq

namespace RecordedSrc

def text : RecordedSrc → String
  | .inherited => "inherited"
  | .explicit => "explicit"
  | .defaults => "defaults"
  | .unknown => "unknown"

def named (s : String) : RecordedSrc :=
  if s = "inherited" then .inherited
  else if s = "explicit" then .explicit
  else if s = "defaults" then .defaults
  else .unknown

@[simp] theorem named_text (src : RecordedSrc) : named src.text = src := by
  cases src <;> rfl

def read : Json → Option RecordedSrc
  | .string s => some (named s)
  | .object [(s, .null)] => some (named s)
  | _ => none

end RecordedSrc

/-- The identity of the mover that made a backup. -/
structure RecordedSnapshotMeta where
  schema : Int
  src : RecordedSrc
  uid : Option Int := none
  gid : Option Int := none
  fsGroup : Option Int := none
deriving DecidableEq

/-- Every number of the source's record has 64 bits. -/
structure RecordedSnapshotMeta.Fits (recorded : RecordedSnapshotMeta) : Prop where
  schema : FitsI64 recorded.schema
  uid : ∀ n ∈ recorded.uid, FitsI64 n
  gid : ∀ n ∈ recorded.gid, FitsI64 n
  fsGroup : ∀ n ∈ recorded.fsGroup, FitsI64 n

inductive MetaTagDecode
  | absent
  | decoded (recorded : RecordedSnapshotMeta)
  | unsupportedSchema (schema : Int)
  | malformed (reason : String)
deriving DecidableEq

def MetaTagDecode.classification : MetaTagDecode → MetaTagDecode
  | .malformed _ => .malformed ""
  | decode => decode

def metaField (key : String) (value : Option Int) : List (String × Json) :=
  (value.map fun n => (key, Json.int n)).toList

def metaFields (recorded : RecordedSnapshotMeta) : List (String × Json) :=
  [("schema", .int recorded.schema), ("src", .string recorded.src.text)] ++
    metaField "uid" recorded.uid ++ metaField "gid" recorded.gid ++
    metaField "fsGroup" recorded.fsGroup

def metaFieldText (key : String) (value : Option Int) : String :=
  (value.map fun n => ",\"" ++ key ++ "\":" ++ n.repr).getD ""

def encodeMetaTag (recorded : RecordedSnapshotMeta) : String :=
  "\x7b\"schema\":" ++ recorded.schema.repr ++ ",\"src\":\"" ++ recorded.src.text ++ "\"" ++
    metaFieldText "uid" recorded.uid ++ metaFieldText "gid" recorded.gid ++
    metaFieldText "fsGroup" recorded.fsGroup ++ "\x7d"

theorem encodeMetaTag_eq (recorded : RecordedSnapshotMeta) : encodeMetaTag recorded =
    "\x7b\"schema\":" ++ recorded.schema.repr ++ ",\"src\":\"" ++ recorded.src.text ++ "\"" ++
      metaFieldText "uid" recorded.uid ++ metaFieldText "gid" recorded.gid ++
      metaFieldText "fsGroup" recorded.fsGroup ++ "\x7d" := rfl

def readOptional : Option Json → Option (Option Int)
  | none => some none
  | some .null => some none
  | some value => value.asI64.map some

def readRecorded (value : Json) : Option RecordedSnapshotMeta := do
  let schema ← (value.get "schema").bind Json.asI64
  let src ← (value.get "src").bind RecordedSrc.read
  let uid ← readOptional (value.get "uid")
  let gid ← readOptional (value.get "gid")
  let fsGroup ← readOptional (value.get "fsGroup")
  some { schema, src, uid, gid, fsGroup }

def decodeMetaText (reader : JsonReader) (text : String) : MetaTagDecode :=
  match reader.parse text with
  | .error e => .malformed ("invalid JSON: " ++ e)
  | .ok parsed =>
    match (parsed.get "schema").bind Json.asI64 with
    | none => .malformed "missing or non-integer `schema` field"
    | some schema =>
      if kopiurMetaSchemaV1 < schema then .unsupportedSchema schema
      else
        match readRecorded parsed with
        | some recorded => .decoded recorded
        | none => .malformed ("schema " ++ schema.repr ++ " value did not decode: " ++
            reader.mismatch parsed)

def metaTagValue (tags : List (String × String)) : Option String :=
  (tags.lookup ("tag:" ++ kopiurMetaTag)).or (tags.lookup kopiurMetaTag)

def decodeMetaTag (reader : JsonReader) (tags : List (String × String)) : MetaTagDecode :=
  match metaTagValue tags with
  | none => .absent
  | some text => decodeMetaText reader text

def truncateUtf8 (s : String) (maxBytes : Nat) : String :=
  if s.utf8ByteSize ≤ maxBytes then s else String.ofList (clipChars maxBytes s.toList)

theorem truncateUtf8_eq_self {s : String} {maxBytes : Nat} (h : s.utf8ByteSize ≤ maxBytes) :
    truncateUtf8 s maxBytes = s := if_pos h

theorem truncateUtf8_start (s : String) (maxBytes : Nat) :
    (truncateUtf8 s maxBytes).toList <+: s.toList := by
  rw [truncateUtf8]
  split
  · exact List.prefix_rfl
  · rw [String.toList_ofList]
    exact clipChars_start maxBytes s.toList

def ReadsRecorded (reader : JsonReader) : Prop :=
  ∀ recorded : RecordedSnapshotMeta, recorded.Fits →
    reader.parse (encodeMetaTag recorded) = .ok (.object (metaFields recorded))

theorem readRecorded_metaFields {recorded : RecordedSnapshotMeta} (h : recorded.Fits) :
    readRecorded (.object (metaFields recorded)) = some recorded := by
  obtain ⟨schema, src, uid, gid, fsGroup⟩ := recorded
  obtain ⟨hschema, huid, hgid, hfsGroup⟩ := h
  simp only at hschema huid hgid hfsGroup
  cases uid <;> cases gid <;> cases fsGroup <;>
    simp_all [readRecorded, metaFields, metaField, Json.get, List.lookup_cons,
      List.lookup_nil, Json.asI64, readOptional, RecordedSrc.read]

theorem fits_of_readOptional {field : Option Json} {value : Option Int}
    (h : readOptional field = some value) : ∀ n ∈ value, FitsI64 n := by
  rintro n rfl
  match field, h with
  | some value, h =>
    rw [readOptional] at h
    · obtain ⟨m, hm, heq⟩ := Option.map_eq_some_iff.mp h
      exact Option.some.inj heq ▸ Json.fits_of_asI64 hm
    · rintro rfl
      cases h

theorem of_readRecorded {value : Json} {recorded : RecordedSnapshotMeta}
    (h : readRecorded value = some recorded) :
    recorded.Fits ∧ (value.get "schema").bind Json.asI64 = some recorded.schema := by
  obtain ⟨schema, hschema, h⟩ := Option.bind_eq_some_iff.mp h
  obtain ⟨src, -, h⟩ := Option.bind_eq_some_iff.mp h
  obtain ⟨uid, huid, h⟩ := Option.bind_eq_some_iff.mp h
  obtain ⟨gid, hgid, h⟩ := Option.bind_eq_some_iff.mp h
  obtain ⟨fsGroup, hfsGroup, h⟩ := Option.bind_eq_some_iff.mp h
  obtain ⟨field, -, hfield⟩ := Option.bind_eq_some_iff.mp hschema
  rw [← Option.some.inj h]
  exact ⟨⟨Json.fits_of_asI64 hfield, fits_of_readOptional huid, fits_of_readOptional hgid,
    fits_of_readOptional hfsGroup⟩, hschema⟩

theorem decodeMetaText_ne_absent (reader : JsonReader) (text : String) :
    decodeMetaText reader text ≠ .absent := by
  rw [decodeMetaText]
  split
  · simp
  · split
    · simp
    · split
      · simp
      · split <;> simp

theorem decodeMetaText_eq_decoded_iff {reader : JsonReader} {text : String}
    {recorded : RecordedSnapshotMeta} : decodeMetaText reader text = .decoded recorded ↔
      ∃ parsed, reader.parse text = .ok parsed ∧ readRecorded parsed = some recorded ∧
        ¬kopiurMetaSchemaV1 < recorded.schema := by
  constructor
  · intro h
    cases hparse : reader.parse text with
    | error e => simp [decodeMetaText, hparse] at h
    | ok parsed =>
      refine ⟨parsed, rfl, ?_⟩
      cases hschema : (parsed.get "schema").bind Json.asI64 with
      | none => simp [decodeMetaText, hparse, hschema] at h
      | some schema =>
        by_cases hnewer : kopiurMetaSchemaV1 < schema
        · simp [decodeMetaText, hparse, hschema, hnewer] at h
        · cases hread : readRecorded parsed with
          | none => simp [decodeMetaText, hparse, hschema, hnewer, hread] at h
          | some read =>
            obtain rfl : read = recorded := by
              simpa [decodeMetaText, hparse, hschema, hnewer, hread] using h
            obtain rfl := Option.some.inj (hschema.symm.trans (of_readRecorded hread).2)
            exact ⟨rfl, hnewer⟩
  · rintro ⟨parsed, hparse, hread, hold⟩
    simp [decodeMetaText, hparse, (of_readRecorded hread).2, hold, hread]

end Kopiur
