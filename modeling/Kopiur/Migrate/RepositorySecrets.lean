import Kopiur.Api.GeneratedNames
import Kopiur.Api.Jitter
import Kopiur.Lib.CommandLines
import Kopiur.Lib.SortedMap
import Kopiur.Migrate.Kopia

/-!
# The credentials of a migrated repository

The fork keeps a repository's URL and its credentials in one Secret. The
translated backend refers to that Secret or, where a key has another name for
the mover, to a derived one that holds the renamed keys and no others.
-/

namespace Kopiur

open Lib (putKey lookup_putKey rsplitOnce)
open Lib.CommandLines (splitOnce)

inductive KopiaScheme
  | s3 | gcs | azure | b2 | filesystem | sftp | webDav | rclone
deriving DecidableEq

structure CredRename where
  source : String
  target : String
deriving DecidableEq

/-- The keys of a Secret with their values. -/
abbrev SecretData := List (String × String)

def SecretData.Has (data : SecretData) (key : String) : Prop := (data.lookup key).isSome = true

instance (data : SecretData) (key : String) : Decidable (data.Has key) :=
  inferInstanceAs (Decidable (_ = true))

def renameIf (p : Prop) [Decidable p] (source target : String) : List CredRename :=
  if p then [⟨source, target⟩] else []

def renamePlan (scheme : KopiaScheme) (data : SecretData) : List CredRename :=
  match scheme with
  | .s3 | .gcs | .filesystem | .rclone => []
  -- A native key wins over its legacy form.
  | .azure =>
    renameIf (¬data.Has "AZURE_STORAGE_KEY" ∧ data.Has "AZURE_ACCOUNT_KEY")
      "AZURE_ACCOUNT_KEY" "AZURE_STORAGE_KEY" ++
    renameIf (¬data.Has "AZURE_STORAGE_SAS_TOKEN" ∧ data.Has "AZURE_ACCOUNT_SAS")
      "AZURE_ACCOUNT_SAS" "AZURE_STORAGE_SAS_TOKEN"
  | .b2 =>
    renameIf (data.Has "B2_ACCOUNT_ID") "B2_ACCOUNT_ID" "B2_KEY_ID" ++
    renameIf (data.Has "B2_APPLICATION_KEY") "B2_APPLICATION_KEY" "B2_KEY"
  | .sftp => renameIf (data.Has "SFTP_KNOWN_HOSTS_DATA") "SFTP_KNOWN_HOSTS_DATA"
      "KOPIA_SFTP_KNOWN_HOSTS"
  | .webDav =>
    renameIf (data.Has "WEBDAV_USERNAME") "WEBDAV_USERNAME" "KOPIA_WEBDAV_USERNAME" ++
    renameIf (data.Has "WEBDAV_PASSWORD") "WEBDAV_PASSWORD" "KOPIA_WEBDAV_PASSWORD"

-- The backend

/-- `auth` names the Secret of the `secretRef`. -/
inductive MigratedBackend
  | s3 (bucket auth : String) (objectPrefix endpoint : Option String) (disableTls : Bool)
      (region : Option String)
  | gcs (bucket auth : String)
  | azure (container auth : String) (storageAccount : Option String)
  | b2 (bucket auth : String)
  | filesystem (path claim : String)
  | sftp (host path auth : String) (port : Option Nat) (username : Option String)
  | webDav (url auth : String)
  | rclone (remotePath : String) (configSecretRef : Option String)
deriving DecidableEq

def MigratedBackend.authSecret : MigratedBackend → Option String
  | s3 _ auth .. | gcs _ auth | azure _ auth _ | b2 _ auth | sftp _ _ auth .. | webDav _ auth =>
    some auth
  | filesystem .. => none
  | rclone _ configSecretRef => configSecretRef

structure KopiaBackendPlan where
  backend : MigratedBackend
  scheme : KopiaScheme
  derivedCreds : Option (String × SecretData) := none
  notes : List FieldNote := []
deriving DecidableEq

structure MoverVolume where
  claimName : Option String := none
deriving DecidableEq

structure KopiaBackendInput where
  url : String
  secretName : String
  repoName : String
  data : SecretData
  moverVolumes : Option (List MoverVolume) := none
deriving DecidableEq

def truthy (v : String) : Bool :=
  ["true", "1", "yes"].contains (String.ofList (v.toList.map Char.toLower))

def prefixify (p : String) : Option String :=
  let trimmed := trimMatches '/' p
  if trimmed.isEmpty then none else some (trimmed ++ "/")

def splitBucketPath (rest : String) : String × Option String :=
  match splitOnce '/' rest with
  | some (b, p) => (b, prefixify p)
  | none => (trimEnd '/' rest, none)

/-- The fork passes no prefix for these backends, so the path is left out. -/
def splitBucketOnly (rest : String) : String × Option String :=
  match splitOnce '/' rest with
  | some (b, p) =>
    let left := trimMatches '/' p
    (b, if left.isEmpty then none else some left)
  | none => (trimEnd '/' rest, none)

def stripPrefix (start s : String) : Option String :=
  if start.toList.isPrefixOf s.toList then
    some (String.ofList (s.toList.drop start.toList.length))
  else none

def parseU16 (s : String) : Option Nat := (parseU64 s.toList).filter (· ≤ 65535)

namespace KopiaBackendInput

variable (input : KopiaBackendInput)

def get (key : String) : Option String := input.data.lookup key

def given (key : String) : Option String := (input.get key).filter (· ≠ "")

def firstGiven (keys : List String) : Option (String × String) :=
  keys.findSome? fun key => (input.given key).map (key, ·)

def derivedName : String := input.secretName ++ "-kopiur-creds"

def field (key : String) : String := "secret/" ++ input.secretName ++ "." ++ key

def backendField (path : String) : String :=
  "Repository/" ++ input.repoName ++ ".spec.backend." ++ path

def failed (reason : String) : String := "KOPIA_REPOSITORY " ++ debugStr input.url ++ ": " ++ reason

def ignoredUrlPath (path : Option String) (backend : String) : List FieldNote :=
  path.toList.map fun path => ignored ("KOPIA_REPOSITORY (" ++ input.url ++ ")")
    ("the fork passes no --prefix for " ++ backend ++ ", so the URL path " ++ debugStr path ++
      " was always ignored; the repository is adopted at the root")

def renamedData (plan : List CredRename) : SecretData :=
  plan.foldl (fun out r =>
    match input.get r.source with
    | some value => putKey r.target value out
    | none => out) []

def buildDerived (plan : List CredRename) : Option (String × SecretData) × List FieldNote :=
  if plan.isEmpty then (none, [])
  else
    (some (input.derivedName, input.renamedData plan),
      plan.flatMap fun r => noted (input.get r.source)
        (mapped (input.field r.source) ("Secret/" ++ input.derivedName ++ "." ++ r.target)))

def planAuth (plan : List CredRename) : String :=
  if plan.isEmpty then input.secretName else input.derivedName

def s3Backend (rest : String) : Except String KopiaBackendPlan :=
  let (urlBucket, objectPrefix) := splitBucketPath rest
  let override := input.given "KOPIA_S3_BUCKET"
  let bucket := override.getD urlBucket
  if bucket.isEmpty then .error (input.failed "no bucket in the URL or KOPIA_S3_BUCKET key")
  else
    let endpoint := input.firstGiven ["KOPIA_S3_ENDPOINT", "AWS_S3_ENDPOINT"]
    let host := endpoint.map fun (_, raw) =>
      trimEnd '/' (((stripPrefix "http://" raw) <|> stripPrefix "https://" raw).getD raw)
    let plain := endpoint.any fun (_, raw) => (stripPrefix "http://" raw).isSome
    let tls := ["KOPIA_S3_DISABLE_TLS", "AWS_S3_DISABLE_TLS"].filter fun key =>
      (input.get key).any truthy
    let region := input.firstGiven ["AWS_REGION", "AWS_DEFAULT_REGION"]
    .ok {
      backend := .s3 bucket input.secretName objectPrefix host (plain || !tls.isEmpty)
        (region.map Prod.snd)
      scheme := .s3
      notes :=
        noted override (mapped (input.field "KOPIA_S3_BUCKET")
          (input.backendField "s3.bucket" ++ " (overrides URL bucket " ++ debugStr urlBucket ++
            ", as the fork does)")) ++
        endpoint.toList.map (fun (key, _) =>
          mapped (input.field key) (input.backendField "s3.endpoint")) ++
        tls.map (fun key =>
          mapped (input.field key) (input.backendField "s3.tls.disableTls")) ++
        region.toList.map (fun (key, _) =>
          mapped (input.field key) (input.backendField "s3.region")) ++
        ["AWS_ACCESS_KEY_ID", "AWS_SECRET_ACCESS_KEY", "AWS_SESSION_TOKEN"].flatMap fun key =>
          noted (input.get key) (mapped (input.field key)
            ("referenced in place by " ++ input.backendField "s3.auth.secretRef")) }

def gcsBackend (rest : String) : Except String KopiaBackendPlan :=
  let (urlBucket, ignoredPath) := splitBucketOnly rest
  let override := input.firstGiven ["KOPIA_GCS_BUCKET", "GCS_BUCKET"]
  let bucket := (override.map Prod.snd).getD urlBucket
  if bucket.isEmpty then .error (input.failed "no bucket in the URL or KOPIA_GCS_BUCKET key")
  else .ok {
    backend := .gcs bucket input.derivedName
    scheme := .gcs
    notes :=
      override.toList.map (fun (key, _) => mapped (input.field key)
        (input.backendField "gcs.bucket" ++ " (overrides URL bucket)")) ++
      input.ignoredUrlPath ignoredPath "gcs" ++
      [unmappable (input.field "GOOGLE_APPLICATION_CREDENTIALS")
        ("the fork stores a file path here; kopiur needs the service-account JSON content. Add " ++
          "it under " ++ input.derivedName ++ ".KOPIA_GCS_CREDENTIALS before applying")] }

def azureBackend (rest : String) : Except String KopiaBackendPlan :=
  let (urlContainer, ignoredPath) := splitBucketOnly rest
  let override := input.given "KOPIA_AZURE_CONTAINER"
  let container := override.getD urlContainer
  if container.isEmpty then
    .error (input.failed "no container in the URL or KOPIA_AZURE_CONTAINER key")
  else
    let plan := renamePlan .azure input.data
    let account := input.firstGiven ["AZURE_ACCOUNT_NAME", "AZURE_STORAGE_ACCOUNT"]
    let (derived, derivedNotes) := input.buildDerived plan
    .ok {
      backend := .azure container (input.planAuth plan) (account.map Prod.snd)
      scheme := .azure
      derivedCreds := derived
      notes :=
        noted override (mapped (input.field "KOPIA_AZURE_CONTAINER")
          (input.backendField "azure.container" ++ " (overrides URL container)")) ++
        input.ignoredUrlPath ignoredPath "azure" ++
        (if plan.isEmpty then
          ["AZURE_STORAGE_KEY", "AZURE_STORAGE_SAS_TOKEN"].flatMap fun key =>
            noted (input.get key) (mapped (input.field key)
              ("referenced in place by " ++ input.backendField "azure.auth.secretRef"))
        else []) ++
        account.toList.map (fun (key, _) =>
          mapped (input.field key) (input.backendField "azure.storageAccount")) ++
        derivedNotes }

def b2Backend (rest : String) : Except String KopiaBackendPlan :=
  let (urlBucket, ignoredPath) := splitBucketOnly rest
  let override := input.given "KOPIA_B2_BUCKET"
  let bucket := override.getD urlBucket
  if bucket.isEmpty then .error (input.failed "no bucket in the URL or KOPIA_B2_BUCKET key")
  else
    let plan := renamePlan .b2 input.data
    let (derived, derivedNotes) := input.buildDerived plan
    .ok {
      backend := .b2 bucket (input.planAuth plan)
      scheme := .b2
      derivedCreds := derived
      notes :=
        noted override (mapped (input.field "KOPIA_B2_BUCKET")
          (input.backendField "b2.bucket" ++ " (overrides URL bucket)")) ++
        input.ignoredUrlPath ignoredPath "b2" ++ derivedNotes }

def filesystemBackend (rest : String) : Except String KopiaBackendPlan :=
  if rest.toList.head? ≠ some '/' then
    .error (input.failed
      "filesystem URLs must carry an absolute path (filesystem:///path)")
  else
    match (input.moverVolumes.getD []).filterMap MoverVolume.claimName with
    | [claim] => .ok {
        backend := .filesystem rest claim
        scheme := .filesystem
        notes := [mapped "spec.kopia.moverVolumes[pvc]"
          (input.backendField "filesystem.volume.pvc.name" ++
            " (the PVC backing the repository path)")] }
    | claims => .ok {
        backend := .filesystem rest "REPLACE_ME-repo-pvc"
        scheme := .filesystem
        notes := [unmappable "spec.kopia.moverVolumes"
          ("expected exactly one repository PVC in moverVolumes (found " ++
            toString claims.length ++ "); set backend.filesystem.volume.pvc.name before " ++
            "applying")] }

/-- The host of a URL and its port; a port is a run of digits that fits. -/
def urlHostPort (hostport : String) : Except String (String × Option Nat) :=
  match rsplitOnce ':' hostport.toList with
  | some (h, p) =>
    if p.all Char.isDigit && !p.isEmpty then
      match parseU16 (String.ofList p) with
      | some port => .ok (String.ofList h, some port)
      | none => .error (input.failed
          ("SFTP port " ++ debugStr (String.ofList p) ++ " is not a valid TCP port"))
    else .ok (hostport, none)
  | none => .ok (hostport, none)

def orUrl (fallback : String) : Option String := if fallback.isEmpty then none else some fallback

def sftpNotes : List FieldNote :=
  noted (input.get "SFTP_KEY_FILE") (unmappable (input.field "SFTP_KEY_FILE")
    ("a file path in the fork's mover; add the private key content under " ++
      input.derivedName ++ ".KOPIA_SFTP_KEY_DATA before applying")) ++
  noted (input.get "SFTP_KNOWN_HOSTS") (unmappable (input.field "SFTP_KNOWN_HOSTS")
    ("a file path; put the known_hosts content under " ++ input.derivedName ++
      ".KOPIA_SFTP_KNOWN_HOSTS instead")) ++
  noted (input.get "SFTP_PASSWORD") (unmappable (input.field "SFTP_PASSWORD")
    ("kopiur's SFTP backend has no password auth; switch to an SSH key and put it under " ++
      "KOPIA_SFTP_KEY_DATA"))

def sftpBackend (rest : String) : Except String KopiaBackendPlan := do
  let (authority, urlPath) := match splitOnce '/' rest with
    | some (a, p) => (a, "/" ++ p)
    | none => (rest, "")
  let (urlUser, hostport) := match splitOnce '@' authority with
    | some (u, h) => (some u, h)
    | none => (none, authority)
  let (urlHost, urlPort) ← input.urlHostPort hostport
  match input.given "SFTP_HOST" <|> orUrl urlHost with
  | none => .error (input.failed "no SFTP host in URL or SFTP_HOST key")
  | some host =>
    match input.given "SFTP_PATH" <|> orUrl urlPath with
    | none => .error (input.failed "no SFTP path in URL or SFTP_PATH key")
    | some path =>
      let port := (input.given "SFTP_PORT").bind parseU16
      let user := input.given "SFTP_USERNAME"
      let (derived, derivedNotes) := input.buildDerived (renamePlan .sftp input.data)
      .ok {
        backend := .sftp host path input.derivedName (port <|> urlPort) (user <|> urlUser)
        scheme := .sftp
        -- The reference resolves also where nothing was renamed.
        derivedCreds := some (derived.getD (input.derivedName, []))
        notes :=
          noted (input.given "SFTP_HOST")
            (mapped (input.field "SFTP_HOST") (input.backendField "sftp.host")) ++
          noted (input.given "SFTP_PATH")
            (mapped (input.field "SFTP_PATH") (input.backendField "sftp.path")) ++
          noted port (mapped (input.field "SFTP_PORT") (input.backendField "sftp.port")) ++
          noted user (mapped (input.field "SFTP_USERNAME") (input.backendField "sftp.username")) ++
          input.sftpNotes ++ derivedNotes }

def webDavBackend (rest : String) : Except String KopiaBackendPlan :=
  let override := input.given "WEBDAV_URL"
  let plan := renamePlan .webDav input.data
  let (derived, derivedNotes) := input.buildDerived plan
  .ok {
    backend := .webDav (override.getD ("https://" ++ rest)) (input.planAuth plan)
    scheme := .webDav
    derivedCreds := derived
    notes :=
      (if override.isSome then
        [mapped (input.field "WEBDAV_URL") (input.backendField "webDav.url")]
      else [mapped ("KOPIA_REPOSITORY (" ++ input.url ++ ")") (input.backendField "webDav.url" ++
        " (assumed https://; edit if the server is plain HTTP)")]) ++ derivedNotes }

def rcloneBackend (rest : String) : Except String KopiaBackendPlan :=
  let override := input.given "RCLONE_REMOTE_PATH"
  let config := input.get "RCLONE_CONFIG"
  -- A configuration has section headers, a path has none.
  let content := config.filter fun cfg => cfg.toList.contains '['
  .ok {
    backend := .rclone (override.getD rest) (content.map fun _ => input.derivedName)
    scheme := .rclone
    derivedCreds := content.map fun cfg => (input.derivedName, [("KOPIA_RCLONE_CONFIG", cfg)])
    notes :=
      noted override (mapped (input.field "RCLONE_REMOTE_PATH")
        (input.backendField "rclone.remotePath")) ++
      (if content.isSome then
        [mapped (input.field "RCLONE_CONFIG") ("Secret/" ++ input.derivedName ++
          ".KOPIA_RCLONE_CONFIG (+ " ++ input.backendField "rclone.configSecretRef" ++ ")")]
      else noted config (unmappable (input.field "RCLONE_CONFIG")
        ("looks like a file path, not rclone.conf content; put the config content under " ++
          input.derivedName ++ ".KOPIA_RCLONE_CONFIG and set backend.rclone.configSecretRef"))) ++
      noted (input.get "RCLONE_EXE") (ignored (input.field "RCLONE_EXE")
        "the kopiur mover image ships its own rclone binary") }

def schemes : List (String × KopiaScheme) :=
  [("s3://", .s3), ("gcs://", .gcs), ("azure://", .azure), ("b2://", .b2),
    ("filesystem://", .filesystem), ("sftp://", .sftp), ("webdav://", .webDav),
    ("rclone://", .rclone)]

def schemeOf (url : String) : Option (KopiaScheme × String) :=
  schemes.findSome? fun s => (stripPrefix s.1 url).map (s.2, ·)

def translateBackend : KopiaScheme → String → Except String KopiaBackendPlan
  | .s3 => input.s3Backend
  | .gcs => input.gcsBackend
  | .azure => input.azureBackend
  | .b2 => input.b2Backend
  | .filesystem => input.filesystemBackend
  | .sftp => input.sftpBackend
  | .webDav => input.webDavBackend
  | .rclone => input.rcloneBackend

def backendFromKopiaRepository : Except String KopiaBackendPlan :=
  match schemeOf input.url with
  | none =>
    let scheme := String.ofList (input.url.toList.takeWhile (· ≠ ':'))
    .error (input.failed ("scheme " ++ debugStr scheme ++ " is not translatable (supported: " ++
      "s3/gcs/azure/b2/filesystem/sftp/webdav/rclone; no Google Drive); write the kopiur " ++
      "Repository by hand"))
  | some (scheme, rest) =>
    (input.translateBackend scheme rest).map fun plan =>
      { plan with
        derivedCreds :=
          if scheme = .gcs then some (plan.derivedCreds.getD (input.derivedName, []))
          else plan.derivedCreds
        notes := plan.notes ++ noted (input.get "KOPIA_MANUAL_CONFIG")
          (unmappable (input.field "KOPIA_MANUAL_CONFIG")
            ("raw kopia repository config has no kopiur equivalent; use SnapshotPolicy fields " ++
              "(compression, retention, …) or write the Repository by hand")) }

end KopiaBackendInput

-- Completeness

/-- The variables the mover reads for a backend: those kopia reads itself and
those whose value becomes a file. -/
def credentialEnvNames : KopiaScheme → List String
  | .s3 => ["AWS_ACCESS_KEY_ID", "AWS_SECRET_ACCESS_KEY", "AWS_SESSION_TOKEN"]
  | .azure => ["AZURE_STORAGE_KEY", "AZURE_STORAGE_SAS_TOKEN", "AZURE_TENANT_ID",
      "AZURE_CLIENT_ID", "AZURE_CLIENT_SECRET"]
  | .b2 => ["B2_KEY_ID", "B2_KEY"]
  | .webDav => ["KOPIA_WEBDAV_USERNAME", "KOPIA_WEBDAV_PASSWORD"]
  | .gcs => ["KOPIA_GCS_CREDENTIALS"]
  | .sftp => ["KOPIA_SFTP_KEY_DATA", "KOPIA_SFTP_KNOWN_HOSTS"]
  | .rclone => ["KOPIA_RCLONE_CONFIG"]
  | .filesystem => []

/-- The fork's keys for a variable; some of them hold the path of a file. -/
def legacyNames (name : String) : List String :=
  (([("AZURE_STORAGE_KEY", ["AZURE_ACCOUNT_KEY"]),
    ("AZURE_STORAGE_SAS_TOKEN", ["AZURE_ACCOUNT_SAS"]),
    ("B2_KEY_ID", ["B2_ACCOUNT_ID"]),
    ("B2_KEY", ["B2_APPLICATION_KEY"]),
    ("KOPIA_WEBDAV_USERNAME", ["WEBDAV_USERNAME"]),
    ("KOPIA_WEBDAV_PASSWORD", ["WEBDAV_PASSWORD"]),
    ("KOPIA_GCS_CREDENTIALS", ["GOOGLE_APPLICATION_CREDENTIALS"]),
    ("KOPIA_SFTP_KEY_DATA", ["SFTP_KEY_FILE"]),
    ("KOPIA_SFTP_KNOWN_HOSTS", ["SFTP_KNOWN_HOSTS_DATA", "SFTP_KNOWN_HOSTS"]),
    ("KOPIA_RCLONE_CONFIG", ["RCLONE_CONFIG"])] : List (String × List String)).lookup
    name).getD []

def unmappableFields (notes : List FieldNote) : List String :=
  (notes.filter FieldNote.isUnmappable).map FieldNote.field

def KopiaBackendPlan.authData (plan : KopiaBackendPlan) (input : KopiaBackendInput) :
    Option SecretData :=
  plan.backend.authSecret.bind fun name =>
    (plan.derivedCreds.toList ++ [(input.secretName, input.data)]).lookup name

/-- Of the names in a Secret that a variable may come from, each is held by the
Secret `auth` as the variable, or an unmappable field names it. A name that is
held twice may be there with either value. -/
def Preserved (data : SecretData) (auth : Option SecretData) (field : String → String)
    (unmapped : List String) (name : String) : Prop :=
  ∀ key ∈ name :: legacyNames name, data.Has key →
    (∃ held ∈ name :: legacyNames name, ∃ v, data.lookup held = some v ∧
      auth.bind (fun secret => secret.lookup name) = some v) ∨ field key ∈ unmapped

def KopiaBackendPlan.CredentialsComplete (plan : KopiaBackendPlan) (input : KopiaBackendInput) :
    Prop :=
  ∀ name ∈ credentialEnvNames plan.scheme,
    Preserved input.data (plan.authData input) input.field (unmappableFields plan.notes) name

/-- No variable is held under its own name where the backend comes to refer to a
derived Secret that is not given its value. -/
def CredentialsUnmixed (data : SecretData) : KopiaScheme → Prop
  | .s3 | .filesystem => True
  | .azure =>
    (¬data.Has "AZURE_STORAGE_KEY" ∧ data.Has "AZURE_ACCOUNT_KEY") ∨
      (¬data.Has "AZURE_STORAGE_SAS_TOKEN" ∧ data.Has "AZURE_ACCOUNT_SAS") →
    ∀ name ∈ credentialEnvNames .azure, ¬data.Has name
  | .b2 => data.Has "B2_ACCOUNT_ID" ∨ data.Has "B2_APPLICATION_KEY" →
    (data.Has "B2_KEY_ID" → data.Has "B2_ACCOUNT_ID") ∧
      (data.Has "B2_KEY" → data.Has "B2_APPLICATION_KEY")
  | .webDav => data.Has "WEBDAV_USERNAME" ∨ data.Has "WEBDAV_PASSWORD" →
    (data.Has "KOPIA_WEBDAV_USERNAME" → data.Has "WEBDAV_USERNAME") ∧
      (data.Has "KOPIA_WEBDAV_PASSWORD" → data.Has "WEBDAV_PASSWORD")
  | .gcs => ¬data.Has "KOPIA_GCS_CREDENTIALS"
  | .sftp => ¬data.Has "KOPIA_SFTP_KEY_DATA" ∧
    (data.Has "KOPIA_SFTP_KNOWN_HOSTS" → data.Has "SFTP_KNOWN_HOSTS_DATA")
  | .rclone => data.Has "KOPIA_RCLONE_CONFIG" →
    ∃ cfg, data.lookup "RCLONE_CONFIG" = some cfg ∧ '[' ∈ cfg.toList

section Notes

variable {input : KopiaBackendInput}

theorem unmappableFields_append (a b : List FieldNote) :
    unmappableFields (a ++ b) = unmappableFields a ++ unmappableFields b := by
  rw [unmappableFields, List.filter_append, List.map_append]
  rfl

theorem unmappableFields_noted {α : Type} (value : Option α) (field reason : String) :
    unmappableFields (noted value (unmappable field reason)) =
      if value.isSome then [field] else [] := by
  cases value <;> rfl

theorem unmappableFields_eq_nil {notes : List FieldNote}
    (h : ∀ note ∈ notes, note.isUnmappable = false) : unmappableFields notes = [] := by
  rw [unmappableFields, List.filter_eq_nil_iff.mpr fun note hnote => by simp [h note hnote]]
  rfl

theorem isUnmappable_of_noted {α : Type} {value : Option α} {note m : FieldNote}
    (hnote : note.isUnmappable = false) (hm : m ∈ noted value note) : m.isUnmappable = false := by
  unfold noted at hm
  split at hm
  · rwa [List.mem_singleton.mp hm]
  · cases hm

namespace KopiaBackendInput

theorem field_inj {a b : String} : input.field a = input.field b ↔ a = b := by
  refine ⟨fun h => ?_, congrArg _⟩
  rw [← String.toList_inj] at h ⊢
  simpa [field] using h

theorem ignoredUrlPath_isUnmappable {path : Option String} {backend : String} {note : FieldNote}
    (h : note ∈ input.ignoredUrlPath path backend) : note.isUnmappable = false := by
  obtain ⟨_, _, rfl⟩ := List.mem_map.mp h
  rfl

theorem buildDerived_isUnmappable {plan : List CredRename} {note : FieldNote}
    (h : note ∈ (input.buildDerived plan).2) : note.isUnmappable = false := by
  unfold buildDerived at h
  split at h
  · cases h
  · obtain ⟨r, -, h⟩ := List.mem_flatMap.mp h
    exact isUnmappable_of_noted rfl h

end KopiaBackendInput

end Notes

-- The Secret of a plan

namespace KopiaBackendInput

variable (input : KopiaBackendInput)

def authOf (plan : List CredRename) : SecretData :=
  if plan.isEmpty then input.data else input.renamedData plan

theorem lookup_planAuth (plan : List CredRename) :
    ((input.buildDerived plan).1.toList ++ [(input.secretName, input.data)]).lookup
      (input.planAuth plan) = some (input.authOf plan) := by
  cases plan <;> simp [buildDerived, planAuth, authOf]

theorem lookup_renamedData {p q : Prop} [Decidable p] [Decidable q] {s t s' t' : String}
    (hne : t ≠ t') (name : String) :
    (input.renamedData (renameIf p s t ++ renameIf q s' t')).lookup name =
      if name = t then (if p then input.get s else none)
      else if name = t' then (if q then input.get s' else none) else none := by
  have hne' := hne.symm
  unfold renamedData renameIf
  by_cases hp : p <;> by_cases hq : q <;> cases hs : input.get s <;> cases hs' : input.get s' <;>
    simp only [hp, hq, hs, hs', if_true, if_false, List.append_nil, List.nil_append,
      List.singleton_append, List.foldl_cons, List.foldl_nil, lookup_putKey, List.lookup_nil] <;>
    grind

end KopiaBackendInput

/-- What a translation leaves for the mover: the scheme, the Secret that the
backend refers to and the fields that are said to have no equivalent. -/
structure KopiaBackendPlan.Leaves (plan : KopiaBackendPlan) (input : KopiaBackendInput)
    (scheme : KopiaScheme) (auth : Option SecretData) (unmapped : List String) : Prop where
  scheme : plan.scheme = scheme
  auth : plan.authData input = auth
  unmapped : unmappableFields plan.notes = unmapped

namespace KopiaBackendInput

variable {input : KopiaBackendInput} {rest : String} {plan : KopiaBackendPlan}

theorem s3Backend_leaves (h : input.s3Backend rest = .ok plan) :
    plan.Leaves input .s3 (some input.data) [] := by
  unfold s3Backend at h
  dsimp only at h
  split at h
  · cases h
  · cases h
    refine ⟨rfl, by simp [KopiaBackendPlan.authData, MigratedBackend.authSecret], ?_⟩
    refine unmappableFields_eq_nil fun note hnote => ?_
    simp only [List.mem_append, List.mem_map, List.mem_flatMap] at hnote
    rcases hnote with (((h | ⟨_, _, rfl⟩) | ⟨_, _, rfl⟩) | ⟨_, _, rfl⟩) | ⟨_, _, h⟩
    · exact isUnmappable_of_noted rfl h
    · rfl
    · rfl
    · rfl
    · exact isUnmappable_of_noted rfl h

theorem azureBackend_leaves (h : input.azureBackend rest = .ok plan) :
    plan.Leaves input .azure (some (input.authOf (renamePlan .azure input.data))) [] := by
  unfold azureBackend at h
  dsimp only at h
  split at h
  · cases h
  · cases h
    refine ⟨rfl, input.lookup_planAuth _, unmappableFields_eq_nil fun note hnote => ?_⟩
    simp only [List.mem_append, List.mem_map] at hnote
    rcases hnote with (((h | h) | h) | ⟨_, _, rfl⟩) | h
    · exact isUnmappable_of_noted rfl h
    · exact ignoredUrlPath_isUnmappable h
    · split at h
      · obtain ⟨_, _, h⟩ := List.mem_flatMap.mp h
        exact isUnmappable_of_noted rfl h
      · cases h
    · rfl
    · exact buildDerived_isUnmappable h

theorem b2Backend_leaves (h : input.b2Backend rest = .ok plan) :
    plan.Leaves input .b2 (some (input.authOf (renamePlan .b2 input.data))) [] := by
  unfold b2Backend at h
  dsimp only at h
  split at h
  · cases h
  · cases h
    refine ⟨rfl, input.lookup_planAuth _, unmappableFields_eq_nil fun note hnote => ?_⟩
    simp only [List.mem_append] at hnote
    rcases hnote with (h | h) | h
    · exact isUnmappable_of_noted rfl h
    · exact ignoredUrlPath_isUnmappable h
    · exact buildDerived_isUnmappable h

theorem webDavBackend_leaves (h : input.webDavBackend rest = .ok plan) :
    plan.Leaves input .webDav (some (input.authOf (renamePlan .webDav input.data))) [] := by
  cases h
  refine ⟨rfl, input.lookup_planAuth _, unmappableFields_eq_nil fun note hnote => ?_⟩
  rcases List.mem_append.mp hnote with h | h
  · split at h <;> rw [List.mem_singleton.mp h] <;> rfl
  · exact buildDerived_isUnmappable h

theorem gcsBackend_leaves (h : input.gcsBackend rest = .ok plan) :
    plan.scheme = .gcs ∧ plan.derivedCreds = none ∧
      plan.backend.authSecret = some input.derivedName ∧
      unmappableFields plan.notes = [input.field "GOOGLE_APPLICATION_CREDENTIALS"] := by
  unfold gcsBackend at h
  dsimp only at h
  split at h
  · cases h
  · cases h
    refine ⟨rfl, rfl, rfl, ?_⟩
    rw [unmappableFields_append, unmappableFields_eq_nil fun note hnote => ?_]
    · rfl
    · rcases List.mem_append.mp hnote with h | h
      · obtain ⟨_, _, rfl⟩ := List.mem_map.mp h
        rfl
      · exact ignoredUrlPath_isUnmappable h

theorem filesystemBackend_scheme (h : input.filesystemBackend rest = .ok plan) :
    plan.scheme = .filesystem := by
  unfold filesystemBackend at h
  split at h
  · cases h
  · split at h <;> cases h <;> rfl

theorem sftpBackend_leaves (h : input.sftpBackend rest = .ok plan) :
    plan.Leaves input .sftp (some (input.renamedData (renamePlan .sftp input.data)))
      ((if (input.get "SFTP_KEY_FILE").isSome then [input.field "SFTP_KEY_FILE"] else []) ++
        (if (input.get "SFTP_KNOWN_HOSTS").isSome then [input.field "SFTP_KNOWN_HOSTS"] else []) ++
        (if (input.get "SFTP_PASSWORD").isSome then [input.field "SFTP_PASSWORD"] else [])) := by
  unfold sftpBackend at h
  obtain ⟨⟨urlHost, urlPort⟩, -, h⟩ := Lib.bind_eq_ok.mp h
  dsimp only at h
  split at h
  · cases h
  · split at h
    · cases h
    · cases h
      refine ⟨rfl, ?_, ?_⟩
      · cases hplan : renamePlan .sftp input.data <;>
          simp [KopiaBackendPlan.authData, MigratedBackend.authSecret, buildDerived, renamedData]
      · simp only [sftpNotes, unmappableFields_append, unmappableFields_noted]
        rw [unmappableFields_eq_nil fun note => isUnmappable_of_noted rfl,
          unmappableFields_eq_nil fun note => isUnmappable_of_noted rfl,
          unmappableFields_eq_nil fun note => isUnmappable_of_noted rfl,
          unmappableFields_eq_nil fun note => isUnmappable_of_noted rfl,
          unmappableFields_eq_nil fun note => buildDerived_isUnmappable]
        simp

theorem rcloneBackend_leaves (h : input.rcloneBackend rest = .ok plan) :
    plan.Leaves input .rclone
      (((input.get "RCLONE_CONFIG").filter fun cfg => cfg.toList.contains '[').map fun cfg =>
        [("KOPIA_RCLONE_CONFIG", cfg)])
      (if (input.get "RCLONE_CONFIG").any fun cfg => !cfg.toList.contains '[' then
        [input.field "RCLONE_CONFIG"] else []) := by
  cases h
  refine ⟨rfl, ?_, ?_⟩
  · cases h : (input.get "RCLONE_CONFIG").filter fun cfg => cfg.toList.contains '[' <;>
      simp [KopiaBackendPlan.authData, MigratedBackend.authSecret]
  · simp only [unmappableFields_append]
    rw [unmappableFields_eq_nil fun note => isUnmappable_of_noted rfl,
      unmappableFields_eq_nil fun note => isUnmappable_of_noted rfl]
    cases hcfg : input.get "RCLONE_CONFIG" with
    | none => rfl
    | some cfg =>
      by_cases hc : '[' ∈ cfg.toList
      · simp [Option.filter, hc, unmappableFields, mapped, FieldNote.isUnmappable]
      · simp [Option.filter, hc, unmappableFields_noted]

theorem translateBackend_of_ok (h : input.backendFromKopiaRepository = .ok plan) :
    ∃ scheme rest core, schemeOf input.url = some (scheme, rest) ∧
      input.translateBackend scheme rest = .ok core ∧ plan.scheme = core.scheme ∧
      plan.backend = core.backend ∧
      plan.derivedCreds =
        (if scheme = .gcs then some (core.derivedCreds.getD (input.derivedName, []))
          else core.derivedCreds) ∧
      unmappableFields plan.notes = unmappableFields core.notes ++
        if (input.get "KOPIA_MANUAL_CONFIG").isSome then [input.field "KOPIA_MANUAL_CONFIG"]
        else [] := by
  unfold backendFromKopiaRepository at h
  split at h
  · cases h
  · next scheme rest hscheme =>
    cases hcore : input.translateBackend scheme rest with
    | error e =>
      rw [hcore] at h
      cases h
    | ok core =>
      rw [hcore] at h
      cases h
      exact ⟨scheme, rest, core, hscheme, hcore, rfl, rfl, rfl,
        by rw [unmappableFields_append, unmappableFields_noted]⟩

end KopiaBackendInput

-- What is lost

section Preserved

variable {input : KopiaBackendInput} {data : SecretData} {auth : Option SecretData}
  {field : String → String} {unmapped : List String} {name : String}

theorem preserved_of_lookup {held v : String} (hheld : held ∈ name :: legacyNames name)
    (hv : data.lookup held = some v)
    (hauth : auth.bind (fun secret => secret.lookup name) = some v) :
    Preserved data auth field unmapped name :=
  fun _ _ _ => .inl ⟨held, hheld, v, hv, hauth⟩

theorem preserved_iff_not_has (hauth : auth.bind (fun secret => secret.lookup name) = none)
    (hname : field name ∉ unmapped)
    (hlegacy : ∀ key ∈ legacyNames name, data.Has key → field key ∈ unmapped) :
    Preserved data auth field unmapped name ↔ ¬data.Has name := by
  constructor
  · intro h hhas
    rcases h name List.mem_cons_self hhas with ⟨_, _, v, _, hv⟩ | h
    · rw [hauth] at hv
      cases hv
    · exact hname h
  · intro h key hkey hhas
    rcases List.mem_cons.mp hkey with rfl | hkey
    · exact absurd hhas h
    · exact .inr (hlegacy key hkey hhas)

theorem preserved_in_place (h : ∀ key ∈ legacyNames name, data.Has key → data.Has name) :
    Preserved data (some data) field unmapped name := by
  intro key hkey hhas
  have hname : data.Has name := by
    rcases List.mem_cons.mp hkey with rfl | hkey
    · exact hhas
    · exact h key hkey hhas
  obtain ⟨v, hv⟩ := Option.isSome_iff_exists.mp hname
  exact .inl ⟨name, List.mem_cons_self, v, hv, hv⟩

theorem preserved_iff_of_renamed {source : String} (hsource : source ∈ legacyNames name)
    (hothers : ∀ key ∈ legacyNames name, key ≠ source → data.Has key → field key ∈ unmapped)
    (hauth : auth.bind (fun secret => secret.lookup name) = data.lookup source)
    (hname : field name ∉ unmapped) :
    Preserved data auth field unmapped name ↔ (data.Has name → data.Has source) := by
  cases hv : data.lookup source with
  | none =>
    have habsent : ¬data.Has source := by
      rw [SecretData.Has, hv]
      simp
    rw [preserved_iff_not_has (hauth.trans hv) hname]
    · exact ⟨fun h hhas => absurd hhas h, fun h hhas => habsent (h hhas)⟩
    · intro key hkey hhas
      exact hothers key hkey (fun heq => habsent (heq ▸ hhas)) hhas
  | some v =>
    refine iff_of_true (preserved_of_lookup (List.mem_cons_of_mem _ hsource) hv (hauth.trans hv))
      fun _ => ?_
    rw [SecretData.Has, hv]
    rfl

theorem preserved_iff_of_single {source : String} (hlegacy : legacyNames name = [source])
    (hauth : auth.bind (fun secret => secret.lookup name) = data.lookup source)
    (hname : field name ∉ unmapped) :
    Preserved data auth field unmapped name ↔ (data.Has name → data.Has source) := by
  refine preserved_iff_of_renamed (by simp [hlegacy]) (fun key hkey hne _ => ?_) hauth hname
  rw [hlegacy, List.mem_singleton] at hkey
  exact absurd hkey hne

theorem preserved_iff_of_fallback {source : String} (hlegacy : legacyNames name = [source])
    (hauth : auth.bind (fun secret => secret.lookup name) =
      if ¬data.Has name ∧ data.Has source then data.lookup source else none)
    (hname : field name ∉ unmapped) :
    Preserved data auth field unmapped name ↔ ¬data.Has name := by
  by_cases h : ¬data.Has name ∧ data.Has source
  · obtain ⟨v, hv⟩ := Option.isSome_iff_exists.mp h.2
    have hmem : source ∈ name :: legacyNames name := by simp [hlegacy]
    rw [if_pos h, hv] at hauth
    exact iff_of_true (preserved_of_lookup hmem hv hauth) h.1
  · rw [if_neg h] at hauth
    by_cases hhas : data.Has name
    · refine ⟨fun h' _ => ?_, fun h' => absurd hhas h'⟩
      rcases h' name List.mem_cons_self hhas with ⟨_, _, v, _, hv⟩ | h'
      · rw [hauth] at hv
        cases hv
      · exact hname h'
    · refine preserved_iff_not_has hauth hname fun key hkey hkeyhas => ?_
      rw [hlegacy, List.mem_singleton] at hkey
      exact absurd ⟨hhas, hkey ▸ hkeyhas⟩ h

end Preserved

namespace KopiaBackendInput

variable {input : KopiaBackendInput} {unmapped : List String}

theorem authOf_nil {plan : List CredRename} (h : plan = []) : input.authOf plan = input.data := by
  rw [authOf, h]
  rfl

theorem authOf_ne_nil {plan : List CredRename} (h : plan ≠ []) :
    input.authOf plan = input.renamedData plan := by
  rw [authOf, if_neg (by simpa using h)]

theorem renameIf_append_eq_nil {p q : Prop} [Decidable p] [Decidable q] {s t s' t' : String} :
    renameIf p s t ++ renameIf q s' t' = [] ↔ ¬p ∧ ¬q := by
  by_cases hp : p <;> by_cases hq : q <;> simp [renameIf, hp, hq]

theorem complete_iff_of_pair {s t s' t' : String} (hne : t ≠ t') (ht : legacyNames t = [s])
    (ht' : legacyNames t' = [s']) (hu : input.field t ∉ unmapped)
    (hu' : input.field t' ∉ unmapped) :
    (∀ name ∈ [t, t'], Preserved input.data
      (some (input.authOf (renameIf (input.data.Has s) s t ++ renameIf (input.data.Has s') s' t')))
      input.field unmapped name) ↔
    (input.data.Has s ∨ input.data.Has s' →
      (input.data.Has t → input.data.Has s) ∧ (input.data.Has t' → input.data.Has s')) := by
  by_cases h : input.data.Has s ∨ input.data.Has s'
  · have hplan : renameIf (input.data.Has s) s t ++ renameIf (input.data.Has s') s' t' ≠ [] := by
      rw [Ne, renameIf_append_eq_nil]
      tauto
    have held {key : String} :
        (if input.data.Has key then input.get key else none) = input.data.lookup key := by
      by_cases hkey : input.data.Has key
      · rw [if_pos hkey, get]
      · rw [if_neg hkey]
        exact (Option.not_isSome_iff_eq_none.mp hkey).symm
    rw [authOf_ne_nil hplan, List.forall_mem_cons, List.forall_mem_singleton,
      preserved_iff_of_single ht _ hu, preserved_iff_of_single ht' _ hu']
    · exact ⟨fun h _ => h, fun h' => h' h⟩
    · rw [Option.bind_some, lookup_renamedData _ hne, if_neg hne.symm, if_pos rfl, held]
    · rw [Option.bind_some, lookup_renamedData _ hne, if_pos rfl, held]
  · obtain ⟨hs, hs'⟩ := not_or.mp h
    rw [authOf_nil (renameIf_append_eq_nil.mpr ⟨hs, hs'⟩)]
    refine iff_of_true ?_ fun h' => absurd h' h
    rw [List.forall_mem_cons, List.forall_mem_singleton]
    refine ⟨preserved_in_place ?_, preserved_in_place ?_⟩
    · intro key hkey hhas
      rw [ht, List.mem_singleton] at hkey
      exact absurd (hkey ▸ hhas) hs
    · intro key hkey hhas
      rw [ht', List.mem_singleton] at hkey
      exact absurd (hkey ▸ hhas) hs'

theorem azure_complete_iff
    (hu : ∀ name ∈ credentialEnvNames .azure, input.field name ∉ unmapped) :
    (∀ name ∈ credentialEnvNames .azure, Preserved input.data
      (some (input.authOf (renamePlan .azure input.data))) input.field unmapped name) ↔
    CredentialsUnmixed input.data .azure := by
  have hne : "AZURE_STORAGE_KEY" ≠ "AZURE_STORAGE_SAS_TOKEN" := by decide
  unfold CredentialsUnmixed
  by_cases h : (¬input.data.Has "AZURE_STORAGE_KEY" ∧ input.data.Has "AZURE_ACCOUNT_KEY") ∨
      (¬input.data.Has "AZURE_STORAGE_SAS_TOKEN" ∧ input.data.Has "AZURE_ACCOUNT_SAS")
  · have hplan : renamePlan .azure input.data ≠ [] := by
      rw [renamePlan, Ne, renameIf_append_eq_nil]
      tauto
    rw [authOf_ne_nil hplan, renamePlan]
    refine Iff.trans (forall₂_congr fun name hname => ?_) ⟨fun h' _ => h', fun h' => h' h⟩
    have hmiss := hu name hname
    simp only [credentialEnvNames, List.mem_cons, List.not_mem_nil, or_false] at hname
    rcases hname with rfl | rfl | rfl | rfl | rfl
    · exact preserved_iff_of_fallback rfl (input.lookup_renamedData hne _) hmiss
    · exact preserved_iff_of_fallback rfl (input.lookup_renamedData hne _) hmiss
    · exact preserved_iff_not_has (input.lookup_renamedData hne _) hmiss fun _ h => by cases h
    · exact preserved_iff_not_has (input.lookup_renamedData hne _) hmiss fun _ h => by cases h
    · exact preserved_iff_not_has (input.lookup_renamedData hne _) hmiss fun _ h => by cases h
  · have hplan : renamePlan .azure input.data = [] := renameIf_append_eq_nil.mpr (not_or.mp h)
    obtain ⟨hkey, hsas⟩ := not_or.mp h
    rw [authOf_nil hplan]
    refine iff_of_true (fun name hname => preserved_in_place fun key hmem hhas => ?_)
      fun h' => absurd h' h
    simp only [credentialEnvNames, List.mem_cons, List.not_mem_nil, or_false] at hname
    rcases hname with rfl | rfl | rfl | rfl | rfl
    · cases List.mem_singleton.mp hmem
      exact not_not.mp fun hno => hkey ⟨hno, hhas⟩
    · cases List.mem_singleton.mp hmem
      exact not_not.mp fun hno => hsas ⟨hno, hhas⟩
    all_goals cases hmem

theorem gcs_complete_iff (hnoted : input.field "GOOGLE_APPLICATION_CREDENTIALS" ∈ unmapped)
    (hu : input.field "KOPIA_GCS_CREDENTIALS" ∉ unmapped) :
    Preserved input.data (some []) input.field unmapped "KOPIA_GCS_CREDENTIALS" ↔
      CredentialsUnmixed input.data .gcs := by
  refine preserved_iff_not_has rfl hu fun key hkey _ => ?_
  cases List.mem_singleton.mp hkey
  exact hnoted

theorem lookup_renamedSftp (name : String) :
    (input.renamedData (renamePlan .sftp input.data)).lookup name =
      if name = "KOPIA_SFTP_KNOWN_HOSTS" then input.data.lookup "SFTP_KNOWN_HOSTS_DATA"
      else none := by
  cases h : input.data.lookup "SFTP_KNOWN_HOSTS_DATA" <;>
    simp [renamePlan, renameIf, renamedData, SecretData.Has, get, h, lookup_putKey]

theorem sftp_complete_iff
    (hkey : input.data.Has "SFTP_KEY_FILE" → input.field "SFTP_KEY_FILE" ∈ unmapped)
    (hhosts : input.data.Has "SFTP_KNOWN_HOSTS" → input.field "SFTP_KNOWN_HOSTS" ∈ unmapped)
    (hu : ∀ name ∈ credentialEnvNames .sftp, input.field name ∉ unmapped) :
    (∀ name ∈ credentialEnvNames .sftp, Preserved input.data
      (some (input.renamedData (renamePlan .sftp input.data))) input.field unmapped name) ↔
    CredentialsUnmixed input.data .sftp := by
  rw [credentialEnvNames, List.forall_mem_cons, List.forall_mem_singleton] at hu ⊢
  refine and_congr ?_ ?_
  · refine preserved_iff_not_has (lookup_renamedSftp _) hu.1 fun key hmem hhas => ?_
    cases List.mem_singleton.mp hmem
    exact hkey hhas
  · refine preserved_iff_of_renamed List.mem_cons_self (fun key hmem hne hhas => ?_)
      (lookup_renamedSftp _) hu.2
    rcases List.mem_pair.mp hmem with rfl | rfl
    · exact absurd rfl hne
    · exact hhosts hhas

theorem rclone_complete_iff
    (hpath : (input.get "RCLONE_CONFIG").any (fun cfg => !cfg.toList.contains '[') = true →
      input.field "RCLONE_CONFIG" ∈ unmapped)
    (hu : input.field "KOPIA_RCLONE_CONFIG" ∉ unmapped) :
    Preserved input.data
      (((input.get "RCLONE_CONFIG").filter fun cfg => cfg.toList.contains '[').map fun cfg =>
        [("KOPIA_RCLONE_CONFIG", cfg)]) input.field unmapped "KOPIA_RCLONE_CONFIG" ↔
    CredentialsUnmixed input.data .rclone := by
  cases hcfg : (input.get "RCLONE_CONFIG").filter fun cfg => cfg.toList.contains '[' with
  | some cfg =>
    obtain ⟨hget, hc⟩ := Option.filter_eq_some_iff.mp hcfg
    refine iff_of_true (preserved_of_lookup ?_ hget rfl) fun _ => ?_
    · exact List.mem_cons_of_mem _ List.mem_cons_self
    · exact ⟨cfg, hget, by simpa using hc⟩
  | none =>
    have hno : ∀ cfg, input.data.lookup "RCLONE_CONFIG" = some cfg → '[' ∉ cfg.toList := by
      simpa [get, Option.filter_eq_none_iff] using hcfg
    unfold CredentialsUnmixed
    rw [preserved_iff_not_has rfl hu]
    · exact ⟨fun h hhas => absurd hhas h, fun h hhas =>
        (h hhas).elim fun cfg hc => hno cfg hc.1 hc.2⟩
    · intro key hmem hhas
      cases List.mem_singleton.mp hmem
      obtain ⟨cfg, hget⟩ := Option.isSome_iff_exists.mp hhas
      exact hpath (by simp [get, hget, hno cfg hget])

end KopiaBackendInput

theorem KopiaBackendPlan.Leaves.complete_iff {plan : KopiaBackendPlan} {input : KopiaBackendInput}
    {scheme : KopiaScheme} {auth : Option SecretData} {unmapped : List String}
    (h : plan.Leaves input scheme auth unmapped) :
    plan.CredentialsComplete input ↔
      ∀ name ∈ credentialEnvNames scheme, Preserved input.data auth input.field unmapped name := by
  rw [CredentialsComplete, h.scheme, h.auth, h.unmapped]

namespace KopiaBackendInput

variable {input : KopiaBackendInput}

def manualFields (input : KopiaBackendInput) : List String :=
  if (input.get "KOPIA_MANUAL_CONFIG").isSome then [input.field "KOPIA_MANUAL_CONFIG"] else []

theorem field_not_mem (scheme : KopiaScheme) {name : String}
    (hname : name ∈ credentialEnvNames scheme) {unmapped : List String}
    (hu : ∀ name ∈ credentialEnvNames scheme, input.field name ∉ unmapped) :
    input.field name ∉ unmapped ++ input.manualFields := by
  refine List.not_mem_append (hu name hname) fun hmem => ?_
  unfold manualFields at hmem
  split at hmem
  · rw [List.mem_singleton, field_inj] at hmem
    subst hmem
    cases scheme <;> simp [credentialEnvNames] at hname
  · cases hmem

variable {plan core : KopiaBackendPlan} {scheme : KopiaScheme} {rest : String}

theorem complete_iff_of_translateBackend
    (hcore : input.translateBackend scheme rest = .ok core) (hscheme : plan.scheme = core.scheme)
    (hbackend : plan.backend = core.backend)
    (hderived : plan.derivedCreds =
      if scheme = .gcs then some (core.derivedCreds.getD (input.derivedName, []))
      else core.derivedCreds)
    (hnotes : unmappableFields plan.notes = unmappableFields core.notes ++ input.manualFields) :
    plan.CredentialsComplete input ↔ CredentialsUnmixed input.data scheme := by
  have whole {auth : Option SecretData} {unmapped : List String} (hne : scheme ≠ .gcs)
      (h : core.Leaves input scheme auth unmapped) :
      plan.Leaves input scheme auth (unmapped ++ input.manualFields) := by
    refine ⟨hscheme.trans h.scheme, ?_, by rw [hnotes, h.unmapped]⟩
    rw [← h.auth, KopiaBackendPlan.authData, hderived, if_neg hne, hbackend]
    rfl
  cases scheme with
  | s3 =>
    rw [(whole (by decide) (s3Backend_leaves hcore)).complete_iff]
    refine iff_of_true (fun name hname => preserved_in_place fun key hkey => ?_) trivial
    simp only [credentialEnvNames, List.mem_cons, List.not_mem_nil, or_false] at hname
    rcases hname with rfl | rfl | rfl <;> cases hkey
  | gcs =>
    obtain ⟨hs, hd, ha, hu⟩ := gcsBackend_leaves hcore
    have h : plan.Leaves input .gcs (some [])
        ([input.field "GOOGLE_APPLICATION_CREDENTIALS"] ++ input.manualFields) := by
      refine ⟨hscheme.trans hs, ?_, by rw [hnotes, hu]⟩
      rw [KopiaBackendPlan.authData, hderived, if_pos rfl, hd, hbackend, ha]
      simp
    rw [h.complete_iff, credentialEnvNames, List.forall_mem_singleton]
    refine gcs_complete_iff (by simp) (field_not_mem .gcs List.mem_cons_self ?_)
    simp [credentialEnvNames, field_inj]
  | azure =>
    rw [(whole (by decide) (azureBackend_leaves hcore)).complete_iff]
    exact azure_complete_iff fun name hname => field_not_mem .azure hname (by simp)
  | b2 =>
    rw [(whole (by decide) (b2Backend_leaves hcore)).complete_iff]
    refine complete_iff_of_pair (by decide) rfl rfl ?_ ?_
    · exact field_not_mem .b2 List.mem_cons_self (by simp)
    · exact field_not_mem .b2 (List.mem_cons_of_mem _ List.mem_cons_self) (by simp)
  | filesystem =>
    rw [KopiaBackendPlan.CredentialsComplete, hscheme, filesystemBackend_scheme hcore]
    exact iff_of_true (fun name hname => by cases hname) trivial
  | sftp =>
    rw [(whole (by decide) (sftpBackend_leaves hcore)).complete_iff]
    refine sftp_complete_iff (fun h => ?_) (fun h => ?_) fun name hname =>
      field_not_mem .sftp hname ?_
    · have hkey : (input.get "SFTP_KEY_FILE").isSome = true := h
      simp [hkey]
    · have hhosts : (input.get "SFTP_KNOWN_HOSTS").isSome = true := h
      simp [hhosts]
    · intro name hname
      simp only [credentialEnvNames, List.mem_cons, List.not_mem_nil, or_false] at hname
      rcases hname with rfl | rfl <;> simp [field_inj]
  | webDav =>
    rw [(whole (by decide) (webDavBackend_leaves hcore)).complete_iff]
    refine complete_iff_of_pair (by decide) rfl rfl ?_ ?_
    · exact field_not_mem .webDav List.mem_cons_self (by simp)
    · exact field_not_mem .webDav (List.mem_cons_of_mem _ List.mem_cons_self) (by simp)
  | rclone =>
    rw [(whole (by decide) (rcloneBackend_leaves hcore)).complete_iff, credentialEnvNames,
      List.forall_mem_singleton]
    refine rclone_complete_iff (fun h => ?_)
      (field_not_mem .rclone List.mem_cons_self ?_)
    · rw [if_pos h]
      simp
    · simp [credentialEnvNames, field_inj]

/-- A backend of which the translation succeeds has all credentials of the
fork's Secret exactly where native and legacy keys are not mixed. -/
theorem credentials_complete_iff (h : input.backendFromKopiaRepository = .ok plan) :
    plan.CredentialsComplete input ↔
      ∃ scheme rest, schemeOf input.url = some (scheme, rest) ∧
        CredentialsUnmixed input.data scheme := by
  obtain ⟨scheme, rest, core, hurl, hcore, hscheme, hbackend, hderived, hnotes⟩ :=
    translateBackend_of_ok h
  rw [complete_iff_of_translateBackend hcore hscheme hbackend hderived hnotes]
  constructor
  · exact fun hdata => ⟨scheme, rest, hurl, hdata⟩
  · rintro ⟨scheme', rest', hurl', hdata⟩
    cases hurl.symm.trans hurl'
    exact hdata

def legacyB2 : KopiaBackendInput where
  url := "b2://backups"
  secretName := "kopia"
  repoName := "backups"
  data := [("B2_ACCOUNT_ID", "k1"), ("B2_APPLICATION_KEY", "s3cret")]

def mixedB2 : KopiaBackendInput :=
  { legacyB2 with data := [("B2_APPLICATION_KEY", "s3cret"), ("B2_KEY_ID", "k1")] }

theorem legacyB2_complete :
    ∃ plan, legacyB2.backendFromKopiaRepository = .ok plan ∧ plan.CredentialsComplete legacyB2 := by
  have hdata : CredentialsUnmixed legacyB2.data .b2 := fun _ => ⟨fun _ => rfl, fun _ => rfl⟩
  obtain ⟨plan, hplan⟩ : ∃ plan, legacyB2.backendFromKopiaRepository = .ok plan := ⟨_, rfl⟩
  exact ⟨plan, hplan, (credentials_complete_iff hplan).mpr ⟨.b2, "backups", rfl, hdata⟩⟩

/-- The derived Secret has the renamed key alone, and no note names the other. -/
theorem mixedB2_incomplete :
    ∃ plan, mixedB2.backendFromKopiaRepository = .ok plan ∧
      plan.derivedCreds = some ("kopia-kopiur-creds", [("B2_KEY", "s3cret")]) ∧
      unmappableFields plan.notes = [] ∧ ¬plan.CredentialsComplete mixedB2 := by
  refine ⟨_, rfl, rfl, rfl, fun h => ?_⟩
  rcases h "B2_KEY_ID" List.mem_cons_self "B2_KEY_ID" List.mem_cons_self rfl with
    ⟨_, _, _, _, hv⟩ | hmem
  · cases hv
  · cases hmem

end KopiaBackendInput

end Kopiur
