import Kopiur.Api.Jitter
import Kopiur.Api.Policy
import Kopiur.Lib.Marked

/-!
# What a backend points at

A replication and a seed are refused when both of their backends point at one
storage target. The targets are compared by a key that joins the labelled fields
of a backend. No field is checked for the label that follows it, so a field can
imitate it, and then two targets have one key.
-/

namespace Kopiur.Storage

open Lib

structure SecretRef where
  name : String
  ns : Option String := none
deriving DecidableEq

structure BackendAuth where
  secretRef : Option SecretRef := none
  /-- The name of the service account. -/
  workloadIdentity : Option String := none
deriving DecidableEq

structure ConfigMapKeyRef where
  configMapName : Option String := none
  key : Option String := none
deriving DecidableEq

structure TlsConfig where
  caBundleRef : Option ConfigMapKeyRef := none
  insecureSkipVerify : Bool := false
  disableTls : Bool := false
deriving DecidableEq

structure S3Backend where
  bucket : String
  pathPrefix : Option String := none
  endpoint : Option String := none
  region : Option String := none
  auth : Option BackendAuth := none
  tls : Option TlsConfig := none
deriving DecidableEq

structure AzureBackend where
  container : String
  pathPrefix : Option String := none
  storageAccount : Option String := none
  auth : Option BackendAuth := none
deriving DecidableEq

structure GcsBackend where
  bucket : String
  pathPrefix : Option String := none
  auth : Option BackendAuth := none
deriving DecidableEq

structure B2Backend where
  bucket : String
  pathPrefix : Option String := none
deriving DecidableEq

inductive RepoVolume
  | pvc (name : String)
  | nfs (volume : NfsVolume)
deriving DecidableEq

structure FilesystemBackend where
  path : String
  volume : Option RepoVolume := none
deriving DecidableEq

structure SftpBackend where
  host : String
  path : String
  port : Option UInt16 := none
deriving DecidableEq

structure WebDavBackend where
  url : String
deriving DecidableEq

structure RcloneBackend where
  remotePath : String
  startupTimeout : Option String := none
deriving DecidableEq

structure GdriveBackend where
  folderId : String
deriving DecidableEq

inductive Backend
  | s3 (b : S3Backend)
  | azure (b : AzureBackend)
  | gcs (b : GcsBackend)
  | b2 (b : B2Backend)
  | filesystem (b : FilesystemBackend)
  | sftp (b : SftpBackend)
  | webDav (b : WebDavBackend)
  | rclone (b : RcloneBackend)
  | gdrive (b : GdriveBackend)
deriving DecidableEq

def Backend.kindStr : Backend → String
  | .s3 _ => "S3"
  | .azure _ => "Azure"
  | .gcs _ => "Gcs"
  | .b2 _ => "B2"
  | .filesystem _ => "Filesystem"
  | .sftp _ => "Sftp"
  | .webDav _ => "WebDav"
  | .rclone _ => "Rclone"
  | .gdrive _ => "Gdrive"

-- Admission

def validateDns1123Name (value field : String) : Except ValidationError Unit :=
  if value.isEmpty then .error (.missingRequiredField field)
  else
    let isEdge := fun c : Char => c.isAlpha || c.isDigit
    let validLen := value.utf8ByteSize ≤ 253
    let validChars := value.toList.all fun c => c.isLower || c.isDigit || c == '-' || c == '.'
    let validEdges := value.toList.head?.any isEdge && value.toList.getLast?.any isEdge
    if validLen && validChars && validEdges then .ok ()
    else .error (.invalidFieldValue field
      ("must be a DNS-1123 subdomain: lowercase letters, digits, '-' or '.', starting and " ++
        "ending with a letter or digit, at most 253 characters (got " ++ debugStr value ++ ")"))

def validateNfsVolume (nfs : NfsVolume) (context : String) : Except ValidationError Unit :=
  if (trim nfs.server).isEmpty then .error (.missingRequiredField (context ++ " nfs.server"))
  else if nfs.path.toList.head? ≠ some '/' then
    .error (.invalidFieldValue (context ++ " nfs.path")
      ("must be an absolute export path beginning with '/' (got " ++ debugStr nfs.path ++ ")"))
  else .ok ()

def validateBackendAuth (auth : BackendAuth) (context : String) : Except ValidationError Unit :=
  if auth.secretRef.isSome && auth.workloadIdentity.isSome then
    .error (.mutuallyExclusive "auth.secretRef" "auth.workloadIdentity" context)
  else
    match auth.workloadIdentity with
    | some account =>
      validateDns1123Name account (context ++ " auth.workloadIdentity.serviceAccountName")
    | none => .ok ()

def validateBackendTls (tls : TlsConfig) (context : String) : Except ValidationError Unit :=
  match tls.caBundleRef with
  | none => .ok ()
  | some ca =>
    if tls.disableTls then
      .error (.mutuallyExclusive "tls.caBundleRef" "tls.disableTls"
        (context ++ ": disableTls means the CA bundle is never used; remove disableTls, or " ++
          "remove caBundleRef for plain HTTP"))
    else if ca.configMapName.getD "" = "" then
      .error (.invalidFieldValue (context ++ " tls.caBundleRef.configMapName")
        ("is required. Fix: set configMapName to the ConfigMap holding the PEM CA bundle, or " ++
          "remove the caBundleRef block"))
    else do
      validateDns1123Name (ca.configMapName.getD "")
        (context ++ " tls.caBundleRef.configMapName")
      match ca.key with
      | some key =>
        if (trim key).isEmpty then
          .error (.invalidFieldValue (context ++ " tls.caBundleRef.key")
            ("is blank (" ++ debugStr key ++ "). Fix: set it to the key holding the PEM CA " ++
              "bundle, or omit it to use the default \"ca.crt\""))
        else .ok ()
      | none => .ok ()

def optional {β : Type} (o : Option β) (check : β → Except ValidationError Unit) :
    Except ValidationError Unit :=
  match o with
  | some b => check b
  | none => .ok ()

def validateBackend : Backend → Except ValidationError Unit
  | .filesystem fs =>
    match fs.volume with
    | some (.nfs nfs) => validateNfsVolume nfs "filesystem repo"
    | some (.pvc _) | none => .ok ()
  | .s3 s => do
    optional s.auth (validateBackendAuth · "s3 backend")
    optional s.tls (validateBackendTls · "s3 backend")
  | .azure a =>
    optional a.auth fun auth => do
      validateBackendAuth auth "azure backend"
      -- with workload identity no Secret delivers the account
      if auth.workloadIdentity.isSome && a.storageAccount.isNone then
        .error (.invalidFieldValue "azure backend storageAccount"
          "is required with auth.workloadIdentity. Fix: set spec.backend.azure.storageAccount")
      else .ok ()
  | .gcs g => optional g.auth (validateBackendAuth · "gcs backend")
  | .rclone r =>
    optional r.startupTimeout fun t =>
      if (parseGoDuration t).isNone then
        .error (.invalidFieldValue "rclone backend startupTimeout"
          ("must be a Go duration like \"30s\" or \"2m\" (got " ++ debugStr t ++ ")"))
      else .ok ()
  | .gdrive g =>
    if (trim g.folderId).isEmpty then .error (.missingRequiredField "gdrive backend folderId")
    else .ok ()
  | .b2 _ | .sftp _ | .webDav _ => .ok ()

def volumeKey : Option RepoVolume → String
  | none => "none"
  | some (.pvc name) => "pvc=" ++ name
  | some (.nfs nfs) => "nfs=" ++ nfs.server ++ ":" ++ nfs.path

def portKey (port : Option UInt16) : String := (port.map fun p => p.toNat.repr).getD ""

def backendTargetKey (backend : Backend) : String :=
  let target := match backend with
    | .filesystem f => "path=" ++ f.path ++ ";volume=" ++ volumeKey f.volume
    | .s3 s =>
      "endpoint=" ++ s.endpoint.getD "" ++ ";region=" ++ s.region.getD "" ++
        ";bucket=" ++ s.bucket ++ ";prefix=" ++ s.pathPrefix.getD ""
    | .azure a =>
      "account=" ++ a.storageAccount.getD "" ++ ";container=" ++ a.container ++
        ";prefix=" ++ a.pathPrefix.getD ""
    | .gcs g => "bucket=" ++ g.bucket ++ ";prefix=" ++ g.pathPrefix.getD ""
    | .b2 b => "bucket=" ++ b.bucket ++ ";prefix=" ++ b.pathPrefix.getD ""
    | .sftp s => "host=" ++ s.host ++ ";port=" ++ portKey s.port ++ ";path=" ++ s.path
    | .webDav w => "url=" ++ w.url
    | .rclone r => "remotePath=" ++ r.remotePath
    | .gdrive g => "folderId=" ++ g.folderId
  backend.kindStr ++ ":" ++ target

def replicationDestinationDiffers (source dest : Backend) : Bool :=
  backendTargetKey source != backendTargetKey dest

-- One target

/-- The same kind, and every identifying field equal; an absent field is empty. -/
def SameTarget : Backend → Backend → Prop
  | .s3 a, .s3 b =>
    a.endpoint.getD "" = b.endpoint.getD "" ∧ a.region.getD "" = b.region.getD "" ∧
      a.bucket = b.bucket ∧ a.pathPrefix.getD "" = b.pathPrefix.getD ""
  | .azure a, .azure b =>
    a.storageAccount.getD "" = b.storageAccount.getD "" ∧ a.container = b.container ∧
      a.pathPrefix.getD "" = b.pathPrefix.getD ""
  | .gcs a, .gcs b => a.bucket = b.bucket ∧ a.pathPrefix.getD "" = b.pathPrefix.getD ""
  | .b2 a, .b2 b => a.bucket = b.bucket ∧ a.pathPrefix.getD "" = b.pathPrefix.getD ""
  | .filesystem a, .filesystem b => a.path = b.path ∧ a.volume = b.volume
  | .sftp a, .sftp b => a.host = b.host ∧ a.port = b.port ∧ a.path = b.path
  | .webDav a, .webDav b => a.url = b.url
  | .rclone a, .rclone b => a.remotePath = b.remotePath
  | .gdrive a, .gdrive b => a.folderId = b.folderId
  | _, _ => False

/-- The fields of a key, in its order. -/
def keyFields : Backend → List String
  | .s3 b => [b.endpoint.getD "", b.region.getD "", b.bucket, b.pathPrefix.getD ""]
  | .azure b => [b.storageAccount.getD "", b.container, b.pathPrefix.getD ""]
  | .gcs b => [b.bucket, b.pathPrefix.getD ""]
  | .b2 b => [b.bucket, b.pathPrefix.getD ""]
  | .filesystem b => [b.path, volumeKey b.volume]
  | .sftp b => [b.host, portKey b.port, b.path]
  | .webDav b => [b.url]
  | .rclone b => [b.remotePath]
  | .gdrive b => [b.folderId]

/-- What stands before the first field. -/
def keyHead : Backend → String
  | .s3 _ => "S3:endpoint="
  | .azure _ => "Azure:account="
  | .gcs _ => "Gcs:bucket="
  | .b2 _ => "B2:bucket="
  | .filesystem _ => "Filesystem:path="
  | .sftp _ => "Sftp:host="
  | .webDav _ => "WebDav:url="
  | .rclone _ => "Rclone:remotePath="
  | .gdrive _ => "Gdrive:folderId="

/-- The labels of the other fields. -/
def keyMarks : Backend → List String
  | .s3 _ => [";region=", ";bucket=", ";prefix="]
  | .azure _ => [";container=", ";prefix="]
  | .gcs _ | .b2 _ => [";prefix="]
  | .filesystem _ => [";volume="]
  | .sftp _ => [";port=", ";path="]
  | .webDav _ | .rclone _ | .gdrive _ => []

def VolumeImitates : Option RepoVolume → Option RepoVolume → Prop
  | some (.nfs a), some (.nfs b) =>
    Imitates [[':']] [a.server.toList, a.path.toList] [b.server.toList, b.path.toList]
  | _, _ => False

def MountImitates : Backend → Backend → Prop
  | .filesystem a, .filesystem b => a.path = b.path ∧ VolumeImitates a.volume b.volume
  | _, _ => False

/-- A field of one backend holds the label of its next field and what follows
there, as the other backend has it. -/
def TargetImitates (a b : Backend) : Prop :=
  a.kindStr = b.kindStr ∧
    (Imitates ((keyMarks a).map String.toList) ((keyFields a).map String.toList)
        ((keyFields b).map String.toList) ∨ MountImitates a b)

theorem backendTargetKey_toList (b : Backend) :
    (backendTargetKey b).toList =
      marked ((keyHead b :: keyMarks b).map String.toList) ((keyFields b).map String.toList) := by
  cases b <;>
    simp [backendTargetKey, keyHead, keyMarks, keyFields, marked, Backend.kindStr]

theorem sharp_keyMarks (b : Backend) : ∀ m ∈ (keyMarks b).map String.toList, Sharp m := by
  have hsharp : ∀ s ∈ keyMarks b, s.toList.head? = some ';' ∧ ';' ∉ s.toList.tail := by
    cases b <;> simp [keyMarks]
  intro m hm
  obtain ⟨s, hs, rfl⟩ := List.mem_map.mp hm
  obtain ⟨hhead, htail⟩ := hsharp s hs
  exact ⟨';', s.toList.tail, List.eq_cons_of_mem_head? hhead, htail⟩

theorem length_keyFields (b : Backend) : (keyFields b).length = (keyMarks b).length + 1 := by
  cases b <;> rfl

theorem kindStr_of_key {a b : Backend} (h : backendTargetKey a = backendTargetKey b) :
    a.kindStr = b.kindStr := by
  have htake : (backendTargetKey a).toList.take 2 = (backendTargetKey b).toList.take 2 := by rw [h]
  rw [backendTargetKey_toList, backendTargetKey_toList] at htake
  cases a <;> cases b <;> first
    | rfl
    | simp [keyHead, keyMarks, keyFields, marked] at htake

theorem keyHead_of_kindStr {a b : Backend} (h : a.kindStr = b.kindStr) : keyHead a = keyHead b := by
  cases a <;> cases b <;> first
    | rfl
    | simp [Backend.kindStr] at h

theorem keyMarks_of_kindStr {a b : Backend} (h : a.kindStr = b.kindStr) :
    keyMarks a = keyMarks b := by
  cases a <;> cases b <;> first
    | rfl
    | simp [Backend.kindStr] at h

theorem backendTargetKey_inj {a b : Backend} (hkind : a.kindStr = b.kindStr) :
    backendTargetKey a = backendTargetKey b ↔ keyFields a = keyFields b ∨
      Imitates ((keyMarks a).map String.toList) ((keyFields a).map String.toList)
        ((keyFields b).map String.toList) := by
  have hmarks := keyMarks_of_kindStr hkind
  have hlen : ((keyFields b).map String.toList).length =
      ((keyMarks a).map String.toList).length + 1 := by
    simp [length_keyFields, hmarks]
  rw [← String.toList_inj, backendTargetKey_toList, backendTargetKey_toList,
    ← keyHead_of_kindStr hkind, ← hmarks, List.map_cons,
    marked_inj _ (sharp_keyMarks a) (by simp [length_keyFields]) hlen,
    (List.map_injective_iff.mpr fun _ _ => String.toList_inj.mp).eq_iff]

-- The fields as the target

theorem portKey_inj {p q : Option UInt16} : portKey p = portKey q ↔ p = q := by
  have hsome : ∀ n : Nat, n.repr ≠ "" := fun n h => by
    have hlen : 0 < n.repr.length := Nat.length_repr_pos
    simp [h] at hlen
  cases p with
  | none => cases q <;> simp [portKey, (hsome _).symm]
  | some n =>
    cases q with
    | none => simp [portKey, hsome]
    | some m =>
      refine ⟨fun h => ?_, fun h => h ▸ rfl⟩
      have hnat : n.toNat = m.toNat := Int.ofNat.inj (int_repr_inj h)
      rw [UInt16.toNat_inj.mp hnat]

theorem sharp_colon : ∀ m ∈ [[':']], Sharp m := by
  intro m hm
  obtain rfl := List.mem_singleton.mp hm
  exact ⟨':', [], rfl, by simp⟩

theorem nfsKey_inj {a b : NfsVolume} :
    a.server ++ ":" ++ a.path = b.server ++ ":" ++ b.path ↔
      a = b ∨ Imitates [[':']] [a.server.toList, a.path.toList] [b.server.toList, b.path.toList] := by
  have htext : ∀ v : NfsVolume, (v.server ++ ":" ++ v.path).toList =
      marked [[], [':']] [v.server.toList, v.path.toList] := fun v => by
    simp [marked]
  rw [← String.toList_inj, htext, htext, marked_inj _ sharp_colon rfl rfl]
  refine or_congr ?_ Iff.rfl
  cases a
  cases b
  simp [String.toList_inj]

theorem volumeKey_inj {v w : Option RepoVolume} :
    volumeKey v = volumeKey w ↔ v = w ∨ VolumeImitates v w := by
  match v, w with
  | none, none => simp
  | none, some (.pvc _) | none, some (.nfs _) | some (.pvc _), none | some (.nfs _), none
  | some (.pvc _), some (.nfs _) | some (.nfs _), some (.pvc _) =>
    simp only [volumeKey, VolumeImitates, ← String.toList_inj, String.toList_append]
    simp
  | some (.pvc _), some (.pvc _) =>
    simp only [volumeKey, VolumeImitates, ← String.toList_inj, String.toList_append]
    simp [String.toList_inj]
  | some (.nfs a), some (.nfs b) =>
    have hnfs := nfsKey_inj (a := a) (b := b)
    simp only [← String.toList_inj, String.toList_append] at hnfs
    simp only [volumeKey, VolumeImitates, ← String.toList_inj, String.toList_append]
    simpa using hnfs

theorem VolumeImitates.ne {v w : Option RepoVolume} (h : VolumeImitates v w) : v ≠ w := by
  rintro rfl
  match v, h with
  | some (.nfs a), h => exact Imitates.ne sharp_colon h rfl

theorem SameTarget.kindStr {a b : Backend} (h : SameTarget a b) : a.kindStr = b.kindStr := by
  cases a <;> cases b <;> first
    | rfl
    | exact h.elim

theorem keyFields_eq {a b : Backend} (hkind : a.kindStr = b.kindStr) :
    keyFields a = keyFields b ↔ SameTarget a b ∨ MountImitates a b := by
  cases a <;> cases b <;> first
    | simp [Backend.kindStr] at hkind; done
    | simp [keyFields, SameTarget, MountImitates, portKey_inj, volumeKey_inj, and_or_left]

theorem TargetImitates.not_sameTarget {a b : Backend} (h : TargetImitates a b) :
    ¬ SameTarget a b := by
  obtain ⟨hkind, himitates | hvolume⟩ := h
  · intro hsame
    have hfields := (keyFields_eq hkind).mpr (.inl hsame)
    exact himitates.ne (sharp_keyMarks a) (by rw [hfields])
  · intro hsame
    cases a <;> cases b <;> first
      | exact hvolume.2.ne hsame.2
      | exact hvolume

theorem backendTargetKey_eq_iff (a b : Backend) :
    backendTargetKey a = backendTargetKey b ↔ SameTarget a b ∨ TargetImitates a b := by
  constructor
  · intro h
    have hkind := kindStr_of_key h
    rcases (backendTargetKey_inj hkind).mp h with hfields | himitates
    · exact ((keyFields_eq hkind).mp hfields).imp_right fun hvolume => ⟨hkind, .inr hvolume⟩
    · exact .inr ⟨hkind, .inl himitates⟩
  · rintro (hsame | ⟨hkind, himitates | hvolume⟩)
    · have hfields := (keyFields_eq hsame.kindStr).mpr (.inl hsame)
      exact (backendTargetKey_inj hsame.kindStr).mpr (.inl hfields)
    · exact (backendTargetKey_inj hkind).mpr (.inr himitates)
    · exact (backendTargetKey_inj hkind).mpr (.inl ((keyFields_eq hkind).mpr (.inr hvolume)))

/-- When a destination is told from its source as their targets are. -/
theorem replicationDestinationDiffers_iff (source dest : Backend) :
    (replicationDestinationDiffers source dest = false ↔ SameTarget source dest) ↔
      ¬ TargetImitates source dest := by
  have hkey : replicationDestinationDiffers source dest = false ↔
      SameTarget source dest ∨ TargetImitates source dest := by
    simp [replicationDestinationDiffers, backendTargetKey_eq_iff]
  rw [hkey]
  constructor
  · intro h himitates
    exact himitates.not_sameTarget (h.mp (.inr himitates))
  · intro h
    exact or_iff_left h

def nestedPrefix : Backend := .s3 { bucket := "backups", pathPrefix := some "a;prefix=b" }

def nestedBucket : Backend := .s3 { bucket := "backups;prefix=a", pathPrefix := some "b" }

/-- Two admitted backends with different buckets and one key. -/
theorem replicationDestinationDiffers_imitated :
    ¬ ∀ source dest, validateBackend source = .ok () → validateBackend dest = .ok () →
      (replicationDestinationDiffers source dest = false ↔ SameTarget source dest) := by
  intro h
  have hsame := (h nestedPrefix nestedBucket rfl rfl).mp (by decide)
  exact absurd hsame.2.2.1 (by decide)

end Kopiur.Storage
