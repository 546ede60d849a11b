import Kopiur.Api.Recorded
import Kopiur.Lib.Base64
import Kopiur.Lib.CommandLines
import Kopiur.Mover.PolicySteps

/-!
# The command lines of the kopia client

The arguments of `policy set`, `snapshot create`, `snapshot verify` and
`repository connect`, what each of them asks for, and when kopia reads them so.
Almost every value stands in a token of its own, and no check looks at the first
character of an ignore rule, a description, a prefix or a path.
-/

namespace Kopiur

open Lib.CommandLines

-- `kopia policy set`

def PolicyKnob.flag : PolicyKnob → String
  | .compression => "--compression"
  | .splitter => "--splitter"
  | .ignoreCacheDirs => "--ignore-cache-dirs"
  | .ignoreIdenticalSnapshots => "--ignore-identical-snapshots"
  | .ignoreFileErrors => "--ignore-file-errors"
  | .ignoreDirErrors => "--ignore-dir-errors"
  | .ignoreUnknownTypes => "--ignore-unknown-types"
  | .maxParallelSnapshots => "--max-parallel-snapshots"
  | .maxParallelFileReads => "--max-parallel-file-reads"
  | .keepLatest => "--keep-latest"
  | .keepHourly => "--keep-hourly"
  | .keepDaily => "--keep-daily"
  | .keepWeekly => "--keep-weekly"
  | .keepMonthly => "--keep-monthly"
  | .keepAnnual => "--keep-annual"

/-- The knobs of `push_valued_tristate`, written `--flag=true|false`. -/
def PolicyKnob.isTristate : PolicyKnob → Bool
  | .ignoreCacheDirs | .ignoreIdenticalSnapshots
  | .ignoreFileErrors | .ignoreDirErrors | .ignoreUnknownTypes => true
  | _ => false

def PolicyList.flag : PolicyList → String
  | .ignore => "--add-ignore"
  | .neverCompress => "--add-never-compress"

def PolicyFlag.tokens : PolicyFlag → List String
  | .set knob value => if knob.isTristate then [knob.flag ++ "=" ++ value] else [knob.flag, value]
  | .add list pattern => [list.flag, pattern]

def policySetArgv (target : String) (policy : PolicyArgs) : List String :=
  ["policy", "set", target] ++ (policySetArgs policy).flatMap PolicyFlag.tokens ++
    policy.extraArgs

-- `kopia snapshot create` and `kopia snapshot verify`

structure SnapshotCreateOptions where
  failFast : Option Bool := none
  uploadLimitMb : Option Int := none
  description : Option String := none
deriving DecidableEq

structure VerifyOptions where
  sources : List String := []
  verifyFilesPercent : Option Nat := none
  maxErrors : Option Nat := none
  parallel : Option Nat := none
  fileParallelism : Option Nat := none
  fileQueueLength : Option Nat := none
deriving DecidableEq

/-- `--flag value` for a value that is set. -/
def opt (flag : String) : Option String → List String
  | some v => [flag, v]
  | none => []

def pushTristate (flag : String) : Option Bool → List String
  | some true => ["--" ++ flag]
  | some false => ["--no-" ++ flag]
  | none => []

def tagText (tag : String × String) : String := tag.1 ++ ":" ++ tag.2

/-- `tags` in the order of their keys. -/
def snapshotCreateArgs (sourcePath : String) (stdinFile : Option String)
    (tags : List (String × String)) (overrideSource : Option String)
    (opts : SnapshotCreateOptions) : List String :=
  ["snapshot", "create", sourcePath, "--json"] ++
  opt "--stdin-file" stdinFile ++
  opt "--override-source" overrideSource ++
  tags.flatMap (fun tag => ["--tags", tagText tag]) ++
  pushTristate "fail-fast" opts.failFast ++
  opt "--upload-limit-mb" (opts.uploadLimitMb.map toString) ++
  opt "--description" opts.description

def verifyArgs (opts : VerifyOptions) : List String :=
  ["snapshot", "verify"] ++
  opts.sources.flatMap (fun src => ["--sources", src]) ++
  opt "--verify-files-percent" (opts.verifyFilesPercent.map toString) ++
  opt "--max-errors" (opts.maxErrors.map toString) ++
  opt "--parallel" (opts.parallel.map toString) ++
  opt "--file-parallelism" (opts.fileParallelism.map toString) ++
  opt "--file-queue-length" (opts.fileQueueLength.map toString)

-- `kopia repository connect`

inductive ConnectSpec
  | filesystem (path : String)
  | s3 (bucket : String) (endpoint objectPrefix region : Option String)
      (disableTls disableTlsVerification : Bool) (rootCaPem : Option String)
      (ambientCredentials : Bool)
  | azure (container : String) (storageAccount objectPrefix : Option String)
  | gcs (bucket : String) (objectPrefix credentialsFile : Option String)
  | b2 (bucket : String) (objectPrefix : Option String)
  | sftp (host path : String) (port : Option Nat) (username keyfile knownHosts : Option String)
  | webDav (url : String)
  | rclone (remotePath : String) (configFile startupTimeout : Option String)
  | gdrive (folderId : String) (credentialsFile : Option String)
  | fromConfig (file token : Option String)
  | server (url : String) (fingerprint : Option String)
deriving DecidableEq

structure CacheTuning where
  contentCacheSizeMb : Option Int := none
  metadataCacheSizeMb : Option Int := none
deriving DecidableEq

structure ConnectOptions where
  readonly : Bool := false
  persistCredentials : Bool := false
deriving DecidableEq

def base64Text (text : String) : String :=
  String.ofList (Lib.Base64.encode ((utf8Bytes text).map UInt8.toNat))

def switchIf (flag : String) (on : Bool) : List String := if on then [flag] else []

def backendArgs : ConnectSpec → List String
  | .filesystem path => ["filesystem", "--path", path]
  | .s3 bucket endpoint objectPrefix region disableTls disableTlsVerification rootCaPem
      ambientCredentials =>
    ["s3", "--bucket", bucket] ++
    opt "--endpoint" endpoint ++
    opt "--prefix" objectPrefix ++
    opt "--region" region ++
    switchIf "--disable-tls" disableTls ++
    switchIf "--disable-tls-verification" disableTlsVerification ++
    opt "--root-ca-pem-base64" (rootCaPem.map base64Text) ++
    if ambientCredentials then ["--access-key=", "--secret-access-key="] else []
  | .azure container storageAccount objectPrefix =>
    ["azure", "--container", container] ++
    opt "--storage-account" storageAccount ++
    opt "--prefix" objectPrefix
  | .gcs bucket objectPrefix credentialsFile =>
    ["gcs", "--bucket", bucket] ++
    opt "--prefix" objectPrefix ++
    opt "--credentials-file" credentialsFile
  | .b2 bucket objectPrefix => ["b2", "--bucket", bucket] ++ opt "--prefix" objectPrefix
  | .sftp host path port username keyfile knownHosts =>
    ["sftp", "--host", host, "--path", path] ++
    opt "--port" (port.map toString) ++
    opt "--username" username ++
    opt "--keyfile" keyfile ++
    opt "--known-hosts" knownHosts
  | .webDav url => ["webdav", "--url", url]
  | .rclone remotePath configFile startupTimeout =>
    ["rclone", "--remote-path", remotePath] ++
    -- A value of its own that starts with a dash would be the next flag.
    configFile.toList.map (fun cfg => "--rclone-args" ++ "=" ++ ("--config=" ++ cfg)) ++
    startupTimeout.toList.map (fun t => "--rclone-startup-timeout" ++ "=" ++ t)
  | .gdrive folderId credentialsFile =>
    ["gdrive", "--folder-id", folderId] ++ opt "--credentials-file" credentialsFile
  | .fromConfig file token => ["from-config"] ++ opt "--file" file ++ opt "--token" token
  | .server url fingerprint =>
    ["server", "--url", url] ++ opt "--server-cert-fingerprint" fingerprint

def CacheTuning.args (cache : CacheTuning) : List String :=
  opt "--content-cache-size-mb" (cache.contentCacheSizeMb.map toString) ++
  opt "--metadata-cache-size-mb" (cache.metadataCacheSizeMb.map toString)

def connectArgs (spec : ConnectSpec) (cache : CacheTuning) (opts : ConnectOptions) :
    List String :=
  ["repository", "connect"] ++ backendArgs spec ++ cache.args ++
    switchIf "--readonly" opts.readonly ++ switchIf "--persist-credentials" opts.persistCredentials

def maxSnapshotTagKeyLen : Nat := 63

def maxSnapshotTagValueLen : Nat := 256

def snapshotTagError (key value : String) : Option String :=
  if key.isEmpty then some "tag keys must be non-empty; remove the empty key"
  else if key.toList.contains ':' then
    some ("tag key " ++ debugStr key ++ " contains a colon. Fix: use a key without `:`")
  else if "kopiur".toList.isPrefixOf key.toList then
    some ("tag key " ++ debugStr key ++ " uses the reserved `kopiur` prefix. Fix: use a key " ++
      "that does not start with `kopiur`")
  else if key.utf8ByteSize > maxSnapshotTagKeyLen then
    some ("tag key is " ++ toString key.utf8ByteSize ++ " bytes; the maximum is " ++
      toString maxSnapshotTagKeyLen)
  else if value.utf8ByteSize > maxSnapshotTagValueLen then
    some ("tag value is " ++ toString value.utf8ByteSize ++ " bytes; the maximum is " ++
      toString maxSnapshotTagValueLen)
  else none

def kopiurConfigTag : String := "kopiur:config"

def TagAdmitted (tag : String × String) : Prop :=
  snapshotTagError tag.1 tag.2 = none ∨ tag.1 = kopiurConfigTag ∨ tag.1 = kopiurMetaTag

/-- The manifest entry that is meant. `kopiur:config:<name>` is the key `kopiur` on purpose. -/
def storedTag (tag : String × String) : String × String :=
  if tag.1 = kopiurConfigTag then ("kopiur", "config:" ++ tag.2) else tag

-- What is asked

inductive KopiaCommand
  | policySet (target : String) (policy : PolicyArgs)
  | snapshotCreate (sourcePath : String) (stdinFile : Option String)
      (tags : List (String × String)) (overrideSource : Option String)
      (opts : SnapshotCreateOptions)
  | snapshotVerify (opts : VerifyOptions)
  | connect (spec : ConnectSpec) (cache : CacheTuning) (opts : ConnectOptions)
deriving DecidableEq

namespace KopiaCommand

def argv : KopiaCommand → List String
  | policySet target policy => policySetArgv target policy
  | snapshotCreate sourcePath stdinFile tags overrideSource opts =>
    snapshotCreateArgs sourcePath stdinFile tags overrideSource opts
  | snapshotVerify opts => verifyArgs opts
  | connect spec cache opts => connectArgs spec cache opts

def tags : KopiaCommand → List (String × String)
  | snapshotCreate _ _ tags _ _ => tags
  | _ => []

/-- No words are passed through, and the tags are those admission lets in. Of the
other texts neither admission nor the builders say how they begin. -/
def Admitted : KopiaCommand → Prop
  | policySet _ policy => policy.extraArgs = []
  | snapshotCreate _ _ tags _ _ => ∀ tag ∈ tags, TagAdmitted tag
  | _ => True

end KopiaCommand

def askedOpt (flag : String) (value : Option String) : List Item :=
  value.toList.map fun v => .flag flag (some v)

def askedSwitch (flag : String) (on : Bool) : List Item := if on then [.flag flag none] else []

def askedTristate (flag : String) : Option Bool → List Item
  | some true => [.flag ("--" ++ flag) none]
  | some false => [.flag ("--no-" ++ flag) none]
  | none => []

def PolicyArgs.asked (policy : PolicyArgs) : List Item :=
  askedOpt "--compression" policy.compression ++
  askedOpt "--splitter" policy.splitter ++
  policy.ignore.map (fun rule => .flag "--add-ignore" (some rule)) ++
  policy.neverCompress.map (fun rule => .flag "--add-never-compress" (some rule)) ++
  askedOpt "--ignore-cache-dirs" (policy.ignoreCacheDirs.map toString) ++
  askedOpt "--ignore-identical-snapshots" (policy.ignoreIdenticalSnapshots.map toString) ++
  askedOpt "--ignore-file-errors" (policy.ignoreFileErrors.map toString) ++
  askedOpt "--ignore-dir-errors" (policy.ignoreDirErrors.map toString) ++
  askedOpt "--ignore-unknown-types" (policy.ignoreUnknownTypes.map toString) ++
  askedOpt "--max-parallel-snapshots" (policy.maxParallelSnapshots.map toString) ++
  askedOpt "--max-parallel-file-reads" (policy.maxParallelFileReads.map toString) ++
  askedOpt "--keep-latest" (policy.keepLatest.map toString) ++
  askedOpt "--keep-hourly" (policy.keepHourly.map toString) ++
  askedOpt "--keep-daily" (policy.keepDaily.map toString) ++
  askedOpt "--keep-weekly" (policy.keepWeekly.map toString) ++
  askedOpt "--keep-monthly" (policy.keepMonthly.map toString) ++
  askedOpt "--keep-annual" (policy.keepAnnual.map toString)

def ConnectSpec.asked : ConnectSpec → List Item
  | filesystem path => [.arg "filesystem", .flag "--path" (some path)]
  | s3 bucket endpoint objectPrefix region disableTls disableTlsVerification rootCaPem
      ambientCredentials =>
    [.arg "s3", .flag "--bucket" (some bucket)] ++
    askedOpt "--endpoint" endpoint ++
    askedOpt "--prefix" objectPrefix ++
    askedOpt "--region" region ++
    askedSwitch "--disable-tls" disableTls ++
    askedSwitch "--disable-tls-verification" disableTlsVerification ++
    askedOpt "--root-ca-pem-base64" (rootCaPem.map base64Text) ++
    if ambientCredentials then
      [.flag "--access-key" (some ""), .flag "--secret-access-key" (some "")]
    else []
  | azure container storageAccount objectPrefix =>
    [.arg "azure", .flag "--container" (some container)] ++
    askedOpt "--storage-account" storageAccount ++
    askedOpt "--prefix" objectPrefix
  | gcs bucket objectPrefix credentialsFile =>
    [.arg "gcs", .flag "--bucket" (some bucket)] ++
    askedOpt "--prefix" objectPrefix ++
    askedOpt "--credentials-file" credentialsFile
  | b2 bucket objectPrefix =>
    [.arg "b2", .flag "--bucket" (some bucket)] ++ askedOpt "--prefix" objectPrefix
  | sftp host path port username keyfile knownHosts =>
    [.arg "sftp", .flag "--host" (some host), .flag "--path" (some path)] ++
    askedOpt "--port" (port.map toString) ++
    askedOpt "--username" username ++
    askedOpt "--keyfile" keyfile ++
    askedOpt "--known-hosts" knownHosts
  | webDav url => [.arg "webdav", .flag "--url" (some url)]
  | rclone remotePath configFile startupTimeout =>
    [.arg "rclone", .flag "--remote-path" (some remotePath)] ++
    askedOpt "--rclone-args" (configFile.map ("--config=" ++ ·)) ++
    askedOpt "--rclone-startup-timeout" startupTimeout
  | gdrive folderId credentialsFile =>
    [.arg "gdrive", .flag "--folder-id" (some folderId)] ++
    askedOpt "--credentials-file" credentialsFile
  | fromConfig file token =>
    [.arg "from-config"] ++ askedOpt "--file" file ++ askedOpt "--token" token
  | server url fingerprint =>
    [.arg "server", .flag "--url" (some url)] ++
    askedOpt "--server-cert-fingerprint" fingerprint

/-- The flags, values and arguments a command is meant to pass to kopia. -/
def KopiaCommand.asked : KopiaCommand → List Item
  | policySet target policy =>
    [.arg "policy", .arg "set", .arg target] ++ policy.asked
  | snapshotCreate sourcePath stdinFile tags overrideSource opts =>
    [.arg "snapshot", .arg "create", .arg sourcePath, .flag "--json" none] ++
    askedOpt "--stdin-file" stdinFile ++
    askedOpt "--override-source" overrideSource ++
    tags.flatMap (fun tag => [.flag "--tags" (some (tagText tag))]) ++
    askedTristate "fail-fast" opts.failFast ++
    askedOpt "--upload-limit-mb" (opts.uploadLimitMb.map toString) ++
    askedOpt "--description" opts.description
  | snapshotVerify opts =>
    [.arg "snapshot", .arg "verify"] ++
    opts.sources.flatMap (fun src => [.flag "--sources" (some src)]) ++
    askedOpt "--verify-files-percent" (opts.verifyFilesPercent.map toString) ++
    askedOpt "--max-errors" (opts.maxErrors.map toString) ++
    askedOpt "--parallel" (opts.parallel.map toString) ++
    askedOpt "--file-parallelism" (opts.fileParallelism.map toString) ++
    askedOpt "--file-queue-length" (opts.fileQueueLength.map toString)
  | connect spec cache opts =>
    [.arg "repository", .arg "connect"] ++ spec.asked ++
    askedOpt "--content-cache-size-mb" (cache.contentCacheSizeMb.map toString) ++
    askedOpt "--metadata-cache-size-mb" (cache.metadataCacheSizeMb.map toString) ++
    askedSwitch "--readonly" opts.readonly ++
    askedSwitch "--persist-credentials" opts.persistCredentials

def PolicyArgs.keeps (policy : PolicyArgs) : List String :=
  [policy.keepLatest, policy.keepHourly, policy.keepDaily, policy.keepWeekly, policy.keepMonthly,
    policy.keepAnnual].flatMap fun keep => (keep.map toString).toList

def ConnectSpec.separateTexts : ConnectSpec → List String
  | filesystem path => [path]
  | s3 bucket endpoint objectPrefix region _ _ _ _ =>
    bucket :: (endpoint.toList ++ objectPrefix.toList ++ region.toList)
  | azure container storageAccount objectPrefix =>
    container :: (storageAccount.toList ++ objectPrefix.toList)
  | gcs bucket objectPrefix credentialsFile =>
    bucket :: (objectPrefix.toList ++ credentialsFile.toList)
  | b2 bucket objectPrefix => bucket :: objectPrefix.toList
  | sftp host path _ username keyfile knownHosts =>
    host :: path :: (username.toList ++ keyfile.toList ++ knownHosts.toList)
  | webDav url => [url]
  | rclone remotePath _ _ => [remotePath]
  | gdrive folderId credentialsFile => folderId :: credentialsFile.toList
  | fromConfig file token => file.toList ++ token.toList
  | server url fingerprint => url :: fingerprint.toList

/-- What the caller chose and no flag is joined to. A bundle of certificates is
written in base64, and counts without a sign are plain. -/
def KopiaCommand.separateTexts : KopiaCommand → List String
  | policySet target policy =>
    target :: (policy.compression.toList ++ policy.splitter.toList ++ policy.ignore ++
      policy.neverCompress ++ policy.keeps)
  | snapshotCreate sourcePath stdinFile tags overrideSource opts =>
    sourcePath :: (stdinFile.toList ++ overrideSource.toList ++ tags.map tagText ++
      (opts.uploadLimitMb.map toString).toList ++ opts.description.toList)
  | snapshotVerify opts => opts.sources
  | connect spec cache _ =>
    spec.separateTexts ++ (cache.contentCacheSizeMb.map toString).toList ++
      (cache.metadataCacheSizeMb.map toString).toList

-- kopia's flags

def PolicyKnob.all : List PolicyKnob :=
  [.compression, .splitter, .ignoreCacheDirs, .ignoreIdenticalSnapshots, .ignoreFileErrors,
    .ignoreDirErrors, .ignoreUnknownTypes, .maxParallelSnapshots, .maxParallelFileReads,
    .keepLatest, .keepHourly, .keepDaily, .keepWeekly, .keepMonthly, .keepAnnual]

inductive CreateFlag
  | json | stdinFile | overrideSource | tags | failFast | noFailFast | uploadLimitMb | description
deriving DecidableEq

namespace CreateFlag

def all : List CreateFlag :=
  [json, stdinFile, overrideSource, tags, failFast, noFailFast, uploadLimitMb, description]

def name : CreateFlag → String
  | json => "--json"
  | stdinFile => "--stdin-file"
  | overrideSource => "--override-source"
  | tags => "--tags"
  | failFast => "--fail-fast"
  | noFailFast => "--no-fail-fast"
  | uploadLimitMb => "--upload-limit-mb"
  | description => "--description"

def arity : CreateFlag → Arity
  | json | failFast | noFailFast => .switch
  | _ => .valued

end CreateFlag

inductive VerifyFlag
  | sources | verifyFilesPercent | maxErrors | parallel | fileParallelism | fileQueueLength
deriving DecidableEq

namespace VerifyFlag

def all : List VerifyFlag :=
  [sources, verifyFilesPercent, maxErrors, parallel, fileParallelism, fileQueueLength]

def name : VerifyFlag → String
  | sources => "--sources"
  | verifyFilesPercent => "--verify-files-percent"
  | maxErrors => "--max-errors"
  | parallel => "--parallel"
  | fileParallelism => "--file-parallelism"
  | fileQueueLength => "--file-queue-length"

end VerifyFlag

inductive ConnectFlag
  | path | bucket | endpoint | objectPrefix | region | disableTls | disableTlsVerification
  | rootCaPemBase64 | accessKey | secretAccessKey | container | storageAccount | credentialsFile
  | host | port | username | keyfile | knownHosts | url | remotePath | rcloneArgs
  | rcloneStartupTimeout | folderId | file | token | serverCertFingerprint
  | contentCacheSizeMb | metadataCacheSizeMb | readonly | persistCredentials
deriving DecidableEq

namespace ConnectFlag

def all : List ConnectFlag :=
  [path, bucket, endpoint, objectPrefix, region, disableTls, disableTlsVerification,
    rootCaPemBase64, accessKey, secretAccessKey, container, storageAccount, credentialsFile,
    host, port, username, keyfile, knownHosts, url, remotePath, rcloneArgs,
    rcloneStartupTimeout, folderId, file, token, serverCertFingerprint,
    contentCacheSizeMb, metadataCacheSizeMb, readonly, persistCredentials]

def name : ConnectFlag → String
  | path => "--path"
  | bucket => "--bucket"
  | endpoint => "--endpoint"
  | objectPrefix => "--prefix"
  | region => "--region"
  | disableTls => "--disable-tls"
  | disableTlsVerification => "--disable-tls-verification"
  | rootCaPemBase64 => "--root-ca-pem-base64"
  | accessKey => "--access-key"
  | secretAccessKey => "--secret-access-key"
  | container => "--container"
  | storageAccount => "--storage-account"
  | credentialsFile => "--credentials-file"
  | host => "--host"
  | port => "--port"
  | username => "--username"
  | keyfile => "--keyfile"
  | knownHosts => "--known-hosts"
  | url => "--url"
  | remotePath => "--remote-path"
  | rcloneArgs => "--rclone-args"
  | rcloneStartupTimeout => "--rclone-startup-timeout"
  | folderId => "--folder-id"
  | file => "--file"
  | token => "--token"
  | serverCertFingerprint => "--server-cert-fingerprint"
  | contentCacheSizeMb => "--content-cache-size-mb"
  | metadataCacheSizeMb => "--metadata-cache-size-mb"
  | readonly => "--readonly"
  | persistCredentials => "--persist-credentials"

def arity : ConnectFlag → Arity
  | disableTls | disableTlsVerification | readonly | persistCredentials => .switch
  | _ => .valued

end ConnectFlag

def policyGrammar : Grammar :=
  .ofFlags (PolicyKnob.all.map PolicyKnob.flag ++ [PolicyList.ignore.flag,
    PolicyList.neverCompress.flag]) id fun _ => .valued

def createGrammar : Grammar := .ofFlags CreateFlag.all CreateFlag.name CreateFlag.arity

def verifyGrammar : Grammar := .ofFlags VerifyFlag.all VerifyFlag.name fun _ => .valued

def connectGrammar : Grammar := .ofFlags ConnectFlag.all ConnectFlag.name ConnectFlag.arity

def KopiaCommand.grammar : KopiaCommand → Grammar
  | policySet .. => policyGrammar
  | snapshotCreate .. => createGrammar
  | snapshotVerify _ => verifyGrammar
  | connect .. => connectGrammar

/-- kopia reads the flags, values and arguments that are asked for, no text is
taken for a flag or a file, and the tags come apart as they are meant. -/
structure KopiaCommand.MeansAsked (cmd : KopiaCommand)
    (files : String → Option (List String)) : Prop where
  line : Means cmd.grammar files cmd.argv cmd.asked
  tags : ∀ tag ∈ cmd.tags, splitOnce ':' (tagText tag) = some (storedTag tag)

section Flags

theorem PolicyKnob.flagName (knob : PolicyKnob) : FlagName knob.flag := by
  cases knob <;> exact .ofChars rfl rfl (by decide)

theorem PolicyList.flagName (list : PolicyList) : FlagName list.flag := by
  cases list <;> exact .ofChars rfl rfl (by decide)

theorem CreateFlag.flagName (flag : CreateFlag) : FlagName flag.name := by
  cases flag <;> exact .ofChars rfl rfl (by decide)

theorem VerifyFlag.flagName (flag : VerifyFlag) : FlagName flag.name := by
  cases flag <;> exact .ofChars rfl rfl (by decide)

theorem ConnectFlag.flagName (flag : ConnectFlag) : FlagName flag.name := by
  cases flag <;> exact .ofChars rfl rfl (by decide)

theorem PolicyKnob.knows (knob : PolicyKnob) : policyGrammar.Knows knob.flag .valued := by
  have hmem : knob ∈ PolicyKnob.all := by cases knob <;> decide
  exact Grammar.ofFlags_knows (List.mem_append_left _ (List.mem_map_of_mem hmem)) knob.flagName
    fun _ _ _ => rfl

theorem PolicyList.knows (list : PolicyList) : policyGrammar.Knows list.flag .valued := by
  have hmem : list.flag ∈ [PolicyList.ignore.flag, PolicyList.neverCompress.flag] := by
    cases list with
    | ignore => exact List.mem_cons_self
    | neverCompress => exact List.mem_cons_of_mem _ List.mem_cons_self
  exact Grammar.ofFlags_knows (List.mem_append_right _ hmem) list.flagName fun _ _ _ => rfl

theorem VerifyFlag.knows (flag : VerifyFlag) : verifyGrammar.Knows flag.name .valued := by
  have hmem : flag ∈ VerifyFlag.all := by cases flag <;> decide
  exact Grammar.ofFlags_knows hmem flag.flagName fun _ _ _ => rfl

theorem CreateFlag.switch_ne {f g : CreateFlag} (hf : f.arity = .switch)
    (hg : g.arity = .valued) : f.name ≠ g.name := by
  cases f <;> cases hf <;> cases g <;> first | (cases hg; done) | decide

theorem ConnectFlag.switch_ne {f g : ConnectFlag} (hf : f.arity = .switch)
    (hg : g.arity = .valued) : f.name ≠ g.name := by
  cases f <;> cases hf <;> cases g <;> first | (cases hg; done) | decide

theorem arity_eq {F : Type} {name : F → String} {arity : F → Arity} {f g : F}
    (h : ∀ f g, arity f = .switch → arity g = .valued → name f ≠ name g)
    (hname : name f = name g) : arity f = arity g := by
  cases hf : arity f <;> cases hg : arity g
  · rfl
  · exact absurd hname (h f g hf hg)
  · exact absurd hname.symm (h g f hg hf)
  · rfl

theorem CreateFlag.knows (flag : CreateFlag) : createGrammar.Knows flag.name flag.arity := by
  have hmem : flag ∈ CreateFlag.all := by cases flag <;> decide
  exact Grammar.ofFlags_knows hmem flag.flagName fun other _ hname =>
    arity_eq (fun _ _ => CreateFlag.switch_ne) hname

theorem ConnectFlag.knows (flag : ConnectFlag) : connectGrammar.Knows flag.name flag.arity := by
  have hmem : flag ∈ ConnectFlag.all := by cases flag <;> decide
  exact Grammar.ofFlags_knows hmem flag.flagName fun other _ hname =>
    arity_eq (fun _ _ => ConnectFlag.switch_ne) hname

end Flags

theorem plain_nat (n : Nat) : IsPlain (toString n) := by
  have hne : ∀ c ∈ Nat.toDigits 10 n, c ≠ '-' ∧ c ≠ '@' := by
    intro c hc
    have hdigit := Nat.isDigit_of_mem_toDigits (by decide) (by decide) hc
    constructor
    · rintro rfl
      cases hdigit
    · rintro rfl
      cases hdigit
  exact .ofChars hne

theorem plain_base64Text (text : String) : IsPlain (base64Text text) := by
  refine .ofChars fun c hc => ?_
  rcases Lib.Base64.mem_encode hc with ⟨n, rfl⟩ | rfl
  · exact ⟨Lib.Base64.symbol_ne (by decide) n, Lib.Base64.symbol_ne (by decide) n⟩
  · decide

-- The parts of a command line

section Parts

variable {G : Grammar} {flag : String}

theorem renders_opt (h : G.Knows flag .valued) (value : Option String) :
    Renders G (opt flag value) (askedOpt flag value) value.toList := by
  cases value with
  | none => exact .nil
  | some v => exact .pair h v

theorem renders_plain (h : G.Knows flag .valued) {value : Option String}
    (hplain : ∀ v ∈ value, IsPlain v) : Renders G (opt flag value) (askedOpt flag value) [] := by
  cases value with
  | none => exact .nil
  | some v => exact (Renders.pair h v).drop (hplain v rfl)

theorem renders_count (h : G.Knows flag .valued) (n : Option Nat) :
    Renders G (opt flag (n.map toString)) (askedOpt flag (n.map toString)) [] := by
  refine renders_plain h fun v hv => ?_
  obtain ⟨k, -, rfl⟩ := Option.map_eq_some_iff.mp hv
  exact plain_nat k

theorem renders_switchIf (h : G.Knows flag .switch) (on : Bool) :
    Renders G (switchIf flag on) (askedSwitch flag on) [] := by
  cases on with
  | false => exact .nil
  | true => exact .switch h

theorem renders_joinedOpt (h : G.Knows flag .valued) (value : Option String) :
    Renders G (value.toList.map fun v => flag ++ "=" ++ v) (askedOpt flag value) [] := by
  cases value with
  | none => exact .nil
  | some v => exact .joined h v

theorem renders_each (h : G.Knows flag .valued) {α : Type} (text : α → String) (l : List α) :
    Renders G (l.flatMap fun a => [flag, text a]) (l.flatMap fun a => [.flag flag (some (text a))])
      (l.map text) := by
  rw [List.map_eq_flatMap]
  exact .flatMap (fun a => .pair h (text a)) l

end Parts

section Policy

def PolicyFlag.asked : PolicyFlag → Item
  | .set knob value => .flag knob.flag (some value)
  | .add list pattern => .flag list.flag (some pattern)

theorem asked_pushValue (knob : PolicyKnob) (value : Option String) :
    (pushValue knob value).map PolicyFlag.asked = askedOpt knob.flag value := by
  cases value <;> rfl

theorem asked_adds (list : PolicyList) (patterns : List String) :
    (patterns.map (.add list)).map PolicyFlag.asked =
      patterns.map fun rule => .flag list.flag (some rule) := List.map_map

/-- The builder writes each setting under its own flag, in the order of the fields. -/
theorem asked_policySetArgs (policy : PolicyArgs) :
    (policySetArgs policy).map PolicyFlag.asked = policy.asked := by
  simp only [policySetArgs, pushValuedTristate_eq, List.map_append, asked_pushValue, asked_adds]
  rfl

def RendersFlags (flags : List PolicyFlag) (alone : List String) : Prop :=
  Renders policyGrammar (flags.flatMap PolicyFlag.tokens) (flags.map PolicyFlag.asked) alone

theorem RendersFlags.append {flags flags' : List PolicyFlag} {alone alone' : List String}
    (h : RendersFlags flags alone) (h' : RendersFlags flags' alone') :
    RendersFlags (flags ++ flags') (alone ++ alone') := by
  rw [RendersFlags, List.flatMap_append, List.map_append]
  exact Renders.append h h'

theorem RendersFlags.free {flags flags' : List PolicyFlag} {alone : List String}
    (h : RendersFlags flags alone) (h' : RendersFlags flags' []) :
    RendersFlags (flags ++ flags') alone := by
  have hboth := h.append h'
  rwa [List.append_nil] at hboth

theorem renders_pushValue (knob : PolicyKnob) (h : knob.isTristate = false)
    (value : Option String) : RendersFlags (pushValue knob value) value.toList := by
  cases value with
  | none => exact .nil
  | some v =>
    have htokens : (pushValue knob (some v)).flatMap PolicyFlag.tokens = [knob.flag, v] := by
      simp [pushValue, PolicyFlag.tokens, h]
    rw [RendersFlags, htokens]
    exact .pair knob.knows v

theorem renders_pushValuedTristate (knob : PolicyKnob) (h : knob.isTristate = true)
    (value : Option Bool) : RendersFlags (pushValuedTristate knob value) [] := by
  rw [pushValuedTristate_eq]
  cases value with
  | none => exact .nil
  | some b =>
    have htokens : (pushValue knob ((some b).map toString)).flatMap PolicyFlag.tokens =
        [knob.flag ++ "=" ++ toString b] := by
      simp [pushValue, PolicyFlag.tokens, h]
    rw [RendersFlags, htokens]
    exact .joined knob.knows _

theorem renders_pushCount (knob : PolicyKnob) (h : knob.isTristate = false) (n : Option Nat) :
    RendersFlags (pushValue knob (n.map toString)) [] := by
  cases n with
  | none => exact .nil
  | some n => exact (renders_pushValue knob h (some (toString n))).drop (plain_nat n)

theorem renders_adds (list : PolicyList) (patterns : List String) :
    RendersFlags (patterns.map (.add list)) patterns := by
  induction patterns with
  | nil => exact .nil
  | cons pattern rest ih => exact (Renders.pair list.knows pattern).append ih

theorem renders_policySetArgs (policy : PolicyArgs) :
    RendersFlags (policySetArgs policy) (policy.compression.toList ++ policy.splitter.toList ++
      policy.ignore ++ policy.neverCompress ++ policy.keeps) := by
  have hlists := (((renders_pushValue .compression rfl policy.compression).append
    (renders_pushValue .splitter rfl policy.splitter)).append
    (renders_adds .ignore policy.ignore)).append (renders_adds .neverCompress policy.neverCompress)
  have htristates := ((((hlists.free
    (renders_pushValuedTristate .ignoreCacheDirs rfl policy.ignoreCacheDirs)).free
    (renders_pushValuedTristate .ignoreIdenticalSnapshots rfl policy.ignoreIdenticalSnapshots)).free
    (renders_pushValuedTristate .ignoreFileErrors rfl policy.ignoreFileErrors)).free
    (renders_pushValuedTristate .ignoreDirErrors rfl policy.ignoreDirErrors)).free
    (renders_pushValuedTristate .ignoreUnknownTypes rfl policy.ignoreUnknownTypes)
  have hcounts := (htristates.free
    (renders_pushCount .maxParallelSnapshots rfl policy.maxParallelSnapshots)).free
    (renders_pushCount .maxParallelFileReads rfl policy.maxParallelFileReads)
  have hkeeps := (((((hcounts.append
    (renders_pushValue .keepLatest rfl (policy.keepLatest.map toString))).append
    (renders_pushValue .keepHourly rfl (policy.keepHourly.map toString))).append
    (renders_pushValue .keepDaily rfl (policy.keepDaily.map toString))).append
    (renders_pushValue .keepWeekly rfl (policy.keepWeekly.map toString))).append
    (renders_pushValue .keepMonthly rfl (policy.keepMonthly.map toString))).append
    (renders_pushValue .keepAnnual rfl (policy.keepAnnual.map toString))
  have halone : policy.keeps = (policy.keepLatest.map toString).toList ++
      ((policy.keepHourly.map toString).toList ++ ((policy.keepDaily.map toString).toList ++
      ((policy.keepWeekly.map toString).toList ++ ((policy.keepMonthly.map toString).toList ++
      (policy.keepAnnual.map toString).toList)))) := by
    simp only [PolicyArgs.keeps, List.flatMap_cons, List.flatMap_nil, List.append_nil]
  rw [halone]
  simp only [← List.append_assoc]
  exact hkeeps

theorem renders_policySet (target : String) {policy : PolicyArgs} (h : policy.extraArgs = []) :
    Renders policyGrammar (policySetArgv target policy)
      (KopiaCommand.policySet target policy).asked
      (KopiaCommand.policySet target policy).separateTexts := by
  have hwords : Renders policyGrammar ["policy", "set", target]
      [.arg "policy", .arg "set", .arg target] [target] :=
    ((Renders.word (by decide)).append (.word (by decide))).append (.arg target)
  have hflags := renders_policySetArgs policy
  rw [RendersFlags, asked_policySetArgs] at hflags
  rw [policySetArgv, h, List.append_nil]
  exact hwords.append hflags

end Policy

theorem renders_snapshotCreate (sourcePath : String) (stdinFile : Option String)
    (tags : List (String × String)) (overrideSource : Option String)
    (opts : SnapshotCreateOptions) :
    Renders createGrammar (snapshotCreateArgs sourcePath stdinFile tags overrideSource opts)
      (KopiaCommand.snapshotCreate sourcePath stdinFile tags overrideSource opts).asked
      (KopiaCommand.snapshotCreate sourcePath stdinFile tags overrideSource opts).separateTexts := by
  have hwords : Renders createGrammar ["snapshot", "create", sourcePath, "--json"]
      [.arg "snapshot", .arg "create", .arg sourcePath, .flag "--json" none] [sourcePath] :=
    (((Renders.word (by decide)).append (.word (by decide))).append (.arg sourcePath)).free
      (.switch (CreateFlag.knows .json))
  have hfailFast : Renders createGrammar (pushTristate "fail-fast" opts.failFast)
      (askedTristate "fail-fast" opts.failFast) [] := by
    cases opts.failFast with
    | none => exact .nil
    | some failFast =>
      cases failFast with
      | true => exact .switch (CreateFlag.knows .failFast)
      | false => exact .switch (CreateFlag.knows .noFailFast)
  have hall := (((((hwords.append (renders_opt (CreateFlag.knows .stdinFile) stdinFile)).append
    (renders_opt (CreateFlag.knows .overrideSource) overrideSource)).append
    (renders_each (CreateFlag.knows .tags) tagText tags)).free hfailFast).append
    (renders_opt (CreateFlag.knows .uploadLimitMb) (opts.uploadLimitMb.map toString))).append
    (renders_opt (CreateFlag.knows .description) opts.description)
  have halone : [sourcePath] ++ stdinFile.toList ++ overrideSource.toList ++ tags.map tagText ++
      (opts.uploadLimitMb.map toString).toList ++ opts.description.toList =
        (KopiaCommand.snapshotCreate sourcePath stdinFile tags overrideSource opts).separateTexts :=
    by simp [KopiaCommand.separateTexts]
  rw [← halone]
  exact hall

theorem renders_snapshotVerify (opts : VerifyOptions) :
    Renders verifyGrammar (verifyArgs opts) (KopiaCommand.snapshotVerify opts).asked
      opts.sources := by
  have hwords : Renders verifyGrammar ["snapshot", "verify"] [.arg "snapshot", .arg "verify"] [] :=
    (Renders.word (by decide)).append (.word (by decide))
  have hsources := hwords.append (renders_each (VerifyFlag.knows .sources) id opts.sources)
  rw [List.map_id, List.nil_append] at hsources
  exact ((((hsources.free (renders_count (VerifyFlag.knows .verifyFilesPercent) _)).free
    (renders_count (VerifyFlag.knows .maxErrors) _)).free
    (renders_count (VerifyFlag.knows .parallel) _)).free
    (renders_count (VerifyFlag.knows .fileParallelism) _)).free
    (renders_count (VerifyFlag.knows .fileQueueLength) _)

theorem renders_backend (kind : String) (h : IsPlain kind) (flag : ConnectFlag)
    (hflag : flag.arity = .valued) (value : String) :
    Renders connectGrammar [kind, flag.name, value] [.arg kind, .flag flag.name (some value)]
      [value] :=
  (Renders.word h).append (.pair (hflag ▸ flag.knows) value)

theorem renders_backendArgs (spec : ConnectSpec) :
    Renders connectGrammar (backendArgs spec) spec.asked spec.separateTexts := by
  cases spec with
  | filesystem path => exact renders_backend _ (by decide) .path rfl path
  | s3 bucket endpoint objectPrefix region disableTls disableTlsVerification rootCaPem ambient =>
    have hpem : ∀ v ∈ rootCaPem.map base64Text, IsPlain v := by
      intro v hv
      obtain ⟨pem, -, rfl⟩ := Option.map_eq_some_iff.mp hv
      exact plain_base64Text pem
    have hambient : Renders connectGrammar
        (if ambient then ["--access-key=", "--secret-access-key="] else [])
        (if ambient then
          [.flag "--access-key" (some ""), .flag "--secret-access-key" (some "")] else []) [] := by
      cases ambient with
      | false => exact .nil
      | true =>
        exact (Renders.joined (ConnectFlag.knows .accessKey) "").append
          (.joined (ConnectFlag.knows .secretAccessKey) "")
    have htexts := (((renders_backend "s3" (by decide) .bucket rfl bucket).append
      (renders_opt (ConnectFlag.knows .endpoint) endpoint)).append
      (renders_opt (ConnectFlag.knows .objectPrefix) objectPrefix)).append
      (renders_opt (ConnectFlag.knows .region) region)
    exact (((htexts.free (renders_switchIf (ConnectFlag.knows .disableTls) disableTls)).free
      (renders_switchIf (ConnectFlag.knows .disableTlsVerification) disableTlsVerification)).free
      (renders_plain (ConnectFlag.knows .rootCaPemBase64) hpem)).free hambient
  | azure container storageAccount objectPrefix =>
    exact ((renders_backend _ (by decide) .container rfl container).append
      (renders_opt (ConnectFlag.knows .storageAccount) storageAccount)).append
      (renders_opt (ConnectFlag.knows .objectPrefix) objectPrefix)
  | gcs bucket objectPrefix credentialsFile =>
    exact ((renders_backend _ (by decide) .bucket rfl bucket).append
      (renders_opt (ConnectFlag.knows .objectPrefix) objectPrefix)).append
      (renders_opt (ConnectFlag.knows .credentialsFile) credentialsFile)
  | b2 bucket objectPrefix =>
    exact (renders_backend _ (by decide) .bucket rfl bucket).append
      (renders_opt (ConnectFlag.knows .objectPrefix) objectPrefix)
  | sftp host path port username keyfile knownHosts =>
    have hplace := ((renders_backend "sftp" (by decide) .host rfl host).append
      (.pair (ConnectFlag.knows .path) path)).free (renders_count (ConnectFlag.knows .port) port)
    exact ((hplace.append (renders_opt (ConnectFlag.knows .username) username)).append
      (renders_opt (ConnectFlag.knows .keyfile) keyfile)).append
      (renders_opt (ConnectFlag.knows .knownHosts) knownHosts)
  | webDav url => exact renders_backend _ (by decide) .url rfl url
  | rclone remotePath configFile startupTimeout =>
    have hconfig : Renders connectGrammar
        (configFile.toList.map fun cfg => "--rclone-args" ++ "=" ++ ("--config=" ++ cfg))
        (askedOpt "--rclone-args" (configFile.map ("--config=" ++ ·))) [] := by
      cases configFile with
      | none => exact .nil
      | some cfg => exact .joined (ConnectFlag.knows .rcloneArgs) _
    exact ((renders_backend "rclone" (by decide) .remotePath rfl remotePath).free hconfig).free
      (renders_joinedOpt (ConnectFlag.knows .rcloneStartupTimeout) startupTimeout)
  | gdrive folderId credentialsFile =>
    exact (renders_backend _ (by decide) .folderId rfl folderId).append
      (renders_opt (ConnectFlag.knows .credentialsFile) credentialsFile)
  | fromConfig file token =>
    have hplain : IsPlain "from-config" := by decide
    have hword : Renders connectGrammar ["from-config"] [.arg "from-config"] [] := .word hplain
    exact (hword.append (renders_opt (ConnectFlag.knows .file) file)).append
      (renders_opt (ConnectFlag.knows .token) token)
  | server url fingerprint =>
    exact (renders_backend _ (by decide) .url rfl url).append
      (renders_opt (ConnectFlag.knows .serverCertFingerprint) fingerprint)

theorem renders_connect (spec : ConnectSpec) (cache : CacheTuning) (opts : ConnectOptions) :
    Renders connectGrammar (connectArgs spec cache opts)
      (KopiaCommand.connect spec cache opts).asked
      (KopiaCommand.connect spec cache opts).separateTexts := by
  have hwords : Renders connectGrammar ["repository", "connect"]
      [.arg "repository", .arg "connect"] [] :=
    (Renders.word (by decide)).append (.word (by decide))
  have hcache : Renders connectGrammar cache.args _ _ :=
    (renders_opt (ConnectFlag.knows .contentCacheSizeMb)
      (cache.contentCacheSizeMb.map toString)).append
      (renders_opt (ConnectFlag.knows .metadataCacheSizeMb)
        (cache.metadataCacheSizeMb.map toString))
  have hall := (((hwords.append (renders_backendArgs spec)).append hcache).free
    (renders_switchIf (ConnectFlag.knows .readonly) opts.readonly)).free
    (renders_switchIf (ConnectFlag.knows .persistCredentials) opts.persistCredentials)
  simp only [← List.append_assoc, List.nil_append] at hall
  exact hall

theorem KopiaCommand.renders {cmd : KopiaCommand} (h : cmd.Admitted) :
    Renders cmd.grammar cmd.argv cmd.asked cmd.separateTexts := by
  cases cmd with
  | policySet target policy => exact renders_policySet target h
  | snapshotCreate sourcePath stdinFile tags overrideSource opts =>
    exact renders_snapshotCreate sourcePath stdinFile tags overrideSource opts
  | snapshotVerify opts => exact renders_snapshotVerify opts
  | connect spec cache opts => exact renders_connect spec cache opts

theorem colon_not_mem_key {key value : String} (h : snapshotTagError key value = none) :
    ':' ∉ key.toList := by
  intro hmem
  have hcontains : key.toList.contains ':' = true := List.contains_iff_mem.mpr hmem
  rw [snapshotTagError, if_pos hcontains] at h
  split at h <;> cases h

theorem splitOnce_tagText {tag : String × String} (h : TagAdmitted tag) :
    splitOnce ':' (tagText tag) = some (storedTag tag) := by
  obtain ⟨key, value⟩ := tag
  have hwhole : ∀ {key : String}, ':' ∉ key.toList → ∀ value,
      splitOnce ':' (key ++ ":" ++ value) = some (key, value) :=
    fun hkey value => splitOnce_append (splitOnce_eq_none.mpr hkey) value
  by_cases hconfig : key = kopiurConfigTag
  · have htext : key ++ ":" ++ value = "kopiur" ++ ":" ++ ("config:" ++ value) := by
      rw [hconfig, ← String.append_assoc]
      rfl
    rw [tagText, htext, hwhole (by decide), storedTag, if_pos hconfig]
  · rw [storedTag, if_neg hconfig]
    rcases h with herror | hreserved | hmeta
    · exact hwhole (colon_not_mem_key herror) value
    · exact absurd hreserved hconfig
    · have hkey : ':' ∉ key.toList := by
        change key = kopiurMetaTag at hmeta
        rw [hmeta]
        decide
      exact hwhole hkey value

theorem KopiaCommand.tags_split {cmd : KopiaCommand} (h : cmd.Admitted) :
    ∀ tag ∈ cmd.tags, splitOnce ':' (tagText tag) = some (storedTag tag) := by
  intro tag htag
  cases cmd with
  | snapshotCreate sourcePath stdinFile tags overrideSource opts =>
    exact splitOnce_tagText (h tag htag)
  | _ => cases htag

/-- A command line means what is asked exactly if every text that stands in a
token of its own starts with neither a dash nor an `@`. -/
theorem KopiaCommand.meansAsked_iff {cmd : KopiaCommand} (h : cmd.Admitted)
    (files : String → Option (List String)) :
    cmd.MeansAsked files ↔ ∀ text ∈ cmd.separateTexts, IsPlain text := by
  have hline := (KopiaCommand.renders h).means_iff files
  exact ⟨fun hmeans => hline.mp hmeans.line,
    fun hplain => ⟨hline.mpr hplain, KopiaCommand.tags_split h⟩⟩

/-- An admitted tag with a colon in its value. -/
theorem KopiaCommand.meansAsked_iff_tagged :
    (KopiaCommand.snapshotCreate "/data" none [("app", "web:1")] none {}).Admitted ∧
      ((KopiaCommand.snapshotCreate "/data" none [("app", "web:1")] none {}).MeansAsked
          (fun _ => none) ↔
        ∀ text ∈ ["/data", "app:web:1"], IsPlain text) := by
  have hadmitted :
      (KopiaCommand.snapshotCreate "/data" none [("app", "web:1")] none {}).Admitted := by
    intro tag htag
    rw [List.mem_singleton.mp htag]
    exact .inl (by decide)
  exact ⟨hadmitted, KopiaCommand.meansAsked_iff hadmitted _⟩

theorem KopiaCommand.not_meansAsked {cmd : KopiaCommand} (h : cmd.Admitted) {text : String}
    (hmem : text ∈ cmd.separateTexts) (hstray : ¬ IsPlain text)
    (files : String → Option (List String)) : ¬ cmd.MeansAsked files :=
  fun hmeans => hstray (((KopiaCommand.renders h).means_iff files).mp hmeans.line text hmem)

/-- The rule `-cache` is admitted, and kopia reads it as a flag. -/
theorem dashedRule_not_meansAsked :
    (KopiaCommand.policySet "app@ns:/data" { ignore := ["-cache"] }).Admitted ∧
      ∀ files,
        ¬ (KopiaCommand.policySet "app@ns:/data" { ignore := ["-cache"] }).MeansAsked files :=
  ⟨rfl, KopiaCommand.not_meansAsked rfl (.tail _ (.head _)) (by decide)⟩

end Kopiur
