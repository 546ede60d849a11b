import Kopiur.Lib.Canonical
import Kopiur.Naming
import Mathlib.Data.Finset.Basic

/-!
# Who a request runs as

The identity the backend derives from the headers of the trusted proxy, or
from the configured anonymous identity.
-/

namespace Kopiur.Ui

open Kopiur.Lib

/-! ## Headers -/

/-- A lower-case header name. -/
abbrev HeaderName := String

abbrev HeaderValue := List UInt8

/-- The headers in their order; a name may repeat. -/
abbrev HeaderMap := List (HeaderName × HeaderValue)

namespace HeaderMap

def getAll (headers : HeaderMap) (name : HeaderName) : List HeaderValue :=
  (headers.filter fun e => e.1 = name).map (·.2)

def get (headers : HeaderMap) (name : HeaderName) : Option HeaderValue :=
  (headers.getAll name).head?

def remove (headers : HeaderMap) (name : HeaderName) : HeaderMap :=
  headers.filter fun e => e.1 ≠ name

end HeaderMap

def utf8 (s : String) : List UInt8 := s.toUTF8.data.toList

theorem utf8_inj {s t : String} (h : utf8 s = utf8 t) : s = t := by
  apply String.toByteArray_inj.mp
  exact ByteArray.ext (Array.toList_inj.mp h)

/-- What the backend uses of its libraries for header text and encoded lists. -/
structure Codec where
  /-- `HeaderValue::to_str` -/
  toStr : HeaderValue → Option String
  /-- `HeaderValue::from_str` -/
  fromStr : String → Option HeaderValue
  /-- `HeaderName::try_from` -/
  headerName : String → Option HeaderName
  decodeBase64 : String → Option (List UInt8)
  /-- `serde_json::from_slice::<Vec<String>>` -/
  parseJsonStrings : List UInt8 → Except String (List String)

/-! ## Configuration -/

inductive GroupsFormat
  | delimited | json | base64Json
deriving DecidableEq

structure AnonymousIdentity where
  user : String
  groups : List String
deriving DecidableEq

inductive AuthMode
  | headers (user : HeaderName) (groups : Option HeaderName)
      (anonymousFallback : Option AnonymousIdentity)
  | anonymousOnly (anonymous : AnonymousIdentity)
deriving DecidableEq

structure AuthConfig where
  mode : AuthMode
  groupsSeparator : String
  groupsFormat : GroupsFormat
  emailHeader : Option HeaderName
  extraKeys : List String
  allowedGroups : Option (List String)
  proxySecret : Option (List UInt8)
deriving DecidableEq

/-! ## Principals -/

inductive IdentitySource
  | trustedHeaders | anonymous
deriving DecidableEq

structure Identity where
  user : String
  groups : List String
  droppedGroups : List String
  email : Option String
  /-- By key, in the order of the keys. -/
  extra : List (String × List String)
  source : IdentitySource
deriving DecidableEq

inductive AuthError
  | noIdentity (expectedHeader : Option String)
  | invalidHeaderValue (header reason : String)
  | forbiddenPrincipal (principal why : String)
  | malformedGroupsHeader (header : String) (format : GroupsFormat) (reason : String)
  | tooManyGroups (count max : Nat)
  | proxySecretMissing
  | notWired
  | proxySecretMismatch
deriving DecidableEq

def systemAuthenticated : String := "system:authenticated"

def emailExtraKey : String := "email"

def maxPrincipalBytes : Nat := 512

def maxGroups : Nat := 64

def maxGroupsHeaderBytes : Nat := maxGroups * maxPrincipalBytes * 2

def isForbiddenPrincipal (principal : String) : Bool :=
  "system:".toList.isPrefixOf principal.toList && principal ≠ systemAuthenticated

/-- `char::is_whitespace` -/
def isWhitespace (c : Char) : Bool :=
  let n := c.toNat
  (9 ≤ n && n ≤ 13) || n == 0x20 || n == 0x85 || n == 0xA0 || n == 0x1680 ||
    (0x2000 ≤ n && n ≤ 0x200A) || n == 0x2028 || n == 0x2029 || n == 0x202F || n == 0x205F ||
    n == 0x3000

def trim (s : String) : String :=
  String.ofList (((s.toList.dropWhile isWhitespace).reverse.dropWhile isWhitespace).reverse)

def printable (b : UInt8) : Bool := 32 ≤ b && b ≤ 126

def checkPrincipal (header value : String) : Except AuthError Unit :=
  if value.isEmpty then .error (.invalidHeaderValue header "the value is empty")
  else if (utf8 value).length > maxPrincipalBytes then
    .error (.invalidHeaderValue header (toString (utf8 value).length ++ " bytes is longer than the " ++
      toString maxPrincipalBytes ++ "-byte limit"))
  else
    match (utf8 value).find? fun b => !printable b with
    | some bad =>
      .error (.invalidHeaderValue header ("it contains the byte 0x" ++ hex 2 bad.toNat ++
        "; only printable ASCII (space through ~) is allowed"))
    | none => .ok ()

def rejectForbidden (principal : String) : Except AuthError Unit :=
  if isForbiddenPrincipal principal then
    .error (.forbiddenPrincipal principal "system: names are reserved for Kubernetes")
  else .ok ()

def checkGroupBound (groups : List String) : Except AuthError Unit :=
  if groups.length > maxGroups then .error (.tooManyGroups groups.length maxGroups) else .ok ()

def splitGroups (value separator : String) : List String :=
  let parts := if separator.isEmpty then [value] else value.splitOn separator
  (parts.map trim).filter fun p => !p.isEmpty

/-! ## Reading the headers -/

section extract

variable (codec : Codec)

def valueStr (header : HeaderName) (value : HeaderValue) : Except AuthError String :=
  match codec.toStr value with
  | some text => .ok text
  | none => .error (.invalidHeaderValue header "the value is not valid ASCII text")

def headerStr (headers : HeaderMap) (name : HeaderName) : Except AuthError (Option String) :=
  match headers.get name with
  | some value => do
    let text := trim (← valueStr codec name value)
    return if text.isEmpty then none else some text
  | none => return none

def checkEncodedLen (raw : String) : Except String Unit :=
  if (utf8 raw).length > maxGroupsHeaderBytes then
    .error (toString (utf8 raw).length ++ " bytes is longer than the " ++
      toString maxGroupsHeaderBytes ++ "-byte limit")
  else .ok ()

def parseJsonGroups (bytes : List UInt8) : Except String (List String) :=
  (codec.parseJsonStrings bytes).mapError fun e =>
    "it is not a JSON array of strings (" ++ e ++ ")"

def decodeGroups (raw : String) (cfg : AuthConfig) (header : HeaderName) :
    Except AuthError (List String) :=
  let malformed {α : Type} (r : Except String α) : Except AuthError α :=
    r.mapError fun reason => .malformedGroupsHeader header cfg.groupsFormat reason
  match cfg.groupsFormat with
  | .delimited => .ok (splitGroups raw cfg.groupsSeparator)
  | .json => do
    malformed (checkEncodedLen raw)
    malformed (parseJsonGroups codec (utf8 raw))
  | .base64Json => do
    malformed (checkEncodedLen raw)
    let bytes ← malformed <|
      match codec.decodeBase64 raw with
      | some bytes => .ok bytes
      | none => .error "the value is not base64 (standard or URL-safe)"
    malformed (parseJsonGroups codec bytes)

/-- One decoded group, added to those found so far. -/
def addGroup (header : HeaderName) (groups : List String) (group : String) :
    Except AuthError (List String) :=
  let group := trim group
  if group.isEmpty then .ok groups
  else do
    checkGroupBound groups
    checkPrincipal header group
    rejectForbidden group
    return groups ++ [group]

def assertedGroups (headers : HeaderMap) (cfg : AuthConfig) (header : HeaderName) :
    Except AuthError (List String) :=
  (headers.getAll header).foldlM (fun groups value => do
    let raw := trim (← valueStr codec header value)
    (← decodeGroups codec raw cfg header).foldlM (addGroup header) groups) []

/-- The groups on the allowlist, and the others. -/
def partitionAllowed (allowedGroups : Option (List String)) (groups : List String) :
    List String × List String :=
  match allowedGroups with
  | some allowed =>
    (groups.filter fun g => g ∈ allowed, canonical (groups.filter fun g => ¬g ∈ allowed))
  | none => (groups, [])

/-- What every identity goes through: the allowlist, `system:authenticated`,
the canonical order, the bound and the extras. -/
def finish (user : String) (groups : List String) (email : Option String)
    (source : IdentitySource) (cfg : AuthConfig) : Except AuthError Identity := do
  let (groups, droppedGroups) := partitionAllowed cfg.allowedGroups groups
  let groups :=
    if groups.any (· = systemAuthenticated) then groups else groups ++ [systemAuthenticated]
  let groups := canonical groups
  checkGroupBound groups
  let extra :=
    match email with
    | some address =>
      if cfg.extraKeys.any (· = emailExtraKey) then [(emailExtraKey, [address])] else []
    | none => []
  return { user, groups, droppedGroups, email, extra, source }

def headerGroups (headers : HeaderMap) (cfg : AuthConfig) (groupsHeader : Option HeaderName) :
    Except AuthError (List String) :=
  match groupsHeader with
  | some header => assertedGroups codec headers cfg header
  | none => .ok []

def headerEmail (headers : HeaderMap) (cfg : AuthConfig) : Except AuthError (Option String) :=
  match cfg.emailHeader with
  | some header => do
    match ← headerStr codec headers header with
    | some value => do
      checkPrincipal header value
      return some value
    | none => return none
  | none => .ok none

def headerIdentity (headers : HeaderMap) (cfg : AuthConfig) (userHeader : HeaderName)
    (user : String) (groupsHeader : Option HeaderName) : Except AuthError Identity := do
  checkPrincipal userHeader user
  rejectForbidden user
  let groups ← headerGroups codec headers cfg groupsHeader
  let email ← headerEmail codec headers cfg
  finish user groups email .trustedHeaders cfg

def anonymousIdentity (anonymous : AnonymousIdentity) (cfg : AuthConfig) :
    Except AuthError Identity :=
  finish anonymous.user anonymous.groups none .anonymous cfg

def extractIdentity (headers : HeaderMap) (cfg : AuthConfig) : Except AuthError Identity :=
  match cfg.mode with
  | .anonymousOnly anonymous => anonymousIdentity anonymous cfg
  | .headers user groups anonymousFallback => do
    match ← headerStr codec headers user with
    | some name => headerIdentity codec headers cfg user name groups
    | none =>
      match anonymousFallback with
      | some anonymous => anonymousIdentity anonymous cfg
      | none => .error (.noIdentity (some user))

def proxyTokenHeader : HeaderName := "x-kopiur-proxy-token"

def verifyProxySecret (headers : HeaderMap) (expected : Option (List UInt8)) :
    Except AuthError Unit :=
  match expected with
  | none => .ok ()
  | some expected =>
    match headers.get proxyTokenHeader with
    | none => .error .proxySecretMissing
    | some presented => if presented = expected then .ok () else .error .proxySecretMismatch

def strippedHeaders : List HeaderName :=
  ["cookie", "authorization", "proxy-authorization", "x-forwarded-access-token",
    "x-forwarded-authorization"]

def stripSensitive (headers : HeaderMap) : HeaderMap :=
  strippedHeaders.foldl HeaderMap.remove headers

/-- The identity of a wired backend for a request, as the middleware resolves it. -/
def identify (headers : HeaderMap) (cfg : AuthConfig) : Except AuthError Identity := do
  let headers := stripSensitive headers
  match cfg.mode with
  | .headers .. => verifyProxySecret headers cfg.proxySecret
  | .anonymousOnly _ => pure ()
  extractIdentity codec headers cfg

end extract

/-! ## Resolving the configuration -/

inductive ConfigError
  | invalidAllowedGroups (value : String)
  | forbiddenAnonymousGroup (group : String)
  | invalidHeaderName (header : String)
  | reservedHeaderName (header : String)
  | anonymousWithoutUser
  | noIdentitySource
  | proxySecret (reason : String)
deriving DecidableEq

/-- The part of the arguments that says how identities are established. -/
structure AuthArgs where
  userHeader : Option String
  groupsHeader : Option String
  groupsSeparator : String
  groupsFormat : GroupsFormat
  emailHeader : Option String
  impersonateExtraKeys : Option String
  allowedGroups : Option String
  anonymousUser : Option String
  anonymousGroups : Option String
  anonymousFallback : Bool
deriving DecidableEq

def nonempty (v : Option String) : Option String := v.filter fun s => !s.isEmpty

def csv (value : Option String) : List String :=
  match value with
  | some v => ((v.splitOn ",").map trim).filter fun s => !s.isEmpty
  | none => []

def rejectSystemIdentity (value : String) : Except ConfigError Unit :=
  let forbidden := value = "system:masters" ∨
    ("system:".toList.isPrefixOf value.toList ∧ value ≠ systemAuthenticated)
  if forbidden then .error (.forbiddenAnonymousGroup value) else .ok ()

def headerName (codec : Codec) (value : Option String) : Except ConfigError (Option HeaderName) :=
  match value with
  | none => .ok none
  | some raw =>
    match codec.headerName raw with
    | none => .error (.invalidHeaderName raw)
    | some lower =>
      if lower ∈ ["authorization", "cookie"] ∨ "impersonate-".toList.isPrefixOf lower.toList then
        .error (.reservedHeaderName lower)
      else .ok (some lower)

def resolveAllowedGroups (value : Option String) : Except ConfigError (Option (List String)) :=
  match nonempty value with
  | some raw =>
    if (csv (some raw)).isEmpty then .error (.invalidAllowedGroups raw)
    else .ok (some (csv (some raw)))
  | none => .ok none

/-- The configured anonymous identity. `systemAnonymousAllowed` is the hatch
of debug builds; a release build has it closed. -/
def resolveAnonymous (systemAnonymousAllowed : Bool) (args : AuthArgs) :
    Except ConfigError (Option AnonymousIdentity) := do
  let user := nonempty args.anonymousUser
  let groups := csv args.anonymousGroups
  unless systemAnonymousAllowed do
    (user.toList ++ groups).forM rejectSystemIdentity
  return user.map fun user => { user, groups }

/-- `proxySecret` is the outcome of reading the shared secret. -/
def resolveMode (proxySecret : Except ConfigError (Option (List UInt8)))
    (args : AuthArgs) (anonymous : Option AnonymousIdentity) (user groups : Option HeaderName) :
    Except ConfigError (AuthMode × Option (List UInt8)) :=
  match user, anonymous with
  | some user, anonymous => do
    let secret ← proxySecret
    return (.headers user groups (if args.anonymousFallback then anonymous else none), secret)
  | none, some anonymous => .ok (.anonymousOnly anonymous, none)
  | none, none => .error .noIdentitySource

def resolveAuth (codec : Codec) (systemAnonymousAllowed : Bool)
    (proxySecret : Except ConfigError (Option (List UInt8))) (args : AuthArgs) :
    Except ConfigError AuthConfig := do
  let allowedGroups ← resolveAllowedGroups args.allowedGroups
  let anonymous ← resolveAnonymous systemAnonymousAllowed args
  let user ← headerName codec (nonempty args.userHeader)
  let groups ← headerName codec (nonempty args.groupsHeader)
  let emailHeader ← headerName codec (nonempty args.emailHeader)
  if args.anonymousFallback && anonymous.isNone then .error .anonymousWithoutUser
  let (mode, secret) ← resolveMode proxySecret args anonymous user groups
  return {
    mode
    groupsSeparator := if args.groupsSeparator.isEmpty then "," else args.groupsSeparator
    groupsFormat := args.groupsFormat
    emailHeader
    extraKeys := csv args.impersonateExtraKeys
    allowedGroups
    proxySecret := secret }

end Kopiur.Ui
