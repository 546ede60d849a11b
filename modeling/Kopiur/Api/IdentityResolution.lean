import Kopiur.Api.Expand
import Kopiur.Api.Identity
import Kopiur.Lib.Results

/-!
# Resolving the identity of a policy

`username@hostname` comes from the policy's overrides, the repository's
expressions or the names, the path from the source. A run records the path of
its member; the webhook resolves one path for the whole policy.
-/

namespace Kopiur

open Kopiur.Lib (bind_eq_ok)

def identityMaxLen : Nat := 253

/-- A character as an error quotes it. -/
def debugChar (c : Char) : String :=
  if c = '\t' then "'\\t'"
  else if c = '\n' then "'\\n'"
  else if c = '\r' then "'\\r'"
  else if c.toNat < 0x20 || c.toNat = 0x7F then
    "'\\u\x7b" ++ String.ofList (Nat.toDigits 16 c.toNat) ++ "\x7d'"
  else "'" ++ String.singleton c ++ "'"

def isAsciiWhitespace (c : Char) : Bool := [' ', '\t', '\n', '\x0c', '\r'].contains c

def isAsciiControl (c : Char) : Bool := c.toNat < 0x20 || c.toNat == 0x7F

def identityCharProblem (value : String) : Option String :=
  if value.isEmpty then some "must not be empty"
  else if value.utf8ByteSize > identityMaxLen then
    some ("is " ++ toString value.utf8ByteSize ++ " bytes; the maximum is " ++
      toString identityMaxLen)
  else if value.toList.contains '@' then
    some "must not contain '@' (kopia's username/hostname delimiter)"
  else if value.toList.contains ':' then
    some "must not contain ':' (kopia's hostname/path delimiter)"
  else match value.toList.find? isAsciiWhitespace, value.toList.find? isAsciiControl with
    | some c, _ => some ("must not contain whitespace (found " ++ debugChar c ++ ")")
    | none, some c => some ("must not contain control characters (found " ++ debugChar c ++ ")")
    | none, none => none

def validateIdentityComponent (field value : String) : Except ValidationError Unit :=
  match identityCharProblem value with
  | none => .ok ()
  | some reason => .error (.identityComponentInvalid field value reason)

def validateSourcePath (field value : String) : Except ValidationError Unit :=
  let reason :=
    if value.isEmpty then some "must not be empty when set"
    else (value.toList.find? isAsciiControl).map fun c =>
      "must not contain control characters (found " ++ debugChar c ++ ")"
  match reason with
  | none => .ok ()
  | some reason => .error (.identitySourcePathInvalid field value reason)

/-- The overrides of `spec.identity`. -/
structure IdentityOverrides where
  username : Option String := none
  hostname : Option String := none
deriving DecidableEq

/-- The `identityDefaults` of a repository. -/
structure IdentityDefaults where
  usernameExpr : Option String := none
  hostnameExpr : Option String := none
  cluster : Option String := none
deriving DecidableEq

/-- The variables an expression may read. -/
structure IdentityContext where
  ns : String
  policyName : String
  labels : List (String × String)
  annotations : List (String × String)
  cluster : String
deriving DecidableEq

/-- The expression language is not part of the operator: an expression renders
to a string in its context, or fails with a reason. -/
abbrev RenderExpr := String → IdentityContext → Except String String

/-- What an identity is resolved from. -/
structure IdentityPolicy extends SnapshotPolicy where
  repository : Option RepositoryRef := none
  identity : IdentityOverrides := {}
  hooks : Bool := false
deriving DecidableEq

def IdentityPolicy.context (policy : IdentityPolicy) (defaults : Option IdentityDefaults) :
    IdentityContext where
  ns := policy.ns
  policyName := policy.nameAny
  labels := policy.metadata.labels
  annotations := policy.metadata.annotations
  cluster := (defaults.bind (·.cluster)).getD ""

/-- An override wins over the expression, the expression over the default. -/
def resolveComponent (render : RenderExpr) (context : IdentityContext)
    (override expr : Option String) (default : String) : Except ValidationError String :=
  match override, expr with
  | some value, _ => .ok value
  | none, some expr => (render expr context).mapError .identityExprFailed
  | none, none => .ok default

def defaultHostname (ns : String) (defaults : Option IdentityDefaults) : String :=
  match defaults.bind (·.cluster) with
  | some cluster => ns ++ "." ++ cluster
  | none => ns

/-- Username and hostname, before their shape is checked. -/
def resolveNames (render : RenderExpr) (policy : IdentityPolicy)
    (defaults : Option IdentityDefaults) : Except ValidationError (String × String) := do
  let context := policy.context defaults
  let username ← resolveComponent render context policy.identity.username
    (defaults.bind (·.usernameExpr)) policy.nameAny
  let hostname ← resolveComponent render context policy.identity.hostname
    (defaults.bind (·.hostnameExpr)) (defaultHostname policy.ns defaults)
  .ok (username, hostname)

def resolveIdentity (render : RenderExpr) (policy : IdentityPolicy)
    (defaults : Option IdentityDefaults) (sourcePath : Option String) :
    Except ValidationError SnapshotIdentity := do
  let (username, hostname) ← resolveNames render policy defaults
  validateIdentityComponent "resolved username" username
  validateIdentityComponent "resolved hostname" hostname
  match sourcePath with
  | none => .ok { username, hostname, sourcePath }
  | some p =>
    validateSourcePath "resolved sourcePath" p
    .ok { username, hostname, sourcePath }

/-- What a successful resolution went through: the names and their shapes, and
the path it was given. -/
theorem resolveIdentity_eq_ok {render : RenderExpr} {policy : IdentityPolicy}
    {defaults : Option IdentityDefaults} {path : Option String} {id : SnapshotIdentity} :
    resolveIdentity render policy defaults path = .ok id ↔
      (resolveNames render policy defaults = .ok (id.username, id.hostname) ∧
        validateIdentityComponent "resolved username" id.username = .ok () ∧
        validateIdentityComponent "resolved hostname" id.hostname = .ok ()) ∧
      id.sourcePath = path ∧ ∀ p ∈ path, validateSourcePath "resolved sourcePath" p = .ok () := by
  obtain ⟨username, hostname, sourcePath⟩ := id
  simp only [resolveIdentity, bind_eq_ok, Prod.exists]
  constructor
  · rintro ⟨u, h, hnames, ⟨⟩, hu, ⟨⟩, hh, hid⟩
    cases path with
    | none =>
      cases hid
      exact ⟨⟨hnames, hu, hh⟩, rfl, by simp⟩
    | some p =>
      obtain ⟨⟨⟩, hp, hid⟩ := bind_eq_ok.mp hid
      cases hid
      exact ⟨⟨hnames, hu, hh⟩, rfl, by simpa using hp⟩
  · rintro ⟨⟨hnames, hu, hh⟩, rfl, hp⟩
    refine ⟨username, hostname, hnames, (), hu, (), hh, ?_⟩
    cases sourcePath with
    | none => rfl
    | some p => exact bind_eq_ok.mpr ⟨(), hp p rfl, rfl⟩

def repositoryRefs (policy : IdentityPolicy) : List RepositoryRef :=
  policy.repository.toList ++ policy.spec.repositories

/-- The pins of the children a run mints: none for a policy without selector. -/
def runPins (policy : SnapshotPolicy) (matched : Nat → List PvcTargetRef) :
    List (Option SnapshotSourceRef) :=
  match expandSources policy "" matched with
  | .error _ => []
  | .ok none => [none]
  | .ok (some members) => members.map fun m => some m.source

/-- What the child with this pin is recorded under. -/
def resolveIdentityFor (render : RenderExpr) (policy : IdentityPolicy)
    (defaults : Option IdentityDefaults) (pin : Option SnapshotSourceRef) :
    Except ValidationError (String × String × String) := do
  let sourcePath ← identitySourcePath policy.toSnapshotPolicy pin
  let resolved ← resolveIdentity render policy defaults sourcePath
  .ok (resolved.username, resolved.hostname, resolved.sourcePath.getD "/data")

def recordedIdentities (render : RenderExpr) (policy : IdentityPolicy)
    (defaults : Option IdentityDefaults) (matched : Nat → List PvcTargetRef) :
    List (String × String × String) :=
  (runPins policy.toSnapshotPolicy matched).filterMap fun pin =>
    (resolveIdentityFor render policy defaults pin).toOption

end Kopiur
