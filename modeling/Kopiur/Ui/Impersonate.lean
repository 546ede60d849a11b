import Kopiur.Lib.StampedCache
import Kopiur.Ui.Identity

/-!
# Impersonation

The headers that assert an identity to the API server, and the bounded cache
of clients that send them.
-/

namespace Kopiur.Ui

open Kopiur.Lib

def impersonatePrefix : String := "impersonate-"

def impersonates (name : HeaderName) : Bool := impersonatePrefix.toList.isPrefixOf name.toList

def HeaderMap.impersonation (headers : HeaderMap) : HeaderMap :=
  headers.filter fun e => impersonates e.1

/-! ## The layer -/

inductive IdentityHeaderKind
  | user | group | extra
deriving DecidableEq

structure InvalidIdentityHeader where
  what : IdentityHeaderKind
  value : String
deriving DecidableEq

section layer

variable (codec : Codec)

def headerValue (value : String) (what : IdentityHeaderKind) :
    Except InvalidIdentityHeader HeaderValue :=
  match codec.fromStr value with
  | some v => .ok v
  | none => .error ⟨what, value⟩

def headersFor (name : HeaderName) (what : IdentityHeaderKind) (values : List String) :
    Except InvalidIdentityHeader HeaderMap :=
  values.mapM fun value => do return (name, ← headerValue codec value what)

def extraHeaders (identity : Identity) (key : String) : Except InvalidIdentityHeader HeaderMap :=
  match identity.extra.lookup key with
  | none => .ok []
  | some values =>
    match codec.headerName ("impersonate-extra-" ++ key) with
    | none => .error ⟨.extra, key⟩
    | some name => headersFor codec name .extra values

/-- `ImpersonateLayer::new` -/
def impersonateLayer (identity : Identity) (extraKeys : List String) :
    Except InvalidIdentityHeader HeaderMap := do
  let user ← headerValue codec identity.user .user
  let groups ← headersFor codec "impersonate-group" .group identity.groups
  let extras ← extraKeys.mapM (extraHeaders codec identity)
  return ("impersonate-user", user) :: groups ++ extras.flatten

end layer

def setImpersonation (headers wanted : HeaderMap) : HeaderMap :=
  let inbound := (headers.map (·.1)).filter impersonates
  inbound.foldl HeaderMap.remove headers ++ wanted

/-! ## The base configuration -/

structure AuthInfo where
  impersonate : Option String
  impersonateUid : Option String
  impersonateGroups : Option (List String)
  impersonateUserExtra : Option (List (String × List String))
deriving DecidableEq

/-- The part of a `kube::Config` that can carry impersonation. -/
structure KubeConfig where
  authInfo : AuthInfo
  headers : HeaderMap
deriving DecidableEq

def sanitizeBase (config : KubeConfig) : KubeConfig where
  authInfo :=
    { impersonate := none
      impersonateUid := none
      impersonateGroups := none
      impersonateUserExtra := none }
  headers := config.headers.filter fun e => !impersonates e.1

/-- The configuration gives the inner layers nothing to impersonate with. -/
structure KubeConfig.Silent (config : KubeConfig) : Prop where
  impersonate : config.authInfo.impersonate = none
  impersonateUid : config.authInfo.impersonateUid = none
  impersonateGroups : config.authInfo.impersonateGroups = none
  impersonateUserExtra : config.authInfo.impersonateUserExtra = none
  headers : config.headers.impersonation = []

theorem sanitizeBase_silent (config : KubeConfig) : (sanitizeBase config).Silent where
  impersonate := rfl
  impersonateUid := rfl
  impersonateGroups := rfl
  impersonateUserExtra := rfl
  headers := by
    simp only [sanitizeBase, HeaderMap.impersonation, List.filter_filter]
    rw [List.filter_eq_nil_iff]
    rintro e -
    cases impersonates e.1 <;> simp

/-- What kube's own layers make of the headers of a request. -/
abbrev KubeStack := KubeConfig → HeaderMap → HeaderMap

def KubeStack.Quiet (stack : KubeStack) : Prop :=
  ∀ config headers, config.Silent →
    HeaderMap.impersonation (stack config headers) = headers.impersonation

/-! ## Clients -/

structure Client where
  base : KubeConfig
  layer : HeaderMap
deriving DecidableEq

def Client.send (stack : KubeStack) (client : Client) (headers : HeaderMap) : HeaderMap :=
  stack client.base (setImpersonation headers client.layer)

structure IdentityKey where
  user : String
  groups : List String
  extras : List (String × List String)
deriving DecidableEq

def IdentityKey.new (identity : Identity) : IdentityKey where
  user := identity.user
  groups := canonical identity.groups
  extras := identity.extra.map fun e => (e.1, canonical e.2)

structure CacheLimits where
  size : Nat
  ttl : Nat
deriving DecidableEq

structure ClientCache where
  base : KubeConfig
  limits : CacheLimits
  extraKeys : List String
  entries : StampedCache IdentityKey Client
deriving DecidableEq

inductive ClientBuildError
  | invalidIdentity (e : InvalidIdentityHeader)
  | kube (message : String)
deriving DecidableEq

namespace ClientCache

def new (base : KubeConfig) (limits : CacheLimits) (extraKeys : List String) : ClientCache where
  base := sanitizeBase base
  limits := limits
  extraKeys := extraKeys
  entries := []

/-- `kube` is the error of the client builder, if it refuses. -/
def build (codec : Codec) (c : ClientCache) (identity : Identity) (kube : Option String) :
    Except ClientBuildError Client :=
  match impersonateLayer codec identity c.extraKeys with
  | .error e => .error (.invalidIdentity e)
  | .ok layer =>
    match kube with
    | some message => .error (.kube message)
    | none => .ok ⟨c.base, layer⟩

def clientFor (codec : Codec) (c : ClientCache) (now : Nat) (identity : Identity)
    (kube : Option String) : ClientCache × Except ClientBuildError Client :=
  let key := IdentityKey.new identity
  let entries := c.entries.sweep c.limits.ttl now
  match entries.find key with
  | some entry => ({ c with entries := entries.insert key entry.value now }, .ok entry.value)
  | none =>
    match c.build codec identity kube with
    | .error e => ({ c with entries }, .error e)
    | .ok client =>
      if 0 < c.limits.size then
        ({ c with entries := (entries.makeRoom c.limits.size).insert key client now }, .ok client)
      else ({ c with entries }, .ok client)

def len (c : ClientCache) (now : Nat) : ClientCache × Nat :=
  let entries := c.entries.sweep c.limits.ttl now
  ({ c with entries }, entries.length)

end ClientCache

end Kopiur.Ui
