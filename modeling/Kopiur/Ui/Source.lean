import Kopiur.Lib.Results
import Kopiur.Ui.SarCache

/-!
# Where reads come from

A read is served from the shared stores, behind the authorization reviews, or
by the API server on a request that impersonates the caller.
-/

namespace Kopiur.Ui

open Kopiur.Lib

/-! ## Errors -/

structure ApiStatus where
  code : Nat
  message : String
deriving DecidableEq

inductive KubeError
  | api (status : ApiStatus)
  | other (text : String)
deriving DecidableEq

inductive OpsError
  | admissionDenied (message : String)
  | forbidden (verb resource scope : String) (source : KubeError)
  | kindNotInstalled (kind : String) (source : KubeError)
  | notFound (kind plural name scope scopeFlag : String)
  | api (verb resource scope : String) (source : KubeError)
deriving DecidableEq

def OpsError.isForbidden : OpsError → Bool
  | .forbidden .. => true
  | _ => false

def containsText (s needle : String) : Bool :=
  s.toList.tails.any fun rest => needle.toList.isPrefixOf rest

def kindNotFoundNeedle : String := "could not find the requested resource"

def scopeSuffix (ns : Option String) : String :=
  match ns with
  | some ns => " in namespace " ++ ns
  | none => ""

def classifyKube (verb kind resource : String) (ns name : Option String) (source : KubeError) :
    OpsError :=
  let scope := scopeSuffix ns
  match source with
  | .api status =>
    if containsText status.message "denied the request" then .admissionDenied status.message
    else if status.code = 403 then .forbidden verb resource scope source
    else if status.code = 404 && containsText status.message kindNotFoundNeedle then
      .kindNotInstalled kind source
    else if status.code = 404 then
      match name with
      | some n => .notFound kind resource n scope ((ns.map fun ns => " -n " ++ ns).getD "")
      | none => .api verb resource scope source
    else .api verb resource scope source
  | .other _ => .api verb resource scope source

/-! ## What is read -/

/-- A kind, and what a read uses of its objects. -/
structure KopiurKind (α : Type) where
  kind : String
  plural : String
  namespaced : Bool
  optional : Bool
  ns : α → Option String
  name : α → String

inductive Visibility
  | all
  | namespaces (allowed : List String)
deriving DecidableEq

structure ApiServer (α : Type) where
  list : SarKey → Except KubeError (List α)
  /-- `Api::get_opt`: an object that is not there is no error. -/
  get : SarKey → Except KubeError (Option α)

abbrev Reviewer := SarKey → Except OpsError Bool

def visibleNamespaces (allowed : Reviewer) (id : Identity) (resource : String)
    (candidates : List String) : Except OpsError Visibility := do
  if ← allowed (.new id "list" resource none none) then return .all
  let visible ← candidates.filterM fun ns => allowed (.new id "list" resource (some ns) none)
  return .namespaces visible

section kind

variable {α : Type} (kind : KopiurKind α)

def filterVisible (items : List α) : Visibility → List α
  | .all => items
  | .namespaces allowed => items.filter fun o => (kind.ns o).any (· ∈ allowed)

def deniedNamespace (ns : Option String) (visibility : Visibility) : Option String :=
  match ns, visibility with
  | some ns, .namespaces [] => some ns
  | _, _ => none

def effectiveNamespace (ns : Option String) : Option String :=
  if kind.namespaced then ns else none

/-- The 403 of the cache, in the shape of the API server's. -/
def forbidden (verb : String) (ns name : Option String) : OpsError :=
  let subject :=
    match name with
    | some n => kind.plural ++ " " ++ debugStr n
    | none => kind.plural
  .forbidden verb kind.plural (scopeSuffix ns) <|
    .api ⟨403, subject ++ "." ++ kopiurGroup ++ " is forbidden: User cannot " ++ verb ++
      " resource \"" ++ kind.plural ++ "\" in API group \"" ++ kopiurGroup ++ "\"" ++
      scopeSuffix ns⟩

def kindAbsentAndOptional (err : KubeError) : Bool :=
  if !kind.optional then false
  else
    match err with
    | .api status => status.code = 404 && containsText status.message kindNotFoundNeedle
    | .other _ => false

inductive Source (α : Type)
  | cache (store : List α) (sar : Reviewer)
  | impersonated

def Source.list (source : Source α) (id : Identity) (client : ApiServer α) (ns : Option String) :
    Except OpsError (List α) :=
  let ns := effectiveNamespace kind ns
  match source with
  | .cache store sar => do
    let items :=
      match ns with
      | some ns => store.filter fun o => kind.ns o = some ns
      | none => store
    let candidates :=
      match ns with
      | some ns => [ns]
      | none => canonical (items.filterMap kind.ns)
    let visibility ← visibleNamespaces sar id kind.plural candidates
    match deniedNamespace ns visibility with
    | some ns => .error (forbidden kind "list" (some ns) none)
    | none => .ok (filterVisible kind items visibility)
  | .impersonated =>
    match client.list (.new id "list" kind.plural ns none) with
    | .ok items => .ok items
    | .error e =>
      if kindAbsentAndOptional kind e then .ok []
      else .error (classifyKube "list" kind.kind kind.plural ns none e)

def Source.get (source : Source α) (id : Identity) (client : ApiServer α) (ns : Option String)
    (name : String) : Except OpsError (Option α) :=
  let ns := effectiveNamespace kind ns
  match source with
  | .cache store sar => do
    if ← sar (.new id "get" kind.plural ns (some name)) then
      return store.find? fun o => kind.ns o = ns ∧ kind.name o = name
    else .error (forbidden kind "get" ns (some name))
  | .impersonated =>
    match client.get (.new id "get" kind.plural ns (some name)) with
    | .ok found => .ok found
    | .error e => .error (classifyKube "get" kind.kind kind.plural ns (some name) e)

end kind

end Kopiur.Ui
