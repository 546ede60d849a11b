import Kopiur.Api.Resources

/-!
# Snapshot identities

The text form of an identity, and whose cluster a hostname belongs to.
-/

namespace Kopiur

def identityString (id : SnapshotIdentity) : String :=
  match id.sourcePath with
  | some p => id.username ++ "@" ++ id.hostname ++ ":" ++ p
  | none => id.username ++ "@" ++ id.hostname

inductive HostClass
  | bare (ns : String)
  | ownCluster (ns : String)
  | foreignCluster (suffix : String)
deriving DecidableEq

def splitOnceDot (s : String) : Option (String × String) :=
  match s.toList.span (· ≠ '.') with
  | (before, _ :: after) => some (String.ofList before, String.ofList after)
  | (_, []) => none

def classifyHostname (hostname : String) (myCluster : Option String) : HostClass :=
  match myCluster.filter fun c => !c.isEmpty with
  | none => .bare hostname
  | some cluster =>
    match splitOnceDot hostname with
    | none => .bare hostname
    | some (ns, suffix) =>
      if ns.isEmpty || suffix.isEmpty then .bare hostname
      else if suffix = cluster then .ownCluster ns
      else .foreignCluster suffix

end Kopiur
