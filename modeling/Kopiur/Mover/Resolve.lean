import Kopiur.Api.Resources
import Kopiur.Kopia.Listing

/-!
# Finding a snapshot whose manifest id changed

A pin rewrites a manifest under a new id. Source path, identity and start time
survive the rewrite, so a stale id is resolved by matching on those, and only
when exactly one entry matches.
-/

namespace Kopiur

/-- How a stale snapshot id is found again. -/
structure SnapshotAnchor where
  sourcePath : String
  startTime : Option String
  username : Option String
  hostname : Option String
deriving DecidableEq

def SnapshotAnchor.startInstant (rfc : Rfc3339) (anchor : SnapshotAnchor) : Option DateTime :=
  anchor.startTime.bind rfc.parse

def SnapshotAnchor.identityFilter (anchor : SnapshotAnchor) : Option (String × String) :=
  anchor.username.bind fun u => anchor.hostname.map fun h => (u, h)

def matchesSource (entry : SnapshotListEntry) (sourcePath : String)
    (identity : Option (String × String)) : Bool :=
  entry.source.path == sourcePath &&
    match identity with
    | some (username, hostname) => entry.source.userName == username && entry.source.host == hostname
    | none => true

def unique : List SnapshotListEntry → Option SnapshotListEntry
  | [e] => some e
  | _ => none

def matchCurrentManifest (entries : List SnapshotListEntry) (sourcePath : String)
    (startTime : Option DateTime) (identity : Option (String × String)) :
    Option SnapshotListEntry :=
  if sourcePath.isEmpty then none
  else
    let candidates := entries.filter fun e => matchesSource e sourcePath identity
    match startTime with
    | some anchor => unique (candidates.filter fun e => e.startTime == anchor)
    | none => unique candidates

theorem unique_eq_some {l : List SnapshotListEntry} {e : SnapshotListEntry} :
    unique l = some e ↔ l = [e] := by
  cases l with
  | nil => simp [unique]
  | cons x rest => cases rest <;> simp [unique]

/-- An entry the anchor matches: without a readable start time, path and
identity decide alone. -/
def SnapshotAnchor.fits (rfc : Rfc3339) (anchor : SnapshotAnchor) (e : SnapshotListEntry) : Bool :=
  matchesSource e anchor.sourcePath anchor.identityFilter &&
    match anchor.startInstant rfc with
    | some t => e.startTime == t
    | none => true

theorem matchCurrentManifest_eq (rfc : Rfc3339) (anchor : SnapshotAnchor)
    (entries : List SnapshotListEntry) :
    matchCurrentManifest entries anchor.sourcePath (anchor.startInstant rfc) anchor.identityFilter =
      if anchor.sourcePath.isEmpty then none else unique (entries.filter (anchor.fits rfc)) := by
  simp only [matchCurrentManifest]
  split
  · rfl
  · cases h : anchor.startInstant rfc with
    | none =>
      have hfits : anchor.fits rfc = fun e =>
          matchesSource e anchor.sourcePath anchor.identityFilter := by
        funext e
        simp [SnapshotAnchor.fits, h]
      rw [hfits]
    | some t =>
      have hfits : anchor.fits rfc = fun e =>
          (e.startTime == t) && matchesSource e anchor.sourcePath anchor.identityFilter := by
        funext e
        simp [SnapshotAnchor.fits, h, Bool.and_comm]
      simp only [hfits, List.filter_filter]

theorem SnapshotAnchor.fits_path {rfc : Rfc3339} {anchor : SnapshotAnchor} {e : SnapshotListEntry}
    (h : anchor.fits rfc e = true) : e.source.path = anchor.sourcePath := by
  simp only [SnapshotAnchor.fits, matchesSource, Bool.and_eq_true] at h
  exact eq_of_beq h.1.1

end Kopiur
