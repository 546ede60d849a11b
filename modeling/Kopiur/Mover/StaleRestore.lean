import Kopiur.Lib.Lists
import Kopiur.Lib.Runs
import Kopiur.Mover.Resolve

/-!
# Restores of a snapshot whose manifest id changed

Between the resolution of a restore and the restore itself the repository goes on:
snapshots are pinned, which gives them a new manifest id, deleted and created. A
restore that does not find its id looks for the one manifest that fits its anchor.
-/

namespace Kopiur.StaleRestore

open Lib

inductive RestoreSource
  | snapshotRef
  | fromPolicy
  | identity (written : SnapshotIdentity)
deriving DecidableEq

/-- `snap` is the referenced Snapshot where it could be read, `resolved` the identity in
`status.resolved`. -/
def restoreSourceAnchor (source : RestoreSource) (snap : Option Snapshot)
    (resolved : Option SnapshotIdentity) : SnapshotAnchor :=
  match source, snap with
  | .snapshotRef, some snap =>
    let identity := (snap.status.bind SnapshotStatus.snapshot).map SnapshotInfo.identity
    { sourcePath := (identity.bind SnapshotIdentity.sourcePath).getD ""
      startTime := (snap.status.bind SnapshotStatus.timing).bind SnapshotTiming.startTime
      username := identity.map SnapshotIdentity.username
      hostname := identity.map SnapshotIdentity.hostname }
  | _, _ =>
    let written := match source with
      | .identity written => some written
      | .snapshotRef | .fromPolicy => none
    { sourcePath := ((resolved.bind SnapshotIdentity.sourcePath).or
        (written.bind SnapshotIdentity.sourcePath)).getD ""
      startTime := none
      username := (resolved.or written).map SnapshotIdentity.username
      hostname := (resolved.or written).map SnapshotIdentity.hostname }

/-- A snapshot under the manifest id it has now. The key tells which snapshot it is, and
with that which root object it has. -/
structure Held where
  key : Nat
  entry : SnapshotListEntry
deriving DecidableEq

namespace Held

def id (h : Held) : String := h.entry.id

def rename (id : String) (h : Held) : Held := { h with entry := { h.entry with id } }

end Held

/-- The snapshots, with the manifest ids and keys that ever were. No id is given twice. -/
structure Repo where
  held : List Held
  usedIds : List String
  usedKeys : List Nat
  idsUsed : ∀ h ∈ held, h.id ∈ usedIds
  keysUsed : ∀ h ∈ held, h.key ∈ usedKeys
  ids : held.Pairwise fun a b => a.id ≠ b.id
  keys : held.Pairwise fun a b => a.key ≠ b.key

inductive RepoEvent
  -- a pin or an unpin
  | pin (key : Nat) (id : String)
  | delete (key : Nat)
  | create (h : Held)

namespace Repo

def rename (r : Repo) (key : Nat) (id : String) (fresh : id ∉ r.usedIds) : Repo where
  held := r.held.map fun h => if h.key = key then h.rename id else h
  usedIds := id :: r.usedIds
  usedKeys := r.usedKeys
  idsUsed h hh := by
    obtain ⟨h, hmem, rfl⟩ := List.mem_map.mp hh
    split
    · exact List.mem_cons_self
    · exact List.mem_cons_of_mem _ (r.idsUsed h hmem)
  keysUsed h hh := by
    obtain ⟨h, hmem, rfl⟩ := List.mem_map.mp hh
    split
    · exact r.keysUsed h hmem
    · exact r.keysUsed h hmem
  ids := by
    refine List.pairwise_map.mpr ((r.ids.and r.keys).imp_of_mem fun {a b} ha hb hne => ?_)
    have hid : ∀ h ∈ r.held, h.id ≠ id := fun h hh heq => fresh (heq ▸ r.idsUsed h hh)
    split
    · next hka =>
      split
      · next hkb => exact absurd (hka.trans hkb.symm) hne.2
      · exact (hid b hb).symm
    · split
      · exact hid a ha
      · exact hne.1
  keys := by
    refine List.pairwise_map.mpr (r.keys.imp fun {a b} hne => ?_)
    split <;> split <;> exact hne

def delete (r : Repo) (key : Nat) : Repo where
  held := r.held.filter fun h => decide (h.key ≠ key)
  usedIds := r.usedIds
  usedKeys := r.usedKeys
  idsUsed h hh := r.idsUsed h (List.mem_filter.mp hh).1
  keysUsed h hh := r.keysUsed h (List.mem_filter.mp hh).1
  ids := r.ids.filter _
  keys := r.keys.filter _

def create (r : Repo) (new : Held) (freshId : new.id ∉ r.usedIds)
    (freshKey : new.key ∉ r.usedKeys) : Repo where
  held := new :: r.held
  usedIds := new.id :: r.usedIds
  usedKeys := new.key :: r.usedKeys
  idsUsed h hh := (List.mem_cons.mp hh).elim (fun heq => heq ▸ List.mem_cons_self)
    fun hh => List.mem_cons_of_mem _ (r.idsUsed h hh)
  keysUsed h hh := (List.mem_cons.mp hh).elim (fun heq => heq ▸ List.mem_cons_self)
    fun hh => List.mem_cons_of_mem _ (r.keysUsed h hh)
  ids := List.pairwise_cons.mpr
    ⟨fun h hh heq => freshId (heq ▸ r.idsUsed h hh), r.ids⟩
  keys := List.pairwise_cons.mpr
    ⟨fun h hh heq => freshKey (heq ▸ r.keysUsed h hh), r.keys⟩

def step (r : Repo) : RepoEvent → Option Repo
  | .pin key id => if fresh : id ∉ r.usedIds then some (r.rename key id fresh) else none
  | .delete key => some (r.delete key)
  | .create h =>
    if fresh : h.id ∉ r.usedIds ∧ h.key ∉ r.usedKeys then some (r.create h fresh.1 fresh.2)
    else none

def Later (r r' : Repo) : Prop := Reaches step (fun _ _ => True) r r'

def listed (r : Repo) : List Held := r.held.filter fun h => h.entry.complete

/-- `snapshot list` of one source. -/
def listedFor (r : Repo) (source : SnapshotSource) : List Held :=
  r.listed.filter fun h => decide (h.entry.source = source)

end Repo

-- The restores

/-- What a restore meets: the repository at its first call, at the listing of the heal
and at the second call, and which of the calls fail whatever they find. -/
structure Moments where
  first : Repo
  firstFails : Option KopiaErrorClass := none
  listing : Repo
  listingFails : Bool := false
  second : Repo
  secondFails : Option KopiaErrorClass := none

structure Moments.After (m : Moments) (start : Repo) : Prop where
  first : start.Later m.first
  listing : m.first.Later m.listing
  second : m.listing.Later m.second

def Moments.quiet (r : Repo) : Moments := { first := r, listing := r, second := r }

/-- `kopia snapshot restore <id>`; the snapshot is what is restored. -/
def snapshotRestore (r : Repo) (fails : Option KopiaErrorClass) (id : String) :
    Except KopiaErrorClass Held :=
  match fails with
  | some c => .error c
  | none =>
    match r.held.find? fun h => h.id == id with
    | some h => .ok h
    | none => .error .notFound

section
variable (rfc : Rfc3339)

def resolveLiveId (m : Moments) (anchor : SnapshotAnchor) : Option String :=
  if anchor.sourcePath.isEmpty || m.listingFails then none
  else
    (matchCurrentManifest (m.listing.listed.map Held.entry) anchor.sourcePath
      (anchor.startInstant rfc) anchor.identityFilter).map SnapshotListEntry.id

def restoreWithHeal (m : Moments) (anchor : SnapshotAnchor) (snapshotId : String) :
    Except KopiaErrorClass (String × Held) :=
  match snapshotRestore m.first m.firstFails snapshotId with
  | .ok h => .ok (snapshotId, h)
  | .error .notFound =>
    match resolveLiveId rfc m anchor with
    | some live =>
      if live ≠ snapshotId then (snapshotRestore m.second m.secondFails live).map (live, ·)
      else .error .notFound
    | none => .error .notFound
  | .error c => .error c

def rootObjectOf (listed : List Held) (snapshotId : String) : Option Held :=
  (listed.find? fun h => h.id == snapshotId).filter fun h => h.entry.rootEntry.isSome

def anchorSourceFilter (anchor : SnapshotAnchor) : Option SnapshotSource :=
  if anchor.sourcePath.isEmpty then none
  else anchor.identityFilter.map fun (userName, host) => ⟨host, userName, anchor.sourcePath⟩

inductive StreamRootError
  | kopia (c : KopiaErrorClass)
  | streamExecFailed (detail : String)
deriving DecidableEq

def listedForAnchor (r : Repo) (anchor : SnapshotAnchor) : List Held :=
  match anchorSourceFilter anchor with
  | some source => r.listedFor source
  | none => r.listed

def streamNotFound (snapshotId fileName : String) : StreamRootError :=
  .streamExecFailed ("snapshot `" ++ snapshotId ++ "` was not found in the repository (deleted " ++
    "or expired), so `" ++ fileName ++ "` could not be read; nothing was sent to the command. " ++
    "Fix: restore from a snapshot that still exists")

def streamRootObject (m : Moments) (anchor : SnapshotAnchor) (snapshotId fileName : String) :
    Except StreamRootError (String × Held) :=
  match m.firstFails with
  | some c => .error (.kopia c)
  | none =>
    match rootObjectOf (listedForAnchor m.first anchor) snapshotId with
    | some h => .ok (snapshotId, h)
    | none =>
      match resolveLiveId rfc m anchor with
      | some live =>
        if live ≠ snapshotId then
          match rootObjectOf (listedForAnchor m.first anchor) live with
          | some h => .ok (live, h)
          | none => .error (streamNotFound snapshotId fileName)
        else .error (streamNotFound snapshotId fileName)
      | none => .error (streamNotFound snapshotId fileName)

end

theorem Repo.eq_of_id {r : Repo} {a b : Held} (ha : a ∈ r.held) (hb : b ∈ r.held)
    (hid : a.id = b.id) : a = b := by
  by_contra hne
  rcases rel_of_pairwise r.ids ha hb hne with h | h
  · exact h hid
  · exact h hid.symm

theorem Repo.find?_of_id {r : Repo} {part : List Held} (hsub : ∀ x ∈ part, x ∈ r.held) {h : Held}
    (hh : h ∈ part) : (part.find? fun x => x.id == h.id) = some h := by
  cases hfind : part.find? fun x => x.id == h.id with
  | none => exact absurd (List.find?_eq_none.mp hfind h hh) (by simp)
  | some y =>
    rw [Repo.eq_of_id (hsub y (List.mem_of_find?_eq_some hfind)) (hsub h hh)
      (by simpa using List.find?_some hfind)]

theorem snapshotRestore_held {r : Repo} {h : Held} (hh : h ∈ r.held) :
    snapshotRestore r none h.id = .ok h := by
  rw [snapshotRestore, Repo.find?_of_id (fun _ hx => hx) hh]

theorem Repo.step_ids {r r' : Repo} {event : RepoEvent} (h : r.step event = some r') :
    r.usedIds ⊆ r'.usedIds ∧ ∀ x ∈ r'.held, x.id ∈ r.usedIds → x ∈ r.held := by
  cases event with
  | pin key id =>
    obtain ⟨fresh, hr'⟩ := Option.dite_none_right_eq_some.mp h
    cases hr'
    refine ⟨List.subset_cons_self _ _, fun x hx hused => ?_⟩
    obtain ⟨y, hy, rfl⟩ := List.mem_map.mp hx
    split at hused
    · exact absurd hused fresh
    · next hkey => rwa [if_neg hkey]
  | delete key =>
    cases h
    exact ⟨fun _ hid => hid, fun x hx _ => (List.mem_filter.mp hx).1⟩
  | create new =>
    obtain ⟨fresh, hr'⟩ := Option.dite_none_right_eq_some.mp h
    cases hr'
    refine ⟨List.subset_cons_self _ _, fun x hx hused => ?_⟩
    rcases List.mem_cons.mp hx with rfl | hx
    · exact absurd hused fresh.1
    · exact hx

theorem Repo.Later.ids {r r' : Repo} (h : r.Later r') :
    r.usedIds ⊆ r'.usedIds ∧ ∀ x ∈ r'.held, x.id ∈ r.usedIds → x ∈ r.held := by
  induction h with
  | refl => exact ⟨fun _ hid => hid, fun _ hx _ => hx⟩
  | tail _ _ last ih =>
    obtain ⟨hused, hheld⟩ := step_ids last
    exact ⟨fun _ hid => hused (ih.1 hid), fun x hx hid => ih.2 x (hheld x hx (ih.1 hid)) hid⟩

theorem Repo.Later.eq_of_id {r r' : Repo} (h : r.Later r') {x y : Held} (hx : x ∈ r.held)
    (hy : y ∈ r'.held) (hid : y.id = x.id) : y = x :=
  Repo.eq_of_id (h.ids.2 y hy (hid ▸ r.idsUsed x hx)) hx hid

section Heal

variable {rfc : Rfc3339} {anchor : SnapshotAnchor}

def othersFitting (rfc : Rfc3339) (anchor : SnapshotAnchor) (key : Nat) (r : Repo) : List Held :=
  r.listed.filter fun h => anchor.fits rfc h.entry && decide (h.key ≠ key)

/-- The snapshot itself is listed and fits the anchor, or the others that fit are not
exactly one. -/
def HealsRight (rfc : Rfc3339) (anchor : SnapshotAnchor) (key : Nat) (r : Repo) : Prop :=
  anchor.sourcePath.isEmpty = true ∨
    (∃ h ∈ r.listed, h.key = key ∧ anchor.fits rfc h.entry = true) ∨
    (othersFitting rfc anchor key r).length ≠ 1

theorem resolveLiveId_eq_some {m : Moments} {live : String} :
    resolveLiveId rfc m anchor = some live ↔
      anchor.sourcePath.isEmpty = false ∧ m.listingFails = false ∧
        ∃ h, m.listing.listed.filter (fun h => anchor.fits rfc h.entry) = [h] ∧ h.id = live := by
  rw [resolveLiveId, matchCurrentManifest_eq]
  cases hpath : anchor.sourcePath.isEmpty with
  | true => simp
  | false =>
    cases hfails : m.listingFails with
    | true => simp
    | false =>
      simp only [Bool.or_self, Bool.false_eq_true, if_false, true_and, List.filter_map,
        Option.map_eq_some_iff, unique_eq_some, List.map_eq_singleton_iff]
      constructor
      · rintro ⟨_, ⟨h, hfits, rfl⟩, rfl⟩
        exact ⟨h, hfits, rfl⟩
      · rintro ⟨h, hfits, rfl⟩
        exact ⟨_, ⟨h, hfits, rfl⟩, rfl⟩

theorem HealsRight.key_eq {key : Nat} {r : Repo} (hright : HealsRight rfc anchor key r)
    (hpath : anchor.sourcePath.isEmpty = false) {h : Held}
    (hfits : r.listed.filter (fun h => anchor.fits rfc h.entry) = [h]) : h.key = key := by
  by_contra hne
  rcases hright with hempty | ⟨x, hx, hkey, hxfits⟩ | hothers
  · rw [hpath] at hempty
    cases hempty
  · have hmem : x ∈ r.listed.filter fun h => anchor.fits rfc h.entry :=
      List.mem_filter.mpr ⟨hx, hxfits⟩
    rw [hfits, List.mem_singleton] at hmem
    exact hne (hmem ▸ hkey)
  · refine hothers ?_
    have hsame : othersFitting rfc anchor key r =
        (r.listed.filter fun h => anchor.fits rfc h.entry).filter
          fun h => decide (h.key ≠ key) := by
      rw [othersFitting, List.filter_filter]
      exact List.filter_congr fun x _ => Bool.and_comm _ _
    rw [hsame, hfits]
    simp [hne]

theorem fits_other_of_not_right {key : Nat} {r : Repo} (h : ¬ HealsRight rfc anchor key r) :
    anchor.sourcePath.isEmpty = false ∧
      ∃ x, r.listed.filter (fun h => anchor.fits rfc h.entry) = [x] ∧ x.key ≠ key := by
  rw [HealsRight, not_or, not_or, not_not] at h
  obtain ⟨hpath, hnone, hone⟩ := h
  obtain ⟨x, hx⟩ := List.length_eq_one_iff.mp hone
  refine ⟨Bool.not_eq_true _ ▸ hpath, x, ?_, ?_⟩
  · rw [← hx, othersFitting]
    refine List.filter_congr fun y hy => ?_
    cases hfits : anchor.fits rfc y.entry with
    | false => rfl
    | true =>
      have hne : y.key ≠ key := fun hkey => hnone ⟨y, hy, hkey, hfits⟩
      simp [hne]
  · have hmem : x ∈ othersFitting rfc anchor key r := by
      rw [hx]
      exact List.mem_singleton_self x
    have hboth := (List.mem_filter.mp hmem).2
    simp only [Bool.and_eq_true, decide_eq_true_eq] at hboth
    exact hboth.2

theorem mem_of_snapshotRestore {r : Repo} {fails : Option KopiaErrorClass} {id : String} {h : Held}
    (hok : snapshotRestore r fails id = .ok h) : h ∈ r.held ∧ h.id = id := by
  cases fails with
  | some c => cases hok
  | none =>
    rw [snapshotRestore] at hok
    split at hok
    · next hfound =>
      cases hok
      exact ⟨List.mem_of_find?_eq_some hfound, by simpa using List.find?_some hfound⟩
    · cases hok

theorem mem_of_rootObjectOf {l : List Held} {id : String} {h : Held}
    (hroot : rootObjectOf l id = some h) : h ∈ l ∧ h.id = id := by
  obtain ⟨hfound, -⟩ := Option.filter_eq_some_iff.mp hroot
  exact ⟨List.mem_of_find?_eq_some hfound, by simpa using List.find?_some hfound⟩

theorem mem_held_of_fits {r : Repo} {x : Held}
    (hfits : r.listed.filter (fun h => anchor.fits rfc h.entry) = [x]) : x ∈ r.held := by
  have hmem : x ∈ r.listed.filter fun h => anchor.fits rfc h.entry := by
    rw [hfits]
    exact List.mem_singleton_self x
  exact (List.mem_filter.mp (List.mem_filter.mp hmem).1).1

theorem mem_held_of_listedForAnchor {r : Repo} {x : Held} (hx : x ∈ listedForAnchor r anchor) :
    x ∈ r.held := by
  rw [listedForAnchor] at hx
  split at hx
  · exact (List.mem_filter.mp (List.mem_filter.mp hx).1).1
  · exact (List.mem_filter.mp hx).1

variable {m : Moments} {start : Repo} {resolved : Held}

theorem restoreWithHeal_key (hm : m.After start) (hresolved : resolved ∈ start.held)
    (hright : HealsRight rfc anchor resolved.key m.listing) {id : String} {h : Held}
    (hok : restoreWithHeal rfc m anchor resolved.id = .ok (id, h)) : h.key = resolved.key := by
  rw [restoreWithHeal] at hok
  split at hok
  · next found hfirst =>
    cases hok
    obtain ⟨hmem, hid⟩ := mem_of_snapshotRestore hfirst
    rw [hm.first.eq_of_id hresolved hmem hid]
  · split at hok
    · next live hlive =>
      obtain ⟨hpath, -, x, hfits, hx⟩ := resolveLiveId_eq_some.mp hlive
      split at hok
      · cases hsecond : snapshotRestore m.second m.secondFails live with
        | error c =>
          rw [hsecond] at hok
          cases hok
        | ok found =>
          rw [hsecond] at hok
          cases hok
          obtain ⟨hmem, hid⟩ := mem_of_snapshotRestore hsecond
          have hxmem := mem_held_of_fits hfits
          rw [hm.second.eq_of_id hxmem hmem (hid.trans hx.symm)]
          exact hright.key_eq hpath hfits
      · cases hok
    · cases hok
  · cases hok

theorem streamRootObject_key (hm : m.After start) (hresolved : resolved ∈ start.held)
    (hright : HealsRight rfc anchor resolved.key m.listing) {id fileName : String} {h : Held}
    (hok : streamRootObject rfc m anchor resolved.id fileName = .ok (id, h)) :
    h.key = resolved.key := by
  rw [streamRootObject] at hok
  split at hok
  · cases hok
  · split at hok
    · next found hroot =>
      cases hok
      obtain ⟨hmem, hid⟩ := mem_of_rootObjectOf hroot
      rw [hm.first.eq_of_id hresolved (mem_held_of_listedForAnchor hmem) hid]
    · split at hok
      · next live hlive =>
        obtain ⟨hpath, -, x, hfits, hx⟩ := resolveLiveId_eq_some.mp hlive
        split at hok
        · split at hok
          · next found hroot =>
            cases hok
            obtain ⟨hmem, hid⟩ := mem_of_rootObjectOf hroot
            rw [← hm.listing.eq_of_id (mem_held_of_listedForAnchor hmem) (mem_held_of_fits hfits)
              (hx.trans hid.symm)]
            exact hright.key_eq hpath hfits
          · cases hok
        · cases hok
      · cases hok

theorem after_quiet {r : Repo} (h : start.Later r) : (Moments.quiet r).After start :=
  ⟨h, .refl, .refl⟩

theorem restoreWithHeal_quiet_other {r : Repo} {id : String} (hgone : ∀ h ∈ r.held, h.id ≠ id)
    {key : Nat} (hwrong : ¬ HealsRight rfc anchor key r) :
    ∃ x, restoreWithHeal rfc (.quiet r) anchor id = .ok (x.id, x) ∧ x.key ≠ key := by
  obtain ⟨hpath, x, hfits, hne⟩ := fits_other_of_not_right hwrong
  have hmem := mem_held_of_fits hfits
  have hfirst : snapshotRestore (Moments.quiet r).first (Moments.quiet r).firstFails id =
      .error .notFound := by
    have hnone : (r.held.find? fun h => h.id == id) = none :=
      List.find?_eq_none.mpr fun h hh => by simpa using hgone h hh
    simp only [snapshotRestore, Moments.quiet, hnone]
  have hlive : resolveLiveId rfc (.quiet r) anchor = some x.id :=
    resolveLiveId_eq_some.mpr ⟨hpath, rfl, x, hfits, rfl⟩
  have hsecond : snapshotRestore (Moments.quiet r).second (Moments.quiet r).secondFails x.id =
      .ok x := snapshotRestore_held hmem
  refine ⟨x, ?_, hne⟩
  simp only [restoreWithHeal, hfirst, hlive, if_pos (hgone x hmem), hsecond]
  rfl

theorem mem_listedForAnchor {r : Repo} {x : Held} (hx : x ∈ r.listed)
    (hfits : anchor.fits rfc x.entry = true) : x ∈ listedForAnchor r anchor := by
  rw [listedForAnchor]
  split
  · next source hsource =>
    refine List.mem_filter.mpr ⟨hx, decide_eq_true ?_⟩
    have hpath := SnapshotAnchor.fits_path hfits
    rw [anchorSourceFilter] at hsource
    split at hsource
    · cases hsource
    · obtain ⟨⟨userName, host⟩, hidentity, rfl⟩ := Option.map_eq_some_iff.mp hsource
      simp only [SnapshotAnchor.fits, matchesSource, hidentity, Bool.and_eq_true,
        beq_iff_eq] at hfits
      obtain ⟨⟨-, huser, hhost⟩, -⟩ := hfits
      rw [← huser, ← hhost, ← hpath]
  · exact hx

theorem streamRootObject_quiet_other {r : Repo} {id : String} (fileName : String)
    (hgone : rootObjectOf (listedForAnchor r anchor) id = none) {key : Nat}
    (hwrong : ¬ HealsRight rfc anchor key r)
    (hroots : ∃ h ∈ r.listed, anchor.fits rfc h.entry = true ∧ h.entry.rootEntry.isSome = true) :
    ∃ x, streamRootObject rfc (.quiet r) anchor id fileName = .ok (x.id, x) ∧ x.key ≠ key := by
  obtain ⟨hpath, x, hfits, hne⟩ := fits_other_of_not_right hwrong
  obtain ⟨y, hy, hyfits, hroot⟩ := hroots
  obtain rfl : y = x := by
    have hmem : y ∈ r.listed.filter fun h => anchor.fits rfc h.entry :=
      List.mem_filter.mpr ⟨hy, hyfits⟩
    rwa [hfits, List.mem_singleton] at hmem
  have hmem := mem_listedForAnchor hy hyfits
  have hread : rootObjectOf (listedForAnchor r anchor) y.id = some y := by
    rw [rootObjectOf, Repo.find?_of_id (fun _ hx => mem_held_of_listedForAnchor hx) hmem,
      Option.filter_some, if_pos hroot]
  have hother : y.id ≠ id := by
    rintro rfl
    rw [hread] at hgone
    cases hgone
  have hlive : resolveLiveId rfc (.quiet r) anchor = some y.id :=
    resolveLiveId_eq_some.mpr ⟨hpath, rfl, y, hfits, rfl⟩
  refine ⟨y, ?_, hne⟩
  have hfirst : (Moments.quiet r).first = r := rfl
  have hok : (Moments.quiet r).firstFails = none := rfl
  simp only [streamRootObject, hok, hfirst, hgone, hlive, if_pos hother, hread]

end Heal

-- When a restore keeps to its snapshot

def Keeps {ε : Type} (key : Nat) (result : Except ε (String × Held)) : Prop :=
  ∀ id h, result = .ok (id, h) → h.key = key

def FoundFirst (m : Moments) (id : String) : Prop :=
  m.firstFails = none ∧ ∃ h ∈ m.first.held, h.id = id

section Runs

variable {rfc : Rfc3339} {anchor : SnapshotAnchor} {m : Moments} {start : Repo} {resolved : Held}
  {fileName : String}

theorem keeps_restoreWithHeal (hm : m.After start) (hresolved : resolved ∈ start.held)
    (h : FoundFirst m resolved.id ∨ HealsRight rfc anchor resolved.key m.listing) :
    Keeps resolved.key (restoreWithHeal rfc m anchor resolved.id) := by
  rcases h with ⟨hfails, h, hh, hid⟩ | hright
  · have hfirst : snapshotRestore m.first m.firstFails resolved.id = .ok h := by
      cases hfind : m.first.held.find? fun h => h.id == resolved.id with
      | none => exact absurd (List.find?_eq_none.mp hfind h hh) (by simp [hid])
      | some y =>
        have hy : y = h := Repo.eq_of_id (List.mem_of_find?_eq_some hfind) hh
          ((by simpa using List.find?_some hfind : y.id = resolved.id).trans hid.symm)
        simp only [snapshotRestore, hfails, hfind, hy]
    intro id x hok
    rw [restoreWithHeal, hfirst] at hok
    cases hok
    rw [hm.first.eq_of_id hresolved hh hid]
  · exact fun id h hok => restoreWithHeal_key hm hresolved hright hok

theorem keeps_streamRootObject (hm : m.After start) (hresolved : resolved ∈ start.held)
    (h : (rootObjectOf (listedForAnchor m.first anchor) resolved.id).isSome = true ∨
      HealsRight rfc anchor resolved.key m.listing) :
    Keeps resolved.key (streamRootObject rfc m anchor resolved.id fileName) := by
  rcases h with hfound | hright
  · obtain ⟨x, hx⟩ := Option.isSome_iff_exists.mp hfound
    obtain ⟨hmem, hid⟩ := mem_of_rootObjectOf hx
    intro id h hok
    rw [streamRootObject] at hok
    split at hok
    · cases hok
    · rw [hx] at hok
      cases hok
      rw [hm.first.eq_of_id hresolved (mem_held_of_listedForAnchor hmem) hid]
  · exact fun id h hok => streamRootObject_key hm hresolved hright hok

theorem keeps_of_rootless {r : Repo} (hlater : start.Later r) (hresolved : resolved ∈ start.held)
    (hrootless : ∀ h ∈ r.listed, anchor.fits rfc h.entry = true →
      h.entry.rootEntry.isSome = false) :
    Keeps resolved.key (streamRootObject rfc (.quiet r) anchor resolved.id fileName) := by
  cases hfound : rootObjectOf (listedForAnchor r anchor) resolved.id with
  | some x =>
    exact keeps_streamRootObject (after_quiet hlater) hresolved
      (.inl (Option.isSome_iff_exists.mpr ⟨x, hfound⟩))
  | none =>
    intro id h hok
    have hfirst : (Moments.quiet r).first = r := rfl
    have hfails : (Moments.quiet r).firstFails = none := rfl
    simp only [streamRootObject, hfails, hfirst, hfound] at hok
    split at hok
    · next live hlive =>
      obtain ⟨-, -, x, hfits, hx⟩ := resolveLiveId_eq_some.mp hlive
      split at hok
      · split at hok
        · next found hroot =>
          exfalso
          obtain ⟨hmem, hid⟩ := mem_of_rootObjectOf hroot
          obtain ⟨-, hsome⟩ := Option.filter_eq_some_iff.mp hroot
          have hxmem : x ∈ r.listed.filter fun h => anchor.fits rfc h.entry := by
            change x ∈ (Moments.quiet r).listing.listed.filter fun h => anchor.fits rfc h.entry
            rw [hfits]
            exact List.mem_singleton_self x
          obtain ⟨hxlisted, hxfits⟩ := List.mem_filter.mp hxmem
          have hsame : found = x := Repo.eq_of_id (mem_held_of_listedForAnchor hmem)
            (List.mem_filter.mp hxlisted).1 (hid.trans hx.symm)
          rw [hsame, hrootless x hxlisted hxfits] at hsome
          cases hsome
        · cases hok
      · cases hok
    · cases hok

end Runs

/-- A restore keeps to its snapshot in every run in which the id is found, or the heal lists
a repository where it is right; and at one moment only then. -/
theorem restore_keeps_snapshot (rfc : Rfc3339) (source : RestoreSource) (snap : Option Snapshot)
    (identity : Option SnapshotIdentity) (start : Repo) (resolved : Held)
    (hresolved : resolved ∈ start.held) (fileName : String) :
    let anchor := restoreSourceAnchor source snap identity
    (∀ m : Moments, m.After start →
      (FoundFirst m resolved.id ∨ HealsRight rfc anchor resolved.key m.listing →
        Keeps resolved.key (restoreWithHeal rfc m anchor resolved.id)) ∧
      ((rootObjectOf (listedForAnchor m.first anchor) resolved.id).isSome = true ∨
          HealsRight rfc anchor resolved.key m.listing →
        Keeps resolved.key (streamRootObject rfc m anchor resolved.id fileName))) ∧
    ∀ r, start.Later r →
      (Keeps resolved.key (restoreWithHeal rfc (.quiet r) anchor resolved.id) ↔
        FoundFirst (.quiet r) resolved.id ∨ HealsRight rfc anchor resolved.key r) ∧
      (Keeps resolved.key (streamRootObject rfc (.quiet r) anchor resolved.id fileName) ↔
        (rootObjectOf (listedForAnchor r anchor) resolved.id).isSome = true ∨
          HealsRight rfc anchor resolved.key r ∨
          ∀ h ∈ r.listed, anchor.fits rfc h.entry = true → h.entry.rootEntry.isSome = false) := by
  intro anchor
  refine ⟨fun m hm => ⟨keeps_restoreWithHeal hm hresolved, keeps_streamRootObject hm hresolved⟩,
    fun r hlater => ⟨⟨?_, keeps_restoreWithHeal (after_quiet hlater) hresolved⟩, ?_, ?_⟩⟩
  · intro hkeeps
    by_contra hnot
    rw [not_or] at hnot
    obtain ⟨hgone, hwrong⟩ := hnot
    obtain ⟨x, hok, hne⟩ := restoreWithHeal_quiet_other
      (fun h hh hid => hgone ⟨rfl, h, hh, hid⟩) hwrong
    exact hne (hkeeps _ _ hok)
  · intro hkeeps
    by_contra hnot
    rw [not_or, not_or] at hnot
    obtain ⟨hgone, hwrong, hroots⟩ := hnot
    obtain ⟨h, hnothing⟩ := not_forall.mp hroots
    rw [Classical.not_imp, Classical.not_imp, Bool.not_eq_false] at hnothing
    obtain ⟨hh, hfits, hroot⟩ := hnothing
    obtain ⟨x, hok, hne⟩ := streamRootObject_quiet_other fileName
      (Option.not_isSome_iff_eq_none.mp hgone) hwrong ⟨h, hh, hfits, hroot⟩
    exact hne (hkeeps _ _ hok)
  · rintro (hfound | hright | hrootless)
    · exact keeps_streamRootObject (after_quiet hlater) hresolved (.inl hfound)
    · exact keeps_streamRootObject (after_quiet hlater) hresolved (.inr hright)
    · exact keeps_of_rootless hlater hresolved hrootless

def backupOf (key : Nat) (id : String) (start : DateTime) : Held where
  key
  entry :=
    { id, source := ⟨"billing", "app", "/data"⟩, startTime := start, endTime := start,
      rootEntry := some {} }

/-- One backup of the identity. -/
def oneBackup : Repo where
  held := [backupOf 0 "k0" 0]
  usedIds := ["k0"]
  usedKeys := [0]
  idsUsed h hh := by
    rw [List.mem_singleton.mp hh]
    exact List.mem_singleton_self _
  keysUsed h hh := by
    rw [List.mem_singleton.mp hh]
    exact List.mem_singleton_self _
  ids := List.pairwise_singleton _ _
  keys := List.pairwise_singleton _ _

def writtenIdentity : RestoreSource := .identity ⟨"app", "billing", some "/data"⟩

def noClock : Rfc3339 := { parse := fun _ => none, render := fun _ => "" }

theorem restore_keeps_snapshot_pinned :
    let m : Moments :=
      { first := oneBackup.rename 0 "k1" (by decide)
        listing := oneBackup.rename 0 "k1" (by decide)
        second := oneBackup.rename 0 "k1" (by decide) }
    Keeps 0 (restoreWithHeal noClock m (restoreSourceAnchor writtenIdentity none none) "k0") := by
  intro m
  have hlater : oneBackup.Later m.first := .tail .refl trivial (a := .pin 0 "k1") rfl
  exact ((restore_keeps_snapshot noClock writtenIdentity none none oneBackup (backupOf 0 "k0" 0)
    (List.mem_singleton_self _) "dump.sql").1 m ⟨hlater, .refl, .refl⟩).1
      (.inr (.inr (.inl ⟨backupOf 0 "k1" 0, by decide, rfl, rfl⟩)))

/-- Once the snapshot is deleted, the next backup of the identity is restored. -/
theorem restore_takes_next_backup :
    ¬ ∀ r, oneBackup.Later r →
      Keeps 0 (restoreWithHeal noClock (.quiet r)
          (restoreSourceAnchor writtenIdentity none none) "k0") ∧
        Keeps 0 (streamRootObject noClock (.quiet r)
          (restoreSourceAnchor writtenIdentity none none) "k0" "dump.sql") := by
  intro h
  have hrun : runSteps Repo.step (fun _ _ => True) oneBackup
      [.delete 0, .create (backupOf 1 "k1" 5)] = some _ := rfl
  have hkeeps := (h _ (reaches_of_runSteps hrun)).1 "k1" (backupOf 1 "k1" 5) rfl
  cases hkeeps

end Kopiur.StaleRestore
