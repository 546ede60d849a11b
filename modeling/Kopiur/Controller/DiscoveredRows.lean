import Kopiur.Controller.Adoption
import Kopiur.Controller.Catalog

/-!
# Rows of discovered snapshots

A scan writes one row for each listing entry it plans to create, and later
scans read the row back from its labels and status. Rows are told apart by the
repository's UID and the kopia id, but a row's name only has the repository's
name and the first sixteen characters of the id: where these meet, a write for
one repository lands on the row of the other.
-/

namespace Kopiur

def catalogDedupKey (repoUid snapshotId : String) : String × String := (repoUid, snapshotId)

namespace Snapshot

def nameAny (s : Snapshot) : String := s.metadata.nameAny

def namespaceAny (s : Snapshot) : String := s.metadata.ns.getD ""

def key (s : Snapshot) : String × String := (s.namespaceAny, s.nameAny)

end Snapshot

def shortId (id : String) : String := String.ofList (id.toList.take 16)

def discoveredName (repoName id : String) : String := repoName ++ "-disc-" ++ shortId id

def discoveredSnapshot (rfc : Rfc3339) (owner : OwnerReference) (ns repoName repoUid : String)
    (entry : SnapshotListEntry) : Snapshot where
  metadata :=
    { name := some (discoveredName repoName entry.id)
      ns := some ns
      labels := [(originLabel, "discovered"), (repositoryUidLabel, repoUid),
        (snapshotIdLabel, entry.id)]
      ownerReferences := [owner] }
  spec := { deletionPolicy := some .retain }
  status := some
    { phase := some .discovered
      origin := some .discovered
      snapshot := some
        { kopiaSnapshotId := entry.id
          identity :=
            { username := entry.source.userName
              hostname := entry.source.host
              sourcePath := some entry.source.path } }
      timing := some
        { startTime := some (rfc.render entry.startTime)
          endTime := some (rfc.render entry.endTime) } }

/-- The write takes over every field it sets and leaves the others. -/
def Snapshot.overwrite (old new : Snapshot) : Snapshot where
  metadata :=
    { old.metadata with
      labels := new.metadata.labels
      ownerReferences := new.metadata.ownerReferences }
  spec := new.spec
  status := new.status.map fun status =>
    { status with
      resolvedRepository := old.status.bind SnapshotStatus.resolvedRepository
      conditions := (old.status.map SnapshotStatus.conditions).getD [] }

@[simp] def applySnapshot : List Snapshot → Snapshot → List Snapshot
  | [], new => [new]
  | old :: rest, new =>
    if old.key = new.key then old.overwrite new :: rest else old :: applySnapshot rest new

def rowIdentity (identity : SnapshotIdentity) : Option String :=
  identity.sourcePath.map (identityKeyParts identity.username identity.hostname)

def rowFor (rfc : Rfc3339) (repoUid : String) (s : Snapshot) : Option CatalogRow :=
  if s.metadata.labels.lookup originLabel ≠ some "discovered" then none
  else if s.metadata.labels.lookup repositoryUidLabel ≠ some repoUid then none
  else (s.metadata.labels.lookup snapshotIdLabel).map fun id =>
    { namespace_ := s.namespaceAny
      name := s.nameAny
      snapshotId := id
      endTime := ((s.status.bind SnapshotStatus.timing).bind SnapshotTiming.endTime).bind rfc.parse
      identity := ((s.status.bind SnapshotStatus.snapshot).map SnapshotInfo.identity).bind
        rowIdentity }

def rowsFor (rfc : Rfc3339) (repoUid : String) (snapshots : List Snapshot) : List CatalogRow :=
  snapshots.filterMap (rowFor rfc repoUid)

section Rows

variable {rfc : Rfc3339} {owner owner' : OwnerReference} {ns repoName repoUid : String}
variable {repoName' repoUid' : String} {entry entry' : SnapshotListEntry}

@[simp] theorem key_discoveredSnapshot :
    (discoveredSnapshot rfc owner ns repoName repoUid entry).key =
      (ns, discoveredName repoName entry.id) := rfl

@[simp] theorem nameAny_discoveredSnapshot :
    (discoveredSnapshot rfc owner ns repoName repoUid entry).nameAny =
      discoveredName repoName entry.id := rfl

/-- The row of an entry as the next scan reads it. -/
def entryRow (ns repoName : String) (entry : SnapshotListEntry) : CatalogRow where
  namespace_ := ns
  name := discoveredName repoName entry.id
  snapshotId := entry.id
  endTime := some entry.endTime
  identity := some (identityKey entry.source)

theorem rowFor_discoveredSnapshot
    (hrfc : rfc.parse (rfc.render entry.endTime) = some entry.endTime) :
    rowFor rfc repoUid (discoveredSnapshot rfc owner ns repoName repoUid entry) =
      some (entryRow ns repoName entry) := by
  simp [rowFor, discoveredSnapshot, entryRow, rowIdentity, identityKey, originLabel, hrfc,
    repositoryUidLabel, snapshotIdLabel, List.lookup_cons, Snapshot.namespaceAny, Snapshot.nameAny,
    ObjectMeta.nameAny]

theorem mem_applySnapshot_of_ne {store : List Snapshot} {s new : Snapshot} (hs : s ∈ store)
    (hne : s.key ≠ new.key) : s ∈ applySnapshot store new := by
  induction store with
  | nil => cases hs
  | cons old rest ih =>
    rw [applySnapshot]
    split
    case isTrue heq =>
      cases hs with
      | head => exact absurd heq hne
      | tail _ hrest => exact List.mem_cons_of_mem _ hrest
    case isFalse =>
      cases hs with
      | head => exact List.mem_cons_self
      | tail _ hrest => exact List.mem_cons_of_mem _ (ih hrest)

theorem applySnapshot_of_fresh {store : List Snapshot} {new : Snapshot}
    (h : ∀ s ∈ store, s.key ≠ new.key) : applySnapshot store new = store ++ [new] := by
  induction store with
  | nil => rfl
  | cons old rest ih =>
    rw [applySnapshot, if_neg (h old List.mem_cons_self), List.cons_append,
      ih fun s hs => h s (List.mem_cons_of_mem _ hs)]

theorem keys_applySnapshot {store : List Snapshot} {new : Snapshot} :
    (applySnapshot store new).map Snapshot.key =
      if new.key ∈ store.map Snapshot.key then store.map Snapshot.key
      else store.map Snapshot.key ++ [new.key] := by
  induction store with
  | nil => simp [applySnapshot]
  | cons old rest ih =>
    rw [applySnapshot]
    split
    case isTrue heq =>
      rw [if_pos (by simp [heq])]
      rfl
    case isFalse hne =>
      simp only [List.map_cons, ih, List.mem_cons, or_iff_right fun h => hne (Eq.symm h)]
      split <;> rfl

theorem nodup_keys_foldl_applySnapshot {store new : List Snapshot}
    (h : (store.map Snapshot.key).Nodup) :
    ((new.foldl applySnapshot store).map Snapshot.key).Nodup := by
  induction new generalizing store with
  | nil => exact h
  | cons o rest ih =>
    refine ih ?_
    rw [keys_applySnapshot]
    split
    case isTrue => exact h
    case isFalse hfresh =>
      exact h.append (List.nodup_singleton _) (List.disjoint_singleton.mpr hfresh)

theorem applySnapshot_singleton {old new : Snapshot} (h : old.key = new.key) :
    applySnapshot [old] new = [old.overwrite new] := by
  rw [applySnapshot, if_pos h]

theorem overwrite_ne
    (hkey : catalogDedupKey repoUid entry.id ≠ catalogDedupKey repoUid' entry'.id) :
    (discoveredSnapshot rfc owner ns repoName repoUid entry).overwrite
      (discoveredSnapshot rfc owner' ns repoName' repoUid' entry') ≠
        discoveredSnapshot rfc owner ns repoName repoUid entry := by
  intro heq
  have hlabels := congrArg (fun s : Snapshot => s.metadata.labels) heq
  simp only [Snapshot.overwrite, discoveredSnapshot, List.cons.injEq, Prod.mk.injEq, true_and,
    and_true] at hlabels
  exact hkey (by rw [catalogDedupKey, catalogDedupKey, hlabels.1, hlabels.2])

/-- A repository's name goes on into what the other one takes for the id. Both
short ids have sixteen characters unless an id is shorter. -/
def RunsInto (repoName id repoName' id' : String) : Prop :=
  ∃ w ≠ "", repoName' ++ "-disc-" = repoName ++ "-disc-" ++ w ∧ shortId id = w ++ shortId id'

/-- The same repository name and the same first sixteen characters, or names
that run into the other's id. -/
def NamesMeet (repoName id repoName' id' : String) : Prop :=
  (repoName = repoName' ∧ shortId id = shortId id') ∨ RunsInto repoName id repoName' id' ∨
    RunsInto repoName' id' repoName id

theorem string_append_eq_append_iff {a b c d : String} : a ++ b = c ++ d ↔
    (∃ w, c = a ++ w ∧ b = w ++ d) ∨ ∃ w, a = c ++ w ∧ d = w ++ b := by
  simp only [← String.toList_inj, String.toList_append, List.append_eq_append_iff]
  constructor
  · rintro (⟨w, hc, hb⟩ | ⟨w, ha, hd⟩)
    · exact .inl ⟨String.ofList w, by simpa using hc, by simpa using hb⟩
    · exact .inr ⟨String.ofList w, by simpa using ha, by simpa using hd⟩
  · rintro (⟨w, hc, hb⟩ | ⟨w, ha, hd⟩)
    · exact .inl ⟨w.toList, hc, hb⟩
    · exact .inr ⟨w.toList, ha, hd⟩

theorem discoveredName_eq_iff {id id' : String} :
    discoveredName repoName id = discoveredName repoName' id' ↔
      NamesMeet repoName id repoName' id' := by
  rw [discoveredName, discoveredName, string_append_eq_append_iff]
  constructor
  · rintro (⟨w, hname, hid⟩ | ⟨w, hname, hid⟩)
    · by_cases hw : w = ""
      · subst hw
        exact .inl ⟨by simpa using hname.symm, by simpa using hid⟩
      · exact .inr (.inl ⟨w, hw, hname, hid⟩)
    · by_cases hw : w = ""
      · subst hw
        exact .inl ⟨by simpa using hname, by simpa using hid.symm⟩
      · exact .inr (.inr ⟨w, hw, hname, hid⟩)
  · rintro (⟨rfl, hid⟩ | ⟨w, -, hname, hid⟩ | ⟨w, -, hname, hid⟩)
    · exact .inl ⟨"", by simp, by simpa using hid⟩
    · exact .inl ⟨w, hname, hid⟩
    · exact .inr ⟨w, hname, hid⟩

theorem overwritten_of_namesMeet
    (hkey : catalogDedupKey repoUid entry.id ≠ catalogDedupKey repoUid' entry'.id)
    (hmeet : NamesMeet repoName entry.id repoName' entry'.id) :
    discoveredSnapshot rfc owner ns repoName repoUid entry ∉
      applySnapshot [discoveredSnapshot rfc owner ns repoName repoUid entry]
        (discoveredSnapshot rfc owner' ns repoName' repoUid' entry') := by
  rw [applySnapshot_singleton (by simpa using discoveredName_eq_iff.mpr hmeet),
    List.mem_singleton]
  exact fun heq => overwrite_ne hkey heq.symm

end Rows

/-- Rows of different dedup keys in one namespace have different names, and a
write for one leaves the other, just where their names do not meet. -/
theorem discovered_rows_apart_iff (rfc : Rfc3339) (owner owner' : OwnerReference)
    (ns repoName repoName' repoUid repoUid' : String) (entry entry' : SnapshotListEntry) :
    (catalogDedupKey repoUid entry.id ≠ catalogDedupKey repoUid' entry'.id →
      (discoveredSnapshot rfc owner ns repoName repoUid entry).nameAny ≠
          (discoveredSnapshot rfc owner' ns repoName' repoUid' entry').nameAny ∧
        ∀ store, discoveredSnapshot rfc owner ns repoName repoUid entry ∈ store →
          discoveredSnapshot rfc owner ns repoName repoUid entry ∈
            applySnapshot store (discoveredSnapshot rfc owner' ns repoName' repoUid' entry')) ↔
      (catalogDedupKey repoUid entry.id ≠ catalogDedupKey repoUid' entry'.id →
        ¬NamesMeet repoName entry.id repoName' entry'.id) := by
  refine imp_congr_right fun _ => ?_
  rw [nameAny_discoveredSnapshot, nameAny_discoveredSnapshot, ← discoveredName_eq_iff]
  constructor
  · exact fun h => h.1
  · intro hne
    refine ⟨hne, fun store hmem => mem_applySnapshot_of_ne hmem fun hkey => ?_⟩
    exact hne (Prod.mk.inj hkey).2

def nasEntry : SnapshotListEntry where
  id := "4f1c9a7be2d05836aeef7c52d162ade7"
  source := { userName := "u", host := "apps", path := "/data" }
  startTime := 0
  endTime := 0

def nasOwner (kind uid : String) : OwnerReference := { apiVersion, kind, name := "nas", uid }

/-- A namespaced and a cluster-scoped repository of one name take turns in
writing one row. -/
theorem discovered_row_overwritten_across_kinds :
    ¬∀ (rfc : Rfc3339) (owner owner' : OwnerReference)
      (ns repoName repoName' repoUid repoUid' : String) (entry entry' : SnapshotListEntry),
      catalogDedupKey repoUid entry.id ≠ catalogDedupKey repoUid' entry'.id →
        (discoveredSnapshot rfc owner ns repoName repoUid entry).nameAny ≠
            (discoveredSnapshot rfc owner' ns repoName' repoUid' entry').nameAny ∧
          ∀ store, discoveredSnapshot rfc owner ns repoName repoUid entry ∈ store →
            discoveredSnapshot rfc owner ns repoName repoUid entry ∈
              applySnapshot store
                (discoveredSnapshot rfc owner' ns repoName' repoUid' entry') := by
  intro h
  have hkey : catalogDedupKey "u1" nasEntry.id ≠ catalogDedupKey "u2" nasEntry.id := by decide
  have hkept := (h ⟨fun _ => none, fun _ => ""⟩ (nasOwner "Repository" "u1")
    (nasOwner "ClusterRepository" "u2") "backups" "nas" "nas" "u1" "u2" nasEntry nasEntry hkey).2
  exact overwritten_of_namesMeet hkey (.inl ⟨rfl, rfl⟩) (hkept _ List.mem_cons_self)

end Kopiur
