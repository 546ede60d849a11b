import Kopiur.Controller.Adoption
import Kopiur.Kopia.Listing

/-!
# Replicating snapshots into another repository

`kopia snapshot migrate` copies manifests from a source repository into a
destination. The mover selects the identities to copy, checks what arrived,
keeps a Snapshot object for every copy and prunes old copies by deleting their
objects.
-/

namespace Kopiur

open Lib

/-- The loop of the matcher: what is left of the pattern and of the value, and
for the last star the pattern after it and the value from where it stands. -/
structure Glob where
  pattern : List Char
  value : List Char
  star : Option (List Char × List Char) := none
  ahead : ∀ s, star = some s → value.length ≤ s.2.length

namespace Glob

def backtrack : Option (List Char × List Char) → Option Glob
  | some (ps, _ :: vs) => some ⟨ps, vs, some (ps, vs), by simp⟩
  | _ => none

def step (g : Glob) (x : Char) (vs : List Char) (h : g.value = x :: vs) : Option Glob :=
  match g.pattern with
  | [] => backtrack g.star
  | c :: ps =>
    if c = '?' ∨ c = x then
      some ⟨ps, vs, g.star, fun s hs => (Nat.le_succ _).trans (by simpa [h] using g.ahead s hs)⟩
    else if c = '*' then some ⟨ps, g.value, some (ps, g.value), by simp⟩
    else backtrack g.star

def limit (g : Glob) : Nat :=
  match g.star with
  | none => g.value.length + 1
  | some s => s.2.length

theorem backtrack_limit {star : Option (List Char × List Char)} {g : Glob}
    (h : backtrack star = some g) : ∃ s, star = some s ∧ g.limit < s.2.length := by
  unfold backtrack at h
  split at h
  · cases h
    exact ⟨_, rfl, Nat.lt_succ_self _⟩
  · cases h

theorem step_decreases {g g' : Glob} {x : Char} {vs : List Char} {h : g.value = x :: vs}
    (hstep : g.step x vs h = some g') :
    Prod.Lex (· < ·) (· < ·) (g'.limit, g'.pattern.length + g'.value.length)
      (g.limit, g.pattern.length + g.value.length) := by
  have hback : backtrack g.star = some g' → g'.limit < g.limit := by
    intro hb
    obtain ⟨s, hs, hlt⟩ := backtrack_limit hb
    simpa [limit, hs] using hlt
  unfold step at hstep
  split at hstep
  · exact .left _ _ (hback hstep)
  · next c ps hp =>
    split at hstep
    · cases hstep
      rcases Option.eq_none_or_eq_some g.star with hstar | ⟨s, hstar⟩
      · refine .left _ _ ?_
        simp [limit, hstar, h]
      · refine Prod.lex_iff.mpr (.inr ⟨by simp [limit, hstar], ?_⟩)
        simp only [hp, h, List.length_cons]
        omega
    · split at hstep
      · cases hstep
        rcases Option.eq_none_or_eq_some g.star with hstar | ⟨s, hstar⟩
        · refine .left _ _ ?_
          simp [limit, hstar]
        · refine Prod.lex_iff.mpr ?_
          rcases Nat.lt_or_eq_of_le (g.ahead s hstar) with hlt | heq
          · exact .inl (by simpa [limit, hstar] using hlt)
          · exact .inr ⟨by simpa [limit, hstar] using heq, by simp [hp]⟩
      · exact .left _ _ (hback hstep)

def run (g : Glob) : Bool :=
  match h : g.value with
  | [] => g.pattern.all (· == '*')
  | x :: vs =>
    match _hstep : g.step x vs h with
    | none => false
    | some g' => g'.run
termination_by (g.limit, g.pattern.length + g.value.length)
decreasing_by exact step_decreases _hstep

end Glob

def componentGlobMatches (pattern value : String) : Bool :=
  Glob.run { pattern := pattern.toList, value := value.toList, ahead := by simp }

/-- Username, hostname and path. -/
abbrev IdentityTriple := String ×ₗ String ×ₗ String

/-- What `kopia snapshot migrate` recognises a copy by. -/
abbrev SnapKey := IdentityTriple × DateTime

def identityTriple (username hostname path : String) : IdentityTriple :=
  toLex (username, toLex (hostname, path))

def entryTriple (e : SnapshotListEntry) : IdentityTriple :=
  identityTriple e.source.userName e.source.host e.source.path

def entryKey (e : SnapshotListEntry) : SnapKey := (entryTriple e, e.startTime)

def tripleSpec (t : IdentityTriple) : String :=
  (ofLex t).1 ++ "@" ++ (ofLex (ofLex t).2).1 ++ ":" ++ (ofLex (ofLex t).2).2

structure IdentityMatcherSpec where
  username : Option String := none
  hostname : Option String := none
  sourcePath : Option String := none
deriving DecidableEq

/-- A matcher without a pattern matches nothing. -/
def matcherMatches (m : IdentityMatcherSpec) (t : IdentityTriple) : Bool :=
  if m.username.isNone && m.hostname.isNone && m.sourcePath.isNone then false
  else
    m.username.all (componentGlobMatches · (ofLex t).1) &&
    m.hostname.all (componentGlobMatches · (ofLex (ofLex t).2).1) &&
    m.sourcePath.all (componentGlobMatches · (ofLex (ofLex t).2).2)

def identityMatchesSpec (incl excl : List IdentityMatcherSpec) (t : IdentityTriple) : Bool :=
  (incl.isEmpty || incl.any (matcherMatches · t)) && !excl.any (matcherMatches · t)

def selectIdentities (incl excl : List IdentityMatcherSpec) (entries : List SnapshotListEntry) :
    Finset IdentityTriple :=
  (((completeOnly entries).map entryTriple).filter (identityMatchesSpec incl excl)).toFinset

def destKeys (entries : List SnapshotListEntry) (selected : Finset IdentityTriple) :
    Finset SnapKey :=
  (((completeOnly entries).filter (entryTriple · ∈ selected)).map entryKey).toFinset

def allKeys (entries : List SnapshotListEntry) : Finset SnapKey :=
  ((completeOnly entries).map entryKey).toFinset

def noteNewest (newest : List (IdentityTriple × DateTime)) (k : SnapKey) :
    List (IdentityTriple × DateTime) :=
  match newest.lookup k.1 with
  | none => (k.1, k.2) :: newest
  | some s => if k.2 > s then (k.1, k.2) :: newest else newest

/-- What a migrate has to bring over: all keys of the selected identities, or the
newest of each. -/
def expectedKeys (entries : List SnapshotListEntry) (selected : Finset IdentityTriple)
    (latestOnly : Bool) : Finset SnapKey :=
  let all := ((completeOnly entries).filter (entryTriple · ∈ selected)).map entryKey
  if latestOnly then
    let newest := all.foldl noteNewest []
    (all.filter fun k => newest.lookup k.1 = some k.2).toFinset
  else all.toFinset

def missingAfterMigrate (source : List SnapshotListEntry) (selected : Finset IdentityTriple)
    (destAfter : List SnapshotListEntry) (latestOnly : Bool) : Finset SnapKey :=
  expectedKeys source selected latestOnly \ destKeys destAfter selected

structure CopyCorrespondence where
  destEntry : SnapshotListEntry
  sourceManifestId : String
deriving DecidableEq

def sourceManifest (source : List SnapshotListEntry) (k : SnapKey) : Option String :=
  ((completeOnly source).reverse.find? fun e => entryKey e = k).map SnapshotListEntry.id

def correspondenceSet (source : List SnapshotListEntry) (selected : Finset IdentityTriple)
    (destAfter : List SnapshotListEntry) : List CopyCorrespondence :=
  ((completeOnly destAfter).filter (entryTriple · ∈ selected)).filterMap fun e =>
    (sourceManifest source (entryKey e)).map (CopyCorrespondence.mk e)

-- The objects of copies

def snapshotReplicationLabel : String := "kopiur.home-operations.com/snapshot-replication"

structure ReplicationRepositoryRef where
  kind : String
  name : String
  ns : Option String := none
  uid : String
deriving DecidableEq

structure ReplicationSourceRef where
  kind : String
  name : String
  ns : Option String := none
deriving DecidableEq

def parseRepoKind (kind : String) : RepositoryKind :=
  if kind = "ClusterRepository" then .clusterRepository else .repository

def destRepositoryRef (dest : ReplicationRepositoryRef) : RepositoryRef :=
  { kind := parseRepoKind dest.kind, name := dest.name, ns := dest.ns }

def sourceRepositoryRef (source : ReplicationSourceRef) : RepositoryRef :=
  { kind := parseRepoKind source.kind, name := source.name, ns := source.ns }

structure CopiedFrom where
  repository : RepositoryRef
  sourceManifestId : String
  startTime : String
deriving DecidableEq

/-- A Snapshot with its `status.copiedFrom` and `status.stats.sizeBytes`. -/
structure CopySnapshot extends Snapshot where
  copiedFrom : Option CopiedFrom := none
  sizeBytes : Option Nat := none
deriving DecidableEq

def copyCrName (replName destManifestId : String) : String :=
  cappedName (replName ++ "-copy-" ++ String.ofList (destManifestId.toList.take 16) ++ "-" ++
    shortHash destManifestId)

structure CopyStatus where
  status : SnapshotStatus
  copiedFrom : CopiedFrom
  sizeBytes : Option Nat
deriving DecidableEq

/-- The two repositories of a replication, its name and its namespace. -/
structure Replication where
  replName : String
  ns : String
  destRepo : ReplicationRepositoryRef
  sourceRepo : ReplicationSourceRef
deriving DecidableEq

/-- The object of a copy, and the status that is patched onto it afterwards. -/
def buildCopySnapshot (rfc : Rfc3339) (r : Replication) (item : CopyCorrespondence) :
    CopySnapshot × CopyStatus :=
  let e := item.destEntry
  let destRef := destRepositoryRef r.destRepo
  ({ metadata :=
      { name := some (copyCrName r.replName e.id)
        ns := some r.ns
        labels := [(originLabel, Origin.replicated.labelValue), (snapshotIdLabel, e.id),
          (repositoryUidLabel, r.destRepo.uid), (snapshotReplicationLabel, r.replName)] }
     spec := { repository := some destRef, deletionPolicy := some .delete } },
   { status :=
      { phase := some .succeeded
        origin := some .replicated
        snapshot := some
          { kopiaSnapshotId := e.id
            identity := ⟨e.source.userName, e.source.host, some e.source.path⟩ }
        timing := some
          { startTime := some (rfc.render e.startTime), endTime := some (rfc.render e.endTime) }
        resolvedRepository := some destRef }
     copiedFrom :=
      { repository := sourceRepositoryRef r.sourceRepo
        sourceManifestId := item.sourceManifestId
        startTime := rfc.render e.startTime }
     sizeBytes := if e.totalSize > 0 then some e.totalSize else none })

/-- What pruning reads of a copy's object. -/
structure CopyRow where
  name : String
  identity : IdentityTriple
  startTime : Option DateTime
  endTime : Option DateTime
  pinned : Bool
deriving DecidableEq

def copyRowFromSnapshot (rfc : Rfc3339) (snap : CopySnapshot) : Option CopyRow := do
  let status ← snap.status
  let info ← status.snapshot
  let path ← info.identity.sourcePath
  some
    { name := snap.metadata.nameAny
      identity := identityTriple info.identity.username info.identity.hostname path
      startTime := status.timing.bind fun t => t.startTime.bind rfc.parse
      endTime := status.timing.bind fun t => t.endTime.bind rfc.parse
      pinned := snap.spec.pin }

def CopyRow.view (row : CopyRow) : Option SnapshotRetentionView :=
  row.endTime.map fun t => { name := row.name, endTime := t, pinned := row.pinned }

def retentionPruneNames (rows : List CopyRow) (retention : Retention) : List String :=
  let buckets := groups (rows.filterMap fun row => row.view.map fun v => (row.identity, v))
  (buckets.flatMap fun b => (selectKept b.2 retention).delete).insertionSort (· ≤ ·)

def mirrorPruneNames (rows : List CopyRow) (sourceKeys : Finset SnapKey) : List String :=
  ((rows.filter fun row => !row.pinned).filterMap fun row =>
    row.startTime.bind fun start =>
      if (row.identity, start) ∈ sourceKeys then none else some row.name).insertionSort (· ≤ ·)

inductive PruningSpec
  | none
  | mirrorSource
  | retention (keep : Retention)
deriving DecidableEq

/-- The names of the objects a run deletes. -/
def pruneNames (pruning : PruningSpec) (rows : List CopyRow) (sourceKeys : Finset SnapKey) :
    List String :=
  match pruning with
  | .none => []
  | .retention keep => retentionPruneNames rows keep
  | .mirrorSource => mirrorPruneNames rows sourceKeys

-- The expected keys

section Expected

variable {entries : List SnapshotListEntry} {selected : Finset IdentityTriple} {k : SnapKey}

theorem mem_destKeys : k ∈ destKeys entries selected ↔
    ∃ e ∈ entries, e.complete = true ∧ entryTriple e ∈ selected ∧ entryKey e = k := by
  simp [destKeys, completeOnly, and_assoc, and_left_comm]

theorem mem_allKeys : k ∈ allKeys entries ↔
    ∃ e ∈ entries, e.complete = true ∧ entryKey e = k := by
  simp [allKeys, completeOnly, and_assoc]

def Noted (newest : List (IdentityTriple × DateTime)) (passed : List SnapKey) : Prop :=
  ∀ t, (newest.lookup t = none → ∀ k ∈ passed, k.1 ≠ t) ∧
    ∀ s, newest.lookup t = some s → (t, s) ∈ passed ∧ ∀ k ∈ passed, k.1 = t → k.2 ≤ s

theorem Noted.nil : Noted [] [] := by
  intro t
  refine ⟨fun _ k hk => ?_, fun s hs => ?_⟩
  · cases hk
  · cases hs

theorem Noted.put {newest : List (IdentityTriple × DateTime)} {passed : List SnapKey}
    (h : Noted newest passed) {t : IdentityTriple} {s : DateTime}
    (hnew : ∀ k ∈ passed, k.1 = t → k.2 ≤ s) : Noted ((t, s) :: newest) (passed ++ [(t, s)]) := by
  intro u
  by_cases hu : u = t
  · subst hu
    simp only [List.lookup_cons_self]
    refine ⟨by simp, ?_⟩
    rintro s' ⟨⟩
    refine ⟨by simp, fun k hk heq => ?_⟩
    rcases List.mem_append.mp hk with hk | hk
    · exact hnew k hk heq
    · rw [List.mem_singleton.mp hk]
  · have hlook : ((t, s) :: newest).lookup u = newest.lookup u := by
      rw [List.lookup_cons, beq_false_of_ne hu]
    rw [hlook]
    obtain ⟨hnone, hsome⟩ := h u
    constructor
    · intro hn k hk
      rcases List.mem_append.mp hk with hk | hk
      · exact hnone hn k hk
      · rw [List.mem_singleton.mp hk]
        exact Ne.symm hu
    · intro s' hs
      refine ⟨List.mem_append_left _ (hsome s' hs).1, fun k hk heq => ?_⟩
      rcases List.mem_append.mp hk with hk | hk
      · exact (hsome s' hs).2 k hk heq
      · rw [List.mem_singleton.mp hk] at heq
        exact absurd heq.symm hu

theorem Noted.noteNewest {newest : List (IdentityTriple × DateTime)} {passed : List SnapKey}
    (h : Noted newest passed) (k : SnapKey) : Noted (noteNewest newest k) (passed ++ [k]) := by
  obtain ⟨t, s⟩ := k
  obtain ⟨hnone, hsome⟩ := h t
  cases hlook : newest.lookup t with
  | none =>
    simp only [Kopiur.noteNewest, hlook]
    exact h.put fun k hk heq => absurd heq (hnone hlook k hk)
  | some s₀ =>
    obtain ⟨hmem, hmax⟩ := hsome s₀ hlook
    simp only [Kopiur.noteNewest, hlook]
    split
    case isTrue hlt => exact h.put fun k hk heq => (hmax k hk heq).trans (le_of_lt hlt)
    case isFalse hle =>
      intro u
      obtain ⟨hnone, hsome⟩ := h u
      constructor
      · intro hn k hk
        rcases List.mem_append.mp hk with hk | hk
        · exact hnone hn k hk
        · rw [List.mem_singleton.mp hk]
          rintro rfl
          rw [hn] at hlook
          cases hlook
      · intro s' hs
        refine ⟨List.mem_append_left _ (hsome s' hs).1, fun k hk heq => ?_⟩
        rcases List.mem_append.mp hk with hk | hk
        · exact (hsome s' hs).2 k hk heq
        · rw [List.mem_singleton.mp hk] at heq ⊢
          obtain rfl : t = u := heq
          rw [hlook] at hs
          cases hs
          exact not_lt.mp hle

theorem Noted.foldl {newest : List (IdentityTriple × DateTime)} {passed : List SnapKey}
    (h : Noted newest passed) (rest : List SnapKey) :
    Noted (rest.foldl Kopiur.noteNewest newest) (passed ++ rest) := by
  induction rest generalizing newest passed with
  | nil => simpa using h
  | cons k rest ih =>
    have hnext := ih (h.noteNewest k)
    rwa [List.append_assoc, List.singleton_append] at hnext

/-- The key of a snapshot of the selection, the newest of its identity if only
those are copied. -/
theorem mem_expectedKeys {latestOnly : Bool} : k ∈ expectedKeys entries selected latestOnly ↔
    k ∈ destKeys entries selected ∧
      (latestOnly = true → ∀ k' ∈ destKeys entries selected, k'.1 = k.1 → k'.2 ≤ k.2) := by
  cases latestOnly with
  | false => simp [expectedKeys, destKeys]
  | true =>
    have hnoted := Noted.nil.foldl
      (((completeOnly entries).filter (entryTriple · ∈ selected)).map entryKey)
    rw [List.nil_append] at hnoted
    simp only [expectedKeys, destKeys, if_true, List.mem_toFinset, List.mem_filter,
      decide_eq_true_eq, forall_const]
    generalize ((completeOnly entries).filter (entryTriple · ∈ selected)).map entryKey = all
      at hnoted ⊢
    refine and_congr_right fun hk => ?_
    constructor
    · intro hlook k' hk' heq
      exact ((hnoted k.1).2 k.2 hlook).2 k' hk' heq
    · intro hmax
      cases hlook : (all.foldl Kopiur.noteNewest []).lookup k.1 with
      | none => exact absurd rfl ((hnoted k.1).1 hlook k hk)
      | some s =>
        obtain ⟨hmem, hle⟩ := (hnoted k.1).2 s hlook
        exact congrArg some (le_antisymm (hmax _ hmem rfl) (hle k hk rfl))

theorem missingAfterMigrate_eq_empty {destAfter : List SnapshotListEntry} {latestOnly : Bool} :
    missingAfterMigrate entries selected destAfter latestOnly = ∅ ↔
      ∀ k ∈ expectedKeys entries selected latestOnly, k ∈ destKeys destAfter selected :=
  Finset.sdiff_eq_empty_iff_subset

end Expected

section Prune

variable {rows : List CopyRow} {sourceKeys : Finset SnapKey} {retention : Retention}
  {name : String}

theorem mem_mirrorPruneNames : name ∈ mirrorPruneNames rows sourceKeys ↔
    ∃ row ∈ rows, row.pinned = false ∧ row.name = name ∧
      ∃ start, row.startTime = some start ∧ (row.identity, start) ∉ sourceKeys := by
  simp only [mirrorPruneNames, List.mem_insertionSort, List.mem_filterMap, List.mem_filter,
    Bool.not_eq_true', Option.bind_eq_some_iff]
  constructor
  · rintro ⟨row, ⟨hrow, hpin⟩, start, hstart, hname⟩
    split at hname
    · cases hname
    · next habsent => exact ⟨row, hrow, hpin, Option.some.inj hname, start, hstart, habsent⟩
  · rintro ⟨row, hrow, hpin, hname, start, hstart, habsent⟩
    exact ⟨row, ⟨hrow, hpin⟩, start, hstart, by rw [if_neg habsent, hname]⟩

def copyBucket (rows : List CopyRow) (t : IdentityTriple) : List SnapshotRetentionView :=
  (rows.filter (·.identity = t)).filterMap CopyRow.view

theorem mem_copyBucket {t : IdentityTriple} {v : SnapshotRetentionView} :
    v ∈ copyBucket rows t ↔ ∃ row ∈ rows, row.identity = t ∧ row.view = some v := by
  simp [copyBucket, and_assoc]

theorem mem_retentionPruneNames : name ∈ retentionPruneNames rows retention ↔
    ∃ t, name ∈ (selectKept (copyBucket rows t) retention).delete := by
  have hbucket : ∀ t, ((rows.filterMap fun row => row.view.map fun v => (row.identity, v)).filter
      fun e => e.1 = t).map Prod.snd = copyBucket rows t := by
    intro t
    unfold copyBucket
    induction rows with
    | nil => rfl
    | cons row rest ih =>
      cases hview : row.view with
      | none => by_cases ht : row.identity = t <;> simp [hview, ht, ih]
      | some v => by_cases ht : row.identity = t <;> simp [hview, ht, ih]
  simp only [retentionPruneNames, List.mem_insertionSort, List.mem_flatMap, Prod.exists, mem_groups]
  constructor
  · rintro ⟨t, vs, ⟨rfl, -⟩, hdel⟩
    exact ⟨t, hbucket t ▸ hdel⟩
  · rintro ⟨t, hdel⟩
    refine ⟨t, copyBucket rows t, ⟨(hbucket t).symm, ?_⟩, hdel⟩
    intro hnil
    simp [hnil, selectKept] at hdel

theorem CopyRow.name_of_view {row : CopyRow} {v : SnapshotRetentionView} (h : row.view = some v) :
    v.name = row.name := by
  obtain ⟨end_, -, rfl⟩ := Option.map_eq_some_iff.mp h
  rfl

theorem copyBucket_names (t : IdentityTriple) :
    ((copyBucket rows t).map SnapshotRetentionView.name).Sublist (rows.map CopyRow.name) := by
  exact (map_filterMap_sublist _ fun _ _ _ h => CopyRow.name_of_view h).trans
    (List.filter_sublist.map _)

def copyPopulation (rows : List CopyRow) (hnames : (rows.map CopyRow.name).Nodup)
    (t : IdentityTriple) : Population SnapshotRetentionView where
  rows := copyBucket rows t
  distinct := hnames.sublist (copyBucket_names t)

theorem name_mem_retentionPruneNames (hnames : (rows.map CopyRow.name).Nodup) {row : CopyRow}
    (hrow : row ∈ rows) : row.name ∈ retentionPruneNames rows retention ↔
      ∃ v, row.view = some v ∧
        v ∉ (gfs retention).pick (copyPopulation rows hnames row.identity).set := by
  rw [mem_retentionPruneNames]
  constructor
  · rintro ⟨t, hdel⟩
    obtain ⟨v, hv, hid, hdrop⟩ := ((copyPopulation rows hnames t).mem_delete retention _).mp hdel
    obtain ⟨r, hr, rfl, hview⟩ := mem_copyBucket.mp hv
    obtain rfl := List.inj_on_of_nodup_map hnames hr hrow ((CopyRow.name_of_view hview).symm.trans hid)
    exact ⟨v, hview, hdrop⟩
  · rintro ⟨v, hview, hdrop⟩
    refine ⟨row.identity, ((copyPopulation rows hnames _).mem_delete retention _).mpr ?_⟩
    exact ⟨v, mem_copyBucket.mpr ⟨row, hrow, rfl, hview⟩, CopyRow.name_of_view hview, hdrop⟩

theorem pinned_not_mem_pruneNames {pruning : PruningSpec}
    (hnames : (rows.map CopyRow.name).Nodup) {row : CopyRow} (hrow : row ∈ rows)
    (hpin : row.pinned = true) : row.name ∉ pruneNames pruning rows sourceKeys := by
  cases pruning with
  | none => simp [pruneNames]
  | mirrorSource =>
    rw [pruneNames, mem_mirrorPruneNames]
    rintro ⟨r, hr, hfree, hname, -⟩
    obtain rfl := List.inj_on_of_nodup_map hnames hr hrow hname
    rw [hpin] at hfree
    cases hfree
  | retention keep =>
    rw [pruneNames, name_mem_retentionPruneNames hnames hrow]
    rintro ⟨v, hview, hdrop⟩
    apply hdrop
    rw [gfs, Choice.mem_union_pick]
    refine .inr (Choice.mem_always.mpr ⟨?_, ?_⟩)
    · exact (Population.mem_set _).mpr (mem_copyBucket.mpr ⟨row, hrow, rfl, hview⟩)
    · obtain ⟨end_, -, rfl⟩ := Option.map_eq_some_iff.mp hview
      exact hpin

end Prune

end Kopiur
