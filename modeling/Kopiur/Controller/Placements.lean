import Kopiur.Controller.CatalogConvergence
import Kopiur.Controller.TimeBounds

/-!
# Placing what a scan finds

A scan decides by its hostname where the row of an entry goes. What another cluster
wrote is ignored or collected in a fallback namespace. Where it is ignored, the mover
may drop it before the controller sees the listing, and the plan is the same.
-/

namespace Kopiur

open Lib
open Checked (CatalogBounds ForeignSnapshots)

def effectiveForeignSnapshots (catalog : Option CatalogBounds) : ForeignSnapshots :=
  (catalog.bind CatalogBounds.foreignSnapshots).getD .ignore

def prefilterCluster (cluster : Option String) (foreign : ForeignSnapshots) : Option String :=
  let clusterMode := cluster.any fun c => !c.isEmpty
  if clusterMode && foreign == .ignore then some (cluster.getD "") else none

inductive Placement
  | namespace_ (ns : String)
  -- the tenancy gate's answers are given to the pass
  | cluster (fallback : Option String)
deriving DecidableEq

inductive PlacementDecision
  | place (ns : String)
  | unplaced
  | foreignIgnored
deriving DecidableEq

def fallbackOrUnplaced : Option String → PlacementDecision
  | some f => .place f
  | none => .unplaced

def decideClusterPlacement (hostClass : HostClass) (nsAllowed clusterMode : Bool)
    (foreign : ForeignSnapshots) (fallback : Option String) : PlacementDecision :=
  match hostClass with
  | .bare ns =>
    if nsAllowed then .place ns
    -- written before there was a cluster identity, or by another party
    else if clusterMode && foreign == .ignore then .foreignIgnored
    else fallbackOrUnplaced fallback
  | .ownCluster ns => if nsAllowed then .place ns else fallbackOrUnplaced fallback
  | .foreignCluster _ =>
    match foreign with
    | .ignore => .foreignIgnored
    | .fallback => fallbackOrUnplaced fallback

def decideNamespacePlacement (hostClass : HostClass) (ns : String) : PlacementDecision :=
  match hostClass with
  | .bare _ | .ownCluster _ => .place ns
  | .foreignCluster _ => .foreignIgnored

/-- What does not vary with the hostname. -/
structure PlacementRules where
  cluster : Option String
  clusterMode : Bool
  foreign : ForeignSnapshots
  placement : Placement
  nsAllowed : List (String × Bool)

namespace PlacementRules

def new (cluster : Option String) (foreign : ForeignSnapshots) (placement : Placement)
    (nsAllowed : List (String × Bool)) : PlacementRules where
  cluster
  clusterMode := cluster.any fun c => !c.isEmpty
  foreign
  placement
  nsAllowed

def decide (r : PlacementRules) (host : String) : PlacementDecision :=
  let hostClass := classifyHostname host r.cluster
  match r.placement with
  | .namespace_ ns => decideNamespacePlacement hostClass ns
  | .cluster fallback =>
    let candidateAllowed := match hostClass with
      | .bare ns | .ownCluster ns => (r.nsAllowed.lookup ns).getD false
      | .foreignCluster _ => false
    decideClusterPlacement hostClass candidateAllowed r.clusterMode r.foreign fallback

def foreignSuffix (r : PlacementRules) (host : String) : Option String :=
  match classifyHostname host r.cluster with
  | .foreignCluster suffix => some suffix
  | .bare _ | .ownCluster _ => none

end PlacementRules

structure HostedRow extends CatalogRow where
  host : Option String := none
deriving DecidableEq

def outOfWindowRowHosts (listing : List SnapshotListEntry) (rows : List HostedRow) :
    List (String × String) :=
  let listed := listing.map SnapshotListEntry.id
  rows.filterMap fun r =>
    r.host.bind fun host => if r.snapshotId ∈ listed then none else some (r.snapshotId, host)

structure PlacementPass where
  decisions : List (String × PlacementDecision) := []
  foreignIgnoredIds : List String := []
  foreignCount : Nat := 0
  foreignSuffixCounts : List (String × Nat) := []
  rowForeignIgnoredIds : List String := []
deriving DecidableEq

structure HostDecisions where
  decisions : List (String × PlacementDecision) := []
  suffixes : List (String × Option String) := []

def HostDecisions.decide (rules : PlacementRules) (hosts : HostDecisions)
    (e : SnapshotListEntry) : HostDecisions :=
  let host := e.source.host
  if (hosts.decisions.lookup host).isSome then hosts
  else
    { decisions := putKey host (rules.decide host) hosts.decisions
      suffixes := putKey host (rules.foreignSuffix host) hosts.suffixes }

def decideHosts (rules : PlacementRules) (listing : List SnapshotListEntry) : HostDecisions :=
  listing.foldl (HostDecisions.decide rules) {}

/-- What an entry adds to the counts. -/
def PlacementPass.account (suffixes : List (String × Option String)) (pass : PlacementPass)
    (e : SnapshotListEntry) : PlacementPass :=
  let host := e.source.host
  match pass.decisions.lookup host with
  | none => pass
  | some decision =>
    let foreignSuffix := (suffixes.lookup host).join
    let pass :=
      if foreignSuffix.isSome || decision == .foreignIgnored then
        let key := foreignSuffix.getD host
        { pass with
          foreignCount := pass.foreignCount + 1
          foreignSuffixCounts :=
            putKey key ((pass.foreignSuffixCounts.lookup key).getD 0 + 1)
              pass.foreignSuffixCounts }
      else pass
    if decision == .foreignIgnored then
      { pass with foreignIgnoredIds := pass.foreignIgnoredIds ++ [e.id] }
    else pass

def planPlacements (listing : List SnapshotListEntry) (rows : List HostedRow)
    (cluster : Option String) (foreign : ForeignSnapshots) (placement : Placement)
    (nsAllowed : List (String × Bool)) : PlacementPass :=
  let rules := PlacementRules.new cluster foreign placement nsAllowed
  let { decisions, suffixes } := decideHosts rules listing
  let rowForeignIgnoredIds := ((outOfWindowRowHosts listing rows).filter fun (_, host) =>
    (decisions.lookup host).getD (rules.decide host) == .foreignIgnored).map Prod.fst
  listing.foldl (PlacementPass.account suffixes) { decisions, rowForeignIgnoredIds }

/-- What the plan reads of the pass. -/
def PlacementPass.inputs (pass : PlacementPass) (producedIds : List String)
    (retain : Option CatalogRetain) (now : DateTime) : ScanInputs where
  producedIds
  foreignIgnoredIds := pass.foreignIgnoredIds
  rowForeignIgnoredIds := pass.rowForeignIgnoredIds
  retain
  now

-- What the pass finds

/-- The hostnames seen so far are decided, and no other. -/
structure HostDecisions.Decides (rules : PlacementRules) (seen : List String)
    (hosts : HostDecisions) : Prop where
  decisions : ∀ host, hosts.decisions.lookup host =
    if host ∈ seen then some (rules.decide host) else none
  suffixes : ∀ host, hosts.suffixes.lookup host =
    if host ∈ seen then some (rules.foreignSuffix host) else none

theorem HostDecisions.Decides.decide {rules : PlacementRules} {seen : List String}
    {hosts : HostDecisions} (h : hosts.Decides rules seen) (e : SnapshotListEntry) :
    (hosts.decide rules e).Decides rules (e.source.host :: seen) := by
  by_cases hseen : e.source.host ∈ seen
  · have hsame : hosts.decide rules e = hosts := by
      simp [HostDecisions.decide, h.decisions, hseen]
    have hmem : ∀ host, host ∈ e.source.host :: seen ↔ host ∈ seen := fun host =>
      ⟨fun hhost => (List.mem_cons.mp hhost).elim (fun heq => heq ▸ hseen) id,
        List.mem_cons_of_mem _⟩
    rw [hsame]
    exact ⟨fun host => by simp only [h.decisions, hmem],
      fun host => by simp only [h.suffixes, hmem]⟩
  · have hput : hosts.decide rules e = {
        decisions := putKey e.source.host (rules.decide e.source.host) hosts.decisions
        suffixes := putKey e.source.host (rules.foreignSuffix e.source.host) hosts.suffixes } := by
      simp [HostDecisions.decide, h.decisions, hseen]
    rw [hput]
    constructor
    · intro host
      by_cases hhost : host = e.source.host <;> simp [lookup_putKey, h.decisions, hhost]
    · intro host
      by_cases hhost : host = e.source.host <;> simp [lookup_putKey, h.suffixes, hhost]

theorem decideHosts_decides (rules : PlacementRules) (listing : List SnapshotListEntry) :
    ∃ seen, (decideHosts rules listing).Decides rules seen ∧
      ∀ host, host ∈ seen ↔ ∃ e ∈ listing, e.source.host = host := by
  suffices hfold : ∀ (seen : List String) (hosts : HostDecisions), hosts.Decides rules seen →
      ∃ seen', (listing.foldl (HostDecisions.decide rules) hosts).Decides rules seen' ∧
        ∀ host, host ∈ seen' ↔ host ∈ seen ∨ ∃ e ∈ listing, e.source.host = host by
    obtain ⟨seen, hdecides, hseen⟩ := hfold [] {} ⟨fun _ => rfl, fun _ => rfl⟩
    exact ⟨seen, hdecides, fun host => by simpa using hseen host⟩
  induction listing with
  | nil => exact fun seen hosts h => ⟨seen, h, by simp⟩
  | cons e rest ih =>
    intro seen hosts h
    obtain ⟨seen', hdecides, hseen⟩ := ih _ _ (h.decide e)
    refine ⟨seen', hdecides, fun host => (hseen host).trans ?_⟩
    simp only [List.mem_cons, exists_eq_or_imp, eq_comm (a := host), or_assoc, or_left_comm]

section Pass

variable {rules : PlacementRules}

def PlacementRules.isForeign (r : PlacementRules) (e : SnapshotListEntry) : Bool :=
  (r.foreignSuffix e.source.host).isSome || r.decide e.source.host == .foreignIgnored

def PlacementRules.isIgnored (r : PlacementRules) (e : SnapshotListEntry) : Bool :=
  r.decide e.source.host == .foreignIgnored

theorem foldl_account (rules : PlacementRules) {suffixes : List (String × Option String)}
    {l : List SnapshotListEntry} :
    ∀ pass : PlacementPass,
      (∀ e ∈ l, pass.decisions.lookup e.source.host = some (rules.decide e.source.host)) →
      (∀ e ∈ l, suffixes.lookup e.source.host = some (rules.foreignSuffix e.source.host)) →
      let after := l.foldl (PlacementPass.account suffixes) pass
      after.decisions = pass.decisions ∧
        after.rowForeignIgnoredIds = pass.rowForeignIgnoredIds ∧
        after.foreignIgnoredIds =
          pass.foreignIgnoredIds ++ (l.filter rules.isIgnored).map SnapshotListEntry.id ∧
        after.foreignCount = pass.foreignCount + (l.filter rules.isForeign).length := by
  induction l with
  | nil => simp
  | cons e rest ih =>
    intro pass hdecisions hsuffixes
    have hdecision := hdecisions e List.mem_cons_self
    have hsuffix := hsuffixes e List.mem_cons_self
    have hstep : (pass.account suffixes e).decisions = pass.decisions ∧
        (pass.account suffixes e).rowForeignIgnoredIds = pass.rowForeignIgnoredIds ∧
        (pass.account suffixes e).foreignIgnoredIds =
          pass.foreignIgnoredIds ++ (if rules.isIgnored e then [e.id] else []) ∧
        (pass.account suffixes e).foreignCount =
          pass.foreignCount + (if rules.isForeign e then 1 else 0) := by
      simp only [PlacementPass.account, hdecision, hsuffix, Option.join_some,
        PlacementRules.isForeign, PlacementRules.isIgnored]
      by_cases hignored : (rules.decide e.source.host == .foreignIgnored) = true <;>
        by_cases hforeign : (rules.foreignSuffix e.source.host).isSome = true <;>
          simp [hignored, hforeign]
    obtain ⟨hd, hr, hids, hcount⟩ := hstep
    have ih := ih (pass.account suffixes e)
      (fun e' he' => by rw [hd]; exact hdecisions e' (List.mem_cons_of_mem e he'))
      (fun e' he' => hsuffixes e' (List.mem_cons_of_mem e he'))
    obtain ⟨hd', hr', hids', hcount'⟩ := ih
    refine ⟨hd'.trans hd, hr'.trans hr, ?_, ?_⟩
    · rw [List.foldl_cons, hids', hids]
      cases h : rules.isIgnored e <;> simp [h]
    · rw [List.foldl_cons, hcount', hcount]
      cases h : rules.isForeign e <;> simp [h, Nat.add_assoc, Nat.add_comm]

theorem planPlacements_spec (listing : List SnapshotListEntry) (rows : List HostedRow)
    (cluster : Option String) (foreign : ForeignSnapshots) (placement : Placement)
    (nsAllowed : List (String × Bool)) :
    let rules := PlacementRules.new cluster foreign placement nsAllowed
    let pass := planPlacements listing rows cluster foreign placement nsAllowed
    (∀ e ∈ listing, pass.decisions.lookup e.source.host = some (rules.decide e.source.host)) ∧
      pass.foreignIgnoredIds = (listing.filter rules.isIgnored).map SnapshotListEntry.id ∧
      pass.foreignCount = (listing.filter rules.isForeign).length := by
  intro rules pass
  obtain ⟨seen, hdecides, hseen⟩ := decideHosts_decides rules listing
  have hdecisions : ∀ e ∈ listing, (decideHosts rules listing).decisions.lookup e.source.host =
      some (rules.decide e.source.host) := fun e he => by
    rw [hdecides.decisions, if_pos ((hseen _).mpr ⟨e, he, rfl⟩)]
  have hsuffixes : ∀ e ∈ listing, (decideHosts rules listing).suffixes.lookup e.source.host =
      some (rules.foreignSuffix e.source.host) := fun e he => by
    rw [hdecides.suffixes, if_pos ((hseen _).mpr ⟨e, he, rfl⟩)]
  obtain ⟨hd, -, hids, hcount⟩ := foldl_account rules
    { decisions := (decideHosts rules listing).decisions
      rowForeignIgnoredIds := ((outOfWindowRowHosts listing rows).filter fun (_, host) =>
        ((decideHosts rules listing).decisions.lookup host).getD (rules.decide host) ==
          .foreignIgnored).map Prod.fst } hdecisions hsuffixes
  refine ⟨fun e he => ?_, hids.trans (List.nil_append _), hcount.trans (Nat.zero_add _)⟩
  exact (congrArg (fun decisions => decisions.lookup e.source.host) hd).trans (hdecisions e he)

end Pass

section Prefilter

variable (cluster : Option String) (foreign : ForeignSnapshots) (placement : Placement)
  (nsAllowed : List (String × Bool))

def PlacementRules.isDropped (r : PlacementRules) (e : SnapshotListEntry) : Bool :=
  r.foreign == .ignore && (r.foreignSuffix e.source.host).isSome

theorem cluster_of_foreign {host suffix : String} {cluster : Option String}
    (h : classifyHostname host cluster = .foreignCluster suffix) :
    cluster.any (fun c => !c.isEmpty) = true := by
  cases cluster with
  | none => cases h
  | some c =>
    rw [Option.any_some]
    cases hempty : c.isEmpty with
    | false => rfl
    | true =>
      simp only [classifyHostname, Option.filter, hempty] at h
      cases h

theorem applyForeignPrefilter_eq (listing : List SnapshotListEntry) :
    let rules := PlacementRules.new cluster foreign placement nsAllowed
    applyForeignPrefilter listing (prefilterCluster cluster foreign) =
      (listing.filter fun e => !rules.isDropped e, (listing.filter rules.isDropped).length) := by
  intro rules
  by_cases harmed : (cluster.any (fun c => !c.isEmpty) && foreign == .ignore) = true
  · rw [Bool.and_eq_true] at harmed
    obtain ⟨c, rfl⟩ : ∃ c, cluster = some c := by
      cases cluster with
      | none => cases harmed.1
      | some c => exact ⟨c, rfl⟩
    have hpre : prefilterCluster (some c) foreign = some c := by
      simp only [prefilterCluster, harmed.1, harmed.2]
      rfl
    have hdropped : ∀ e, rules.isDropped e =
        match classifyHostname e.source.host (some c) with
        | .foreignCluster _ => true
        | .bare _ | .ownCluster _ => false := by
      intro e
      have hforeign : rules.foreign == .ignore := harmed.2
      rw [PlacementRules.isDropped, hforeign, Bool.true_and, PlacementRules.foreignSuffix]
      change (match classifyHostname e.source.host (some c) with
        | .foreignCluster suffix => some suffix
        | .bare _ | .ownCluster _ => none).isSome = _
      cases classifyHostname e.source.host (some c) <;> rfl
    rw [hpre, funext hdropped]
    rfl
  · have hpre : prefilterCluster cluster foreign = none := by
      simp only [prefilterCluster, harmed]
      rfl
    have hkeep : ∀ e, rules.isDropped e = false := by
      intro e
      by_contra hdropped
      rw [Bool.not_eq_false, PlacementRules.isDropped, Bool.and_eq_true] at hdropped
      obtain ⟨hignore, hforeign⟩ := hdropped
      rw [PlacementRules.foreignSuffix] at hforeign
      split at hforeign
      · next suffix hsuffix =>
        exact harmed (Bool.and_eq_true _ _ ▸ ⟨cluster_of_foreign hsuffix, hignore⟩)
      · cases hforeign
      · cases hforeign
    rw [hpre, funext hkeep]
    simp [applyForeignPrefilter]

theorem ignored_of_dropped {e : SnapshotListEntry} :
    let rules := PlacementRules.new cluster foreign placement nsAllowed
    rules.isDropped e = true → rules.isIgnored e = true ∧ rules.isForeign e = true := by
  intro rules hdropped
  rw [PlacementRules.isDropped, Bool.and_eq_true] at hdropped
  obtain ⟨hignore, hforeign⟩ := hdropped
  obtain ⟨suffix, hsuffix⟩ : ∃ suffix,
      classifyHostname e.source.host rules.cluster = .foreignCluster suffix := by
    rw [PlacementRules.foreignSuffix] at hforeign
    split at hforeign
    · next suffix hsuffix => exact ⟨suffix, hsuffix⟩
    · cases hforeign
    · cases hforeign
  have hdecided : rules.decide e.source.host = .foreignIgnored := by
    have hforeign : rules.foreign = .ignore := eq_of_beq hignore
    rw [PlacementRules.decide, hsuffix]
    cases rules.placement with
    | namespace_ ns => rfl
    | cluster fallback =>
      simp only [decideClusterPlacement, hforeign]
  exact ⟨beq_iff_eq.mpr hdecided, by rw [PlacementRules.isForeign, hforeign, Bool.true_or]⟩

end Prefilter

-- Plans over a complete listing

theorem keptRows_complete (s : ScanInputs) (rows : List CatalogRow)
    (listing : List SnapshotListEntry) : keptRows s rows listing .complete = [] := by
  have hnone : outOfWindowCandidates rows (listing.map SnapshotListEntry.id)
      (s.rowFilter .complete) = [] := by
    rw [outOfWindowCandidates, List.filter_eq_nil_iff]
    intro r _
    simp [RowFilter.admits, ScanInputs.rowFilter, presenceUnrefuted]
  rw [keptRows, hnone]
  rfl

theorem planCatalog_complete {s s' : ScanInputs} {listing listing' : List SnapshotListEntry}
    (rows : List CatalogRow) (hbounds : s'.bounds = s.bounds)
    (heligible : listing'.filter s'.eligible = listing.filter s.eligible) :
    planCatalog s' rows listing' .complete = planCatalog s rows listing .complete := by
  have hwindow : s'.window listing' = s.window listing := by
    simp only [ScanInputs.window, windowKeep]
    simp only [ScanInputs.eligible] at heligible
    rw [heligible, hbounds]
  simp only [planCatalog, keptRows_complete, hwindow]

theorem mem_ignoredIds {p : SnapshotListEntry → Bool} {listing : List SnapshotListEntry}
    (hids : (listing.map SnapshotListEntry.id).Nodup) {e : SnapshotListEntry} (he : e ∈ listing) :
    e.id ∈ (listing.filter p).map SnapshotListEntry.id ↔ p e = true := by
  constructor
  · intro hmem
    obtain ⟨e', he', hid⟩ := List.mem_map.mp hmem
    obtain ⟨hlisted, hp⟩ := List.mem_filter.mp he'
    obtain rfl := List.inj_on_of_nodup_map hids hlisted he hid
    exact hp
  · exact fun hp => List.mem_map_of_mem (List.mem_filter.mpr ⟨he, hp⟩)

/-- The prefilter changes neither the plan nor what the repository counts as foreign,
whichever rows either pass classifies. -/
theorem foreignPrefilter_transparent (cluster : Option String) (catalog : Option CatalogBounds)
    (placement : Placement) (nsAllowed : List (String × Bool)) (listing : List SnapshotListEntry)
    (hids : (listing.map SnapshotListEntry.id).Nodup) (rows classified classified' : List HostedRow)
    (producedIds : List String) (retain : Option CatalogRetain) (now : DateTime) :
    let foreign := effectiveForeignSnapshots catalog
    let (kept, dropped) := applyForeignPrefilter listing (prefilterCluster cluster foreign)
    let full := planPlacements listing classified cluster foreign placement nsAllowed
    let filtered := planPlacements kept classified' cluster foreign placement nsAllowed
    let plan := planCatalog (full.inputs producedIds retain now)
      (rows.map HostedRow.toCatalogRow) listing .complete
    planCatalog (filtered.inputs producedIds retain now) (rows.map HostedRow.toCatalogRow) kept
        .complete = plan ∧
      (∀ e ∈ plan.create, filtered.decisions.lookup e.source.host =
        full.decisions.lookup e.source.host) ∧
      filtered.foreignCount + dropped = full.foreignCount := by
  intro foreign
  let rules := PlacementRules.new cluster foreign placement nsAllowed
  let kept := listing.filter fun e => !rules.isDropped e
  rw [applyForeignPrefilter_eq cluster foreign placement nsAllowed]
  change let full := planPlacements listing classified cluster foreign placement nsAllowed
    let filtered := planPlacements kept classified' cluster foreign placement nsAllowed
    let plan := planCatalog (full.inputs producedIds retain now)
      (rows.map HostedRow.toCatalogRow) listing .complete
    _ ∧ _ ∧ filtered.foreignCount + (listing.filter rules.isDropped).length = full.foreignCount
  intro full filtered plan
  obtain ⟨hdecided, hignored, hcount⟩ :=
    planPlacements_spec listing classified cluster foreign placement nsAllowed
  obtain ⟨hdecided', hignored', hcount'⟩ :=
    planPlacements_spec kept classified' cluster foreign placement nsAllowed
  have hdropped : ∀ e, rules.isDropped e = true →
      rules.isIgnored e = true ∧ rules.isForeign e = true :=
    fun e => ignored_of_dropped cluster foreign placement nsAllowed
  have hkept : (kept.map SnapshotListEntry.id).Nodup := (List.filter_sublist.map _).nodup hids
  have hin : ∀ e ∈ listing, e.id ∈ full.foreignIgnoredIds ↔ rules.isIgnored e = true :=
    fun e he => hignored ▸ mem_ignoredIds hids he
  have hin' : ∀ e ∈ kept, e.id ∈ filtered.foreignIgnoredIds ↔ rules.isIgnored e = true :=
    fun e he => hignored' ▸ mem_ignoredIds hkept he
  have heligible : kept.filter (filtered.inputs producedIds retain now).eligible =
      listing.filter (full.inputs producedIds retain now).eligible := by
    rw [List.filter_filter]
    refine List.filter_congr fun e he => ?_
    have hfull : (full.inputs producedIds retain now).eligible e =
        (decide (e.id ∉ producedIds) && !rules.isIgnored e &&
          (RetainBounds.new retain now).withinAge e.endTime) := by
      have hid : decide (e.id ∉ full.foreignIgnoredIds) = !rules.isIgnored e := by
        simp [hin e he]
      rw [← hid]
      rfl
    cases hdrop : rules.isDropped e with
    | true => simp [hfull, (hdropped e hdrop).1]
    | false =>
      have hmem : e ∈ kept := List.mem_filter.mpr ⟨he, by simp [hdrop]⟩
      have hid : decide (e.id ∉ filtered.foreignIgnoredIds) = !rules.isIgnored e := by
        simp [hin' e hmem]
      rw [hfull, ← hid, Bool.not_false, Bool.and_true]
      rfl
  refine ⟨planCatalog_complete _ rfl heligible, fun e he => ?_, ?_⟩
  · obtain ⟨hwindow, -⟩ := (mem_create hids).mp he
    have hmem := List.mem_filter.mpr (eligible_of_window hwindow)
    rw [← heligible] at hmem
    have hmem := (List.mem_filter.mp hmem).1
    rw [hdecided' e hmem, hdecided e (List.mem_filter.mp hmem).1]
  · have hsplit : (kept.filter rules.isForeign).length + (listing.filter rules.isDropped).length =
        (listing.filter rules.isForeign).length := by
      have hor : ∀ e ∈ listing, (rules.isDropped e || !rules.isDropped e && rules.isForeign e) =
          rules.isForeign e := by
        intro e _
        cases hdrop : rules.isDropped e with
        | true => simp [(hdropped e hdrop).2]
        | false => simp
      have hperm := filter_or_perm (p := rules.isDropped)
        (q := fun e => !rules.isDropped e && rules.isForeign e) (l := listing) (by simp +contextual)
      have hlength := hperm.length_eq
      rw [List.filter_congr hor, List.length_append, Nat.add_comm] at hlength
      rw [← hlength, List.filter_filter]
      simp only [Bool.and_comm]
    rw [hcount, ← hsplit, hcount']

def sharedListing : List SnapshotListEntry :=
  [{ id := "k1", source := ⟨"billing.west", "app", "/data"⟩, startTime := 0, endTime := 1 },
    { id := "k2", source := ⟨"billing.east", "app", "/data"⟩, startTime := 2, endTime := 3 }]

theorem foreignPrefilter_transparent_shared :
    (sharedListing.map SnapshotListEntry.id).Nodup ∧
      let (kept, dropped) := applyForeignPrefilter sharedListing
        (prefilterCluster (some "east") (effectiveForeignSnapshots none))
      kept.length = 1 ∧ dropped = 1 ∧
        (planPlacements kept [] (some "east") .ignore (.namespace_ "billing") []).foreignCount +
            dropped =
          (planPlacements sharedListing [] (some "east") .ignore (.namespace_ "billing")
            []).foreignCount := by
  have hids : (sharedListing.map SnapshotListEntry.id).Nodup := by decide
  exact ⟨hids, rfl, rfl,
    (foreignPrefilter_transparent (some "east") none (.namespace_ "billing") [] sharedListing hids
      [{ namespace_ := "billing", name := "old", snapshotId := "k1" }] [] [] [] none 4).2.2⟩

end Kopiur
