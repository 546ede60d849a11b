import Kopiur.Controller.Verification
import Kopiur.Lib.Runs

/-!
# Verification over time

Policies are edited, selectors match other PVCs, verify Jobs finish in any order
and stamp their keys, and reconciles fold what they find. What a reconcile
publishes is compared with the verifications that really ran.
-/

namespace Kopiur

open Lib

-- Cells

/-- What one verify Job verifies, and the key it stamps; without a key it writes
the flat field. -/
structure VerifyCell where
  repository : String
  path : Option String
  key : Option String
deriving DecidableEq

def verifyCell (policy : VerifiedPolicy) (r : RepositoryRef) (m : VerifyMember) : VerifyCell where
  repository := repoKey r policy.ns
  path := (verifyPath policy m).toOption.join
  key := stampKey (if isMultiRepo policy.spec then some (repoKey r policy.ns) else none) m.memberTag

/-- The cells of a policy, none while its selectors match nothing. Without
verification every repository is one cell. -/
def verifyCells (policy : VerifiedPolicy) (matched : Nat → List PvcTargetRef) :
    Option (List VerifyCell) := do
  let repositories ← policyRepositories policy
  let members ← currentMembers policy matched
  if policy.verification.isSome && members.isEmpty then none
  else
    let members := if members.isEmpty then [{}] else members
    some (repositories.targets.flatMap fun r => members.map (verifyCell policy r))

structure Verified where
  cell : VerifyCell
  time : DateTime
deriving DecidableEq

structure VerifyWorld where
  policy : VerifiedPolicy
  matched : Nat → List PvcTargetRef
  status : VerificationStatus := {}
  runs : List VerifyCell := []
  verified : List Verified := []
  -- The verification behind each stamp, the last of a key first.
  stampedBy : List (String × Verified) := []
  -- The entries of the repositories were last folded over members.
  fanned : Bool := false

inductive VerifyEvent
  | edit (policy : VerifiedPolicy) (matched : Nat → List PvcTargetRef)
  | reconcile
  | spawn (cell : VerifyCell)
  /-- A Job fails, or succeeds at an instant and stamps it. -/
  | finish (run : Nat) (outcome : Option DateTime)
  /-- A Job succeeds and its status write is lost. -/
  | lose (run : Nat) (time : DateTime)

section System

variable (rfc : Rfc3339)

/-- The success body of a verify Job. -/
def verifyOkBody (status : VerificationStatus) (key : Option String) (now : DateTime) :
    VerificationStatus :=
  match key with
  | none => { status with lastVerified := some (rfc.render now) }
  | some k => { status with
      verificationStamps := (k, rfc.render now) :: status.verificationStamps }

def VerifyFold.fanned (old : Bool) : VerifyFold → Bool
  | .grid mv => !mv.members.isEmpty
  | _ => old

def verifyStep (s : VerifyWorld) : VerifyEvent → Option VerifyWorld
  | .edit policy matched => some { s with policy, matched }
  | .reconcile => do
    let (fold, status) ← reconcileVerification rfc s.policy s.matched s.status
    some { s with status, fanned := fold.fanned s.fanned }
  | .spawn cell =>
    -- A run whose path cannot be derived is not started.
    if s.policy.verification.isSome ∧ (∃ cells ∈ verifyCells s.policy s.matched, cell ∈ cells) ∧
        (cell.path.isSome ∨ s.policy.spec.sources = []) then
      some { s with runs := s.runs ++ [cell] }
    else none
  | .finish run outcome => do
    let cell ← s.runs[run]?
    match outcome with
    | none => some { s with runs := s.runs.eraseIdx run }
    | some now =>
      some { s with
        runs := s.runs.eraseIdx run
        status := verifyOkBody rfc s.status cell.key now
        verified := ⟨cell, now⟩ :: s.verified
        stampedBy := (cell.key.toList.map fun k => (k, ⟨cell, now⟩)) ++ s.stampedBy }
  | .lose run now => do
    let cell ← s.runs[run]?
    some { s with runs := s.runs.eraseIdx run, verified := ⟨cell, now⟩ :: s.verified }

end System

def VerifyWorld.Owns (s : VerifyWorld) (k : String) (c : VerifyCell) : Prop :=
  (∀ run ∈ s.runs, run.key = some k → run = c) ∧
    ∀ v ∈ s.stampedBy.lookup k, (s.status.verificationStamps.lookup k).isSome → v.cell = c

instance (s : VerifyWorld) (k : String) (c : VerifyCell) : Decidable (s.Owns k c) :=
  inferInstanceAs (Decidable (_ ∧ _))

def VerifyWorld.Cleared (s : VerifyWorld) (c : VerifyCell) : Prop :=
  s.fanned = true → c.key = some c.repository →
    ∀ e ∈ s.status.verification, e.lastVerified.isSome → repoKey e.repository "" ≠ c.repository

instance (s : VerifyWorld) (c : VerifyCell) : Decidable (s.Cleared c) :=
  inferInstanceAs (Decidable (_ → _ → ∀ e ∈ _, _ → _ ≠ _))

/-- An edit hands no stamp key on to another cell, and no folded entry on to a
repository without members. -/
def VerifyOk (s : VerifyWorld) : VerifyEvent → Prop
  | .edit policy matched =>
    (∀ r ∈ policy.spec.repositories, '#' ∉ (repoKey r policy.ns).toList) ∧
    ∀ cells ∈ verifyCells policy matched, ∀ c ∈ cells, (∀ k ∈ c.key, s.Owns k c) ∧ s.Cleared c
  | _ => True

instance (s : VerifyWorld) (a : VerifyEvent) : Decidable (VerifyOk s a) :=
  match a with
  | .edit policy matched =>
    inferInstanceAs (Decidable ((∀ r ∈ policy.spec.repositories,
      '#' ∉ (repoKey r policy.ns).toList) ∧
      ∀ cells ∈ verifyCells policy matched, ∀ c ∈ cells, (∀ k ∈ c.key, s.Owns k c) ∧ s.Cleared c))
  | .reconcile => inferInstanceAs (Decidable True)
  | .spawn _ => inferInstanceAs (Decidable True)
  | .finish _ _ => inferInstanceAs (Decidable True)
  | .lose _ _ => inferInstanceAs (Decidable True)

-- The grid of a reconcile

section Grid

variable {rfc : Rfc3339} {policy : VerifiedPolicy} {matched : Nat → List PvcTargetRef}
  {status status' : VerificationStatus} {fold : VerifyFold} {members : List VerifyMember}
  {k : String}

def taggedMember (path : String) : VerifyMember := ⟨some path, some (memberTag path)⟩

theorem tagMembers_ok {paths : List String} {byTag : List (String × String)}
    (h : tagMembers memberTag paths byTag = .ok members) :
    members = paths.map taggedMember ∧ (paths.map memberTag).Nodup ∧
      ∀ p ∈ paths, byTag.lookup (memberTag p) = none := by
  induction paths generalizing byTag members with
  | nil =>
    cases h
    exact ⟨rfl, List.nodup_nil, by simp⟩
  | cons path rest ih =>
    rw [tagMembers] at h
    split at h
    · cases h
    · next hfree =>
      cases hrest : tagMembers memberTag rest ((memberTag path, path) :: byTag) with
      | error e =>
        rw [hrest] at h
        cases h
      | ok tagged =>
        rw [hrest] at h
        cases h
        obtain ⟨rfl, hnodup, hnone⟩ := ih hrest
        have hother : ∀ p ∈ rest, memberTag p ≠ memberTag path := by
          intro p hp heq
          have := hnone p hp
          rw [heq, List.lookup_cons_self] at this
          cases this
        refine ⟨rfl, List.nodup_cons.mpr ⟨fun hmem => ?_, hnodup⟩, ?_⟩
        · obtain ⟨p, hp, heq⟩ := List.mem_map.mp hmem
          exact hother p hp heq
        · intro p hp
          rcases List.mem_cons.mp hp with rfl | hp
          · exact hfree
          · have := hnone p hp
            rwa [List.lookup_cons, beq_false_of_ne (hother p hp)] at this

theorem verifyMembers_cases (h : verifyMembers policy matched = .ok members) :
    members = [{}] ∨
      ∃ paths : List String, members = paths.map taggedMember ∧ (paths.map memberTag).Nodup := by
  unfold verifyMembers at h
  split at h
  · cases h
    exact .inl rfl
  · obtain ⟨hmembers, hnodup, -⟩ := tagMembers_ok h
    exact .inr ⟨_, hmembers, hnodup⟩

/-- The two shapes of a grid: repositories without members, and with. -/
inductive GridShape (policy : VerifiedPolicy) : List VerifyCell → MultiVerification → Prop
  | plain (path : Option String) (folded : FoldedVerification)
      (hne : policy.spec.repositories ≠ []) :
      GridShape policy
        (policy.spec.repositories.map fun r =>
          ⟨repoKey r policy.ns, path, some (repoKey r policy.ns)⟩)
        { currentRepos := policy.spec.repositories.map fun r =>
            (normalizedRepositoryRef r policy.ns, repoKey r policy.ns)
          members := []
          publishEntries := true
          folded }
  | fan (rs : List RepositoryRef) (paths : List String) (segment : RepositoryRef → String)
      (publishEntries : Bool) (folded : FoldedVerification) (hrs : rs ≠ []) (hpaths : paths ≠ [])
      (htags : (paths.map memberTag).Nodup)
      (hsegment : ∀ r ∈ rs, ∀ r' ∈ rs, segment r = segment r' →
        repoKey r policy.ns = repoKey r' policy.ns)
      (hkeys : ∀ r ∈ rs, ∀ m, segment r ++ "#" ++ m ≠ repoKey r policy.ns) :
      GridShape policy
        (rs.flatMap fun r => paths.map fun p =>
          ⟨repoKey r policy.ns, some p, some (segment r ++ "#" ++ memberTag p)⟩)
        { currentRepos := rs.map fun r => (normalizedRepositoryRef r policy.ns, segment r)
          members := paths.map memberTag
          publishEntries
          folded }

theorem verifyCell_plain (r : RepositoryRef) (hmulti : isMultiRepo policy.spec = true) :
    verifyCell policy r {} =
      ⟨repoKey r policy.ns, (verifyPath policy {}).toOption.join, some (repoKey r policy.ns)⟩ := by
  simp [verifyCell, hmulti, stampKey]

theorem verifyCell_tagged (r : RepositoryRef) (p : String) :
    verifyCell policy r (taggedMember p) = ⟨repoKey r policy.ns, some p,
      some ((if isMultiRepo policy.spec then repoKey r policy.ns else "") ++ "#" ++ memberTag p)⟩ := by
  unfold verifyCell
  cases isMultiRepo policy.spec <;> rfl

theorem filterMap_taggedMember (paths : List String) :
    (paths.map taggedMember).filterMap VerifyMember.memberTag = paths.map memberTag := by
  induction paths with
  | nil => rfl
  | cons p rest ih => simp [taggedMember, ih]

theorem hash_ne_repoKey (r : RepositoryRef) (m : String) : "" ++ "#" ++ m ≠ repoKey r policy.ns := by
  intro heq
  have hhead := congrArg (fun s => s.toList.head?) heq
  unfold repoKey at hhead
  split at hhead <;> simp [String.toList_append] at hhead

/-- The grid of some repositories with their segments. -/
def gridOf (rfc : Rfc3339) (policy : VerifiedPolicy) (status : VerificationStatus)
    (currentRepos : List (RepositoryRef × String)) (members : List String)
    (publishEntries : Bool) : MultiVerification where
  currentRepos
  members
  publishEntries
  folded := foldVerification rfc currentRepos status.verification status.verificationStamps
    members policy.ns

theorem fold_single (r : RepositoryRef)
    (hdecided : (policy.verification.isSome && members.isEmpty) = false) :
    foldMultiVerification rfc policy status (.single r) members =
      if members.filterMap VerifyMember.memberTag = [] then .flat
      else .grid (gridOf rfc policy status [(normalizedRepositoryRef r policy.ns, "")]
        (members.filterMap VerifyMember.memberTag) false) := by
  unfold foldMultiVerification
  rw [hdecided]
  cases members.filterMap VerifyMember.memberTag <;> rfl

theorem fold_multi {rs : List RepositoryRef} (hrs : rs ≠ [])
    (hdecided : (policy.verification.isSome && members.isEmpty) = false) :
    foldMultiVerification rfc policy status (.multi rs) members =
      .grid (gridOf rfc policy status
        (rs.map fun r => (normalizedRepositoryRef r policy.ns, repoKey r policy.ns))
        (members.filterMap VerifyMember.memberTag) true) := by
  unfold foldMultiVerification
  rw [hdecided]
  cases rs with
  | nil => exact absurd rfl hrs
  | cons r rest => rfl

theorem policyRepositories_cases {repositories : PolicyRepositories}
    (h : policyRepositories policy = some repositories) :
    (∃ r, repositories = .single r ∧ isMultiRepo policy.spec = false) ∨
      (repositories = .multi policy.spec.repositories ∧ isMultiRepo policy.spec = true ∧
        policy.spec.repositories ≠ []) := by
  unfold policyRepositories at h
  split at h
  · next r _ hm =>
    cases h
    exact .inl ⟨r, rfl, hm⟩
  · next _ hm =>
    cases h
    exact .inr ⟨rfl, hm, by simpa [isMultiRepo] using hm⟩
  · cases h

theorem currentMembers_cases (h : currentMembers policy matched = some members) :
    (policy.verification.isSome && members.isEmpty) = true ∨
      ((policy.verification.isSome && members.isEmpty) = false ∧
        ((if members.isEmpty then [{}] else members) = [({} : VerifyMember)] ∧
          members.filterMap VerifyMember.memberTag = [] ∨
        ∃ paths : List String, paths ≠ [] ∧ members = paths.map taggedMember ∧
          (paths.map memberTag).Nodup)) := by
  cases hv : policy.verification.isSome with
  | false =>
    rw [currentMembers, hv] at h
    cases h
    exact .inr ⟨rfl, .inl ⟨rfl, rfl⟩⟩
  | true =>
    rw [currentMembers, hv, if_pos rfl] at h
    cases hok : verifyMembers policy matched with
    | error e =>
      rw [hok] at h
      cases h
    | ok ms =>
      rw [hok] at h
      cases h
      rcases verifyMembers_cases hok with rfl | ⟨paths, rfl, hnodup⟩
      · exact .inr ⟨rfl, .inl ⟨rfl, rfl⟩⟩
      · cases paths with
        | nil => exact .inl rfl
        | cons p rest => exact .inr ⟨rfl, .inr ⟨p :: rest, by simp, rfl, hnodup⟩⟩

theorem reconcileVerification_cases
    (h : reconcileVerification rfc policy matched status = some (fold, status')) :
    (fold = .undecided ∧ status' = status ∧ verifyCells policy matched = none) ∨
    (fold = .flat ∧ status' = { status with verification := [], verificationStamps := [] } ∧
      ∃ cells, verifyCells policy matched = some cells ∧ ∀ c ∈ cells, c.key = none) ∨
    ∃ currentRepos members publishEntries cells,
      fold = .grid (gridOf rfc policy status currentRepos members publishEntries) ∧
      status' = status.merge (finalStatusBody status
        (.grid (gridOf rfc policy status currentRepos members publishEntries))) ∧
      verifyCells policy matched = some cells ∧
      GridShape policy cells (gridOf rfc policy status currentRepos members publishEntries) := by
  simp only [reconcileVerification, Option.bind_eq_bind, Option.bind_eq_some_iff] at h
  obtain ⟨repositories, hrepos, members, hmembers, h⟩ := h
  cases h
  rcases currentMembers_cases hmembers with hnone | ⟨hdecided, hms⟩
  · refine .inl ⟨?_, ?_, ?_⟩
    · simp [foldMultiVerification, hnone]
    · simp [foldMultiVerification, hnone, merge_undecided]
    · simp only [verifyCells, hrepos, hmembers, Option.bind_eq_bind, Option.bind_some, hnone, if_true]
  have hcells : verifyCells policy matched = some (repositories.targets.flatMap fun r =>
      (if members.isEmpty then [{}] else members).map (verifyCell policy r)) := by
    simp only [verifyCells, hrepos, hmembers, Option.bind_eq_bind, Option.bind_some, hdecided,
      Bool.false_eq_true, if_false]
  rcases hms with ⟨hone, htags⟩ | ⟨paths, hpaths, rfl, hnodup⟩
  · rw [hone] at hcells
    rcases policyRepositories_cases hrepos with ⟨r, rfl, hsingle⟩ | ⟨rfl, hmulti, hne⟩
    · refine .inr (.inl ?_)
      rw [fold_single r hdecided, if_pos htags]
      refine ⟨rfl, merge_flat, _, hcells, fun c hc => ?_⟩
      rw [PolicyRepositories.targets, List.flatMap_singleton, List.map_singleton,
        List.mem_singleton] at hc
      simp [hc, verifyCell, hsingle, stampKey]
    · refine .inr (.inr ⟨_, _, _, _, fold_multi hne hdecided, ?_, hcells, ?_⟩)
      · rw [fold_multi hne hdecided]
      · rw [htags]
        have hshape := @GridShape.plain policy (verifyPath policy {}).toOption.join
          (gridOf rfc policy status (policy.spec.repositories.map fun r =>
            (normalizedRepositoryRef r policy.ns, repoKey r policy.ns)) [] true).folded hne
        have hmap : (policy.spec.repositories.flatMap fun r =>
            [({} : VerifyMember)].map (verifyCell policy r)) =
              policy.spec.repositories.map fun r => ⟨repoKey r policy.ns,
                (verifyPath policy {}).toOption.join, some (repoKey r policy.ns)⟩ := by
          simp only [List.map_cons, List.map_nil, verifyCell_plain _ hmulti]
          rw [← List.map_eq_flatMap]
        rw [PolicyRepositories.targets, hmap]
        exact hshape
  · have hsome : (if (paths.map taggedMember).isEmpty then [{}] else paths.map taggedMember) =
        paths.map taggedMember := by
      cases paths with
      | nil => exact absurd rfl hpaths
      | cons p rest => rfl
    have htags := filterMap_taggedMember paths
    rw [hsome] at hcells
    have hmap : ∀ (rs : List RepositoryRef) (segment : RepositoryRef → String),
        (∀ r, (if isMultiRepo policy.spec then repoKey r policy.ns else "") = segment r) →
        (rs.flatMap fun r => (paths.map taggedMember).map (verifyCell policy r)) =
          rs.flatMap fun r => paths.map fun p =>
            ⟨repoKey r policy.ns, some p, some (segment r ++ "#" ++ memberTag p)⟩ := by
      intro rs segment hsegment
      simp only [List.map_map, Function.comp_def, verifyCell_tagged, hsegment]
    rcases policyRepositories_cases hrepos with ⟨r, rfl, hsingle⟩ | ⟨rfl, hmulti, hne⟩
    · have hfold : foldMultiVerification rfc policy status (.single r) (paths.map taggedMember) =
          .grid (gridOf rfc policy status [(normalizedRepositoryRef r policy.ns, "")]
            (paths.map memberTag) false) := by
        rw [fold_single r hdecided, htags, if_neg (by simpa using hpaths)]
      rw [hmap _ (fun _ => "") fun _ => by simp [hsingle]] at hcells
      exact .inr (.inr ⟨_, _, _, _, hfold, by rw [hfold], hcells,
        .fan [r] paths (fun _ => "") false _ (by simp) hpaths hnodup (by simp)
          fun r _ m => hash_ne_repoKey r m⟩)
    · rw [hmap _ (fun r => repoKey r policy.ns) fun _ => by simp [hmulti]] at hcells
      refine .inr (.inr ⟨_, _, _, _, fold_multi hne hdecided, by rw [fold_multi hne hdecided], hcells, ?_⟩)
      rw [htags]
      refine .fan policy.spec.repositories paths (fun r => repoKey r policy.ns) true _ hne hpaths
        hnodup (fun _ _ _ _ heq => heq) fun r _ m heq => ?_
      have hlength := congrArg String.length heq
      simp only [String.length_append] at hlength
      have : "#".length = 1 := rfl
      omega

theorem GridShape.key_inj {cells : List VerifyCell} {mv : MultiVerification}
    (h : GridShape policy cells mv) {c c' : VerifyCell} (hc : c ∈ cells) (hc' : c' ∈ cells)
    (hkey : c.key = c'.key) : c = c' := by
  cases h with
  | plain path folded hne =>
    obtain ⟨r, -, rfl⟩ := List.mem_map.mp hc
    obtain ⟨r', -, rfl⟩ := List.mem_map.mp hc'
    have hrepo : repoKey r policy.ns = repoKey r' policy.ns := Option.some.inj hkey
    rw [hrepo]
  | fan rs paths segment publishEntries folded hrs hpaths htags hsegment hkeys =>
    obtain ⟨r, hr, hc⟩ := List.mem_flatMap.mp hc
    obtain ⟨p, hp, rfl⟩ := List.mem_map.mp hc
    obtain ⟨r', hr', hc'⟩ := List.mem_flatMap.mp hc'
    obtain ⟨p', hp', rfl⟩ := List.mem_map.mp hc'
    have hparse := parseStampKey_member (hash_not_mem_memberTag p) (segment r)
    rw [Option.some.inj hkey, parseStampKey_member (hash_not_mem_memberTag p'), Prod.mk.injEq,
      Option.some.injEq] at hparse
    obtain ⟨hseg, htag⟩ := hparse
    rw [List.inj_on_of_nodup_map htags hp' hp htag, hsegment r' hr' r hr hseg, hseg]

theorem verifyCells_key_inj {cells : List VerifyCell}
    (hcells : verifyCells policy matched = some cells) {c c' : VerifyCell} (hc : c ∈ cells)
    (hc' : c' ∈ cells) (hk : c.key = some k) (hk' : c'.key = some k) : c = c' := by
  have hsome : ∃ out, reconcileVerification ⟨fun _ => none, fun _ => ""⟩ policy matched {} =
      some out := by
    simp only [verifyCells, Option.bind_eq_bind, Option.bind_eq_some_iff] at hcells
    obtain ⟨repositories, hrepos, members, hmembers, -⟩ := hcells
    simp only [reconcileVerification, hrepos, hmembers, Option.bind_eq_bind, Option.bind_some]
    exact ⟨_, rfl⟩
  obtain ⟨⟨fold, status'⟩, hout⟩ := hsome
  rcases reconcileVerification_cases hout with ⟨-, -, hnone⟩ | ⟨-, -, flat, hflat, hno⟩ |
    ⟨_, _, _, grid, -, -, hgrid, hshape⟩
  · rw [hcells] at hnone
    cases hnone
  · obtain rfl : flat = cells := Option.some.inj (hflat.symm.trans hcells)
    rw [hno c hc] at hk
    cases hk
  · obtain rfl : grid = cells := Option.some.inj (hgrid.symm.trans hcells)
    exact hshape.key_inj hc hc' (hk.trans hk'.symm)

end Grid

-- Stamps and their verifications

section Invariant

variable {rfc : Rfc3339} {s : VerifyWorld} {k : String} {c : VerifyCell}

structure VerifyInv (rfc : Rfc3339) (s : VerifyWorld) : Prop where
  names : ∀ r ∈ s.policy.spec.repositories, '#' ∉ (repoKey r s.policy.ns).toList
  stamped : ∀ k ts, s.status.verificationStamps.lookup k = some ts →
    ∃ v, s.stampedBy.lookup k = some v ∧ v ∈ s.verified ∧ ts = rfc.render v.time
  runs : ∀ run ∈ s.runs, ∀ k, run.key = some k → s.Owns k run
  cells : ∀ cells, verifyCells s.policy s.matched = some cells → ∀ c ∈ cells, ∀ k,
    c.key = some k → s.Owns k c
  entries : s.fanned = false → ∀ e ∈ s.status.verification, ∀ ts, e.lastVerified = some ts →
    ∃ v, s.stampedBy.lookup (repoKey e.repository "") = some v ∧
      (s.status.verificationStamps.lookup (repoKey e.repository "")).isSome ∧
      ∃ earlier ∈ s.verified, earlier.cell = v.cell ∧ ts = rfc.render earlier.time
  cleared : ∀ cells, verifyCells s.policy s.matched = some cells → ∀ c ∈ cells, s.Cleared c
  normal : ∀ e ∈ s.status.verification, ∀ ns, repoKey e.repository ns = repoKey e.repository ""

theorem VerifyInv.init {policy : VerifiedPolicy} (matched : Nat → List PvcTargetRef)
    (lastVerified : Option String)
    (hnames : ∀ r ∈ policy.spec.repositories, '#' ∉ (repoKey r policy.ns).toList) :
    VerifyInv rfc { policy, matched, status := { lastVerified } } where
  names := hnames
  stamped k ts h := by cases h
  runs run hrun := by cases hrun
  cells cells _ c _ k _ := by
    refine ⟨fun run hrun => ?_, fun v hv => ?_⟩
    · cases hrun
    · cases hv
  entries _ e he := by cases he
  cleared cells _ c _ h := by cases h
  normal e he := by cases he

theorem VerifyInv.edit (h : VerifyInv rfc s) {policy : VerifiedPolicy}
    {matched : Nat → List PvcTargetRef} (hok : VerifyOk s (.edit policy matched)) :
    VerifyInv rfc { s with policy, matched } where
  names := hok.1
  stamped := h.stamped
  runs := h.runs
  cells cells hcells c hc k hk := (hok.2 cells hcells c hc).1 k hk
  entries := h.entries
  cleared cells hcells c hc := (hok.2 cells hcells c hc).2
  normal := h.normal

theorem VerifyWorld.Owns.of_le {s' : VerifyWorld} (h : s.Owns k c)
    (hruns : ∀ run ∈ s'.runs, run ∈ s.runs) (hby : s'.stampedBy = s.stampedBy)
    (hstamps : (s'.status.verificationStamps.lookup k).isSome →
      (s.status.verificationStamps.lookup k).isSome) : s'.Owns k c :=
  ⟨fun run hrun => h.1 run (hruns run hrun), fun v hv hsome => h.2 v (hby ▸ hv) (hstamps hsome)⟩

theorem VerifyWorld.Owns.spawn (h : s.Owns k c) {new : VerifyCell}
    (hnew : new.key = some k → new = c) : { s with runs := s.runs ++ [new] }.Owns k c := by
  refine ⟨fun run hrun hk => ?_, h.2⟩
  rcases List.mem_append.mp hrun with hrun | hrun
  · exact h.1 run hrun hk
  · rw [List.mem_singleton] at hrun
    subst hrun
    exact hnew hk

variable {cells : List VerifyCell}

theorem VerifyInv.spawn (h : VerifyInv rfc s) {new : VerifyCell}
    (hcells : verifyCells s.policy s.matched = some cells) (hnew : new ∈ cells) :
    VerifyInv rfc { s with runs := s.runs ++ [new] } where
  names := h.names
  stamped := h.stamped
  runs run hrun k hk := by
    rcases List.mem_append.mp hrun with hrun | hrun
    · refine (h.runs run hrun k hk).spawn fun hkey => ?_
      exact ((h.cells cells hcells new hnew k hkey).1 run hrun hk).symm
    · rw [List.mem_singleton] at hrun
      subst hrun
      exact (h.cells cells hcells run hnew k hk).spawn fun _ => rfl
  cells cells' hcells' c hc k hk := by
    obtain rfl : cells = cells' := Option.some.inj (hcells.symm.trans hcells')
    exact (h.cells cells hcells c hc k hk).spawn fun hkey =>
      verifyCells_key_inj hcells hnew hc hkey hk
  entries := h.entries
  cleared := h.cleared
  normal := h.normal

theorem VerifyInv.leave (h : VerifyInv rfc s) {runs : List VerifyCell} {verified : List Verified}
    (hruns : ∀ run ∈ runs, run ∈ s.runs) (hverified : ∀ v ∈ s.verified, v ∈ verified) :
    VerifyInv rfc { s with runs, verified } where
  names := h.names
  stamped k ts hts := by
    obtain ⟨v, hv, hmem, rfl⟩ := h.stamped k ts hts
    exact ⟨v, hv, hverified v hmem, rfl⟩
  runs run hrun k hk := (h.runs run (hruns run hrun) k hk).of_le hruns rfl id
  cells cells hcells c hc k hk := (h.cells cells hcells c hc k hk).of_le hruns rfl id
  entries hfan e he ts hts := by
    obtain ⟨v, hv, hsome, earlier, hmem, hcell, rfl⟩ := h.entries hfan e he ts hts
    exact ⟨v, hv, hsome, earlier, hverified _ hmem, hcell, rfl⟩
  cleared := h.cleared
  normal := h.normal

/-- The state after a run stamped its key. -/
def VerifyWorld.stamp (s : VerifyWorld) (rfc : Rfc3339) (run : VerifyCell) (k : String)
    (now : DateTime) (runs : List VerifyCell) : VerifyWorld :=
  { s with
    runs
    status := { s.status with
      verificationStamps := (k, rfc.render now) :: s.status.verificationStamps }
    verified := ⟨run, now⟩ :: s.verified
    stampedBy := (k, ⟨run, now⟩) :: s.stampedBy }

theorem VerifyWorld.Owns.stamp {run : VerifyCell} {k₀ : String} {now : DateTime}
    {runs : List VerifyCell} (h : s.Owns k c) (hrun : run ∈ s.runs) (hk₀ : run.key = some k₀)
    (hruns : ∀ run ∈ runs, run ∈ s.runs) : (s.stamp rfc run k₀ now runs).Owns k c := by
  refine ⟨fun other hother => h.1 other (hruns other hother), fun v hv hsome => ?_⟩
  by_cases hk : k = k₀
  · subst hk
    simp only [VerifyWorld.stamp, List.lookup_cons_self, Option.mem_def, Option.some.injEq] at hv
    subst hv
    exact h.1 run hrun hk₀
  · simp only [VerifyWorld.stamp, List.lookup_cons, beq_false_of_ne hk] at hv hsome
    exact h.2 v hv hsome

theorem VerifyInv.stamp (h : VerifyInv rfc s) {run : VerifyCell} {k₀ : String} (now : DateTime)
    {runs : List VerifyCell} (hrun : run ∈ s.runs) (hk₀ : run.key = some k₀)
    (hruns : ∀ run ∈ runs, run ∈ s.runs) : VerifyInv rfc (s.stamp rfc run k₀ now runs) where
  names := h.names
  stamped k ts hts := by
    by_cases hk : k = k₀
    · subst hk
      simp only [VerifyWorld.stamp, List.lookup_cons_self, Option.some.injEq] at hts
      subst hts
      exact ⟨⟨run, now⟩, List.lookup_cons_self, List.mem_cons_self, rfl⟩
    · simp only [VerifyWorld.stamp, List.lookup_cons, beq_false_of_ne hk] at hts
      obtain ⟨v, hv, hmem, rfl⟩ := h.stamped k ts hts
      exact ⟨v, by simp [VerifyWorld.stamp, List.lookup_cons, beq_false_of_ne hk, hv],
        List.mem_cons_of_mem _ hmem, rfl⟩
  runs other hother k hk := (h.runs other (hruns other hother) k hk).stamp hrun hk₀ hruns
  cells cells hcells c hc k hk := (h.cells cells hcells c hc k hk).stamp hrun hk₀ hruns
  entries hfan e he ts hts := by
    obtain ⟨v, hv, hsome, earlier, hmem, hcell, rfl⟩ := h.entries hfan e he ts hts
    by_cases hk : repoKey e.repository "" = k₀
    · -- The stamp that is replaced was of the same cell.
      have hsame : v.cell = run := (h.runs run hrun k₀ hk₀).2 v (hk ▸ hv) (hk ▸ hsome)
      refine ⟨⟨run, now⟩, ?_, ?_, earlier, List.mem_cons_of_mem _ hmem, hcell.trans hsame, rfl⟩
      · rw [VerifyWorld.stamp, hk, List.lookup_cons_self]
      · simp only [VerifyWorld.stamp, hk, List.lookup_cons_self, Option.isSome_some]
    · refine ⟨v, ?_, ?_, earlier, List.mem_cons_of_mem _ hmem, hcell, rfl⟩
      · rw [VerifyWorld.stamp, List.lookup_cons, beq_false_of_ne hk]
        exact hv
      · simp only [VerifyWorld.stamp, List.lookup_cons, beq_false_of_ne hk]
        exact hsome
  cleared := h.cleared
  normal := h.normal

theorem GridShape.live_iff {policy : VerifiedPolicy} {mv : MultiVerification}
    (h : GridShape policy cells mv)
    (hnames : ∀ r ∈ policy.spec.repositories, '#' ∉ (repoKey r policy.ns).toList) (k : String) :
    stampKeyLive k (mv.currentRepos.map Prod.snd) mv.members = true ↔
      ∃ c ∈ cells, c.key = some k := by
  cases h with
  | plain path folded hne =>
    rw [stampKeyLive_iff (by simpa using hnames) (by simp)]
    simp [eq_comm]
  | fan rs paths segment publishEntries folded hrs hpaths htags hsegment hkeys =>
    have hno : paths.map memberTag ≠ [] := by simpa using hpaths
    rw [stampKeyLive_iff (fun hnil => absurd hnil hno) (by simp [hash_not_mem_memberTag])]
    simp only [hno, false_and, false_or]
    constructor
    · rintro ⟨seg, hseg, tag, htag, rfl⟩
      obtain ⟨pair, hpair, rfl⟩ := List.mem_map.mp hseg
      obtain ⟨r, hr, rfl⟩ := List.mem_map.mp hpair
      obtain ⟨p, hp, rfl⟩ := List.mem_map.mp htag
      exact ⟨_, List.mem_flatMap.mpr ⟨r, hr, List.mem_map.mpr ⟨p, hp, rfl⟩⟩, rfl⟩
    · rintro ⟨c, hc, hk⟩
      obtain ⟨r, hr, hc⟩ := List.mem_flatMap.mp hc
      obtain ⟨p, hp, rfl⟩ := List.mem_map.mp hc
      refine ⟨segment r, ?_, memberTag p, List.mem_map_of_mem hp, (Option.some.inj hk).symm⟩
      exact List.mem_map.mpr ⟨(_, segment r), List.mem_map.mpr ⟨r, hr, rfl⟩, rfl⟩

theorem VerifyInv.prior (h : VerifyInv rfc s)
    (hcells : verifyCells s.policy s.matched = some cells) (hc : c ∈ cells)
    (hkey : c.key = some c.repository) {ts : String}
    (hprior : (s.status.verification.find? fun e =>
      repoKey e.repository s.policy.ns == c.repository).bind RepoVerification.lastVerified =
        some ts) :
    ∃ v, s.stampedBy.lookup c.repository = some v ∧
      (s.status.verificationStamps.lookup c.repository).isSome ∧
      ∃ earlier ∈ s.verified, earlier.cell = v.cell ∧ ts = rfc.render earlier.time := by
  obtain ⟨e, hfind, hts⟩ := Option.bind_eq_some_iff.mp hprior
  have he := List.mem_of_find?_eq_some hfind
  have hrepo : repoKey e.repository "" = c.repository := by
    have := List.find?_some hfind
    rwa [beq_iff_eq, h.normal e he] at this
  cases hfan : s.fanned with
  | false => exact hrepo ▸ h.entries hfan e he ts hts
  | true => exact absurd hrepo (h.cleared cells hcells c hc hfan hkey e he (by simp [hts]))

theorem VerifyInv.later (h : VerifyInv rfc s) (hcells : verifyCells s.policy s.matched = some cells)
    (hc : c ∈ cells) (hkey : c.key = some c.repository) :
    ((repoCellMin rfc s.status.verification s.status.verificationStamps [] c.repository
        s.policy.ns).isSome ↔ (s.status.verificationStamps.lookup c.repository).isSome) ∧
    ∀ ts, repoCellMin rfc s.status.verification s.status.verificationStamps [] c.repository
        s.policy.ns = some ts →
      ∃ v, s.stampedBy.lookup c.repository = some v ∧
        (s.status.verificationStamps.lookup c.repository).isSome ∧
        ∃ earlier ∈ s.verified, earlier.cell = v.cell ∧ ts = rfc.render earlier.time := by
  have hprior := @VerifyInv.prior rfc s c cells h hcells hc hkey
  have hmin : repoCellMin rfc s.status.verification s.status.verificationStamps [] c.repository
      s.policy.ns = laterRfc3339 rfc ((s.status.verification.find? fun e =>
        repoKey e.repository s.policy.ns == c.repository).bind RepoVerification.lastVerified)
        (s.status.verificationStamps.lookup c.repository) := rfl
  rw [hmin]
  generalize (s.status.verification.find? fun e =>
    repoKey e.repository s.policy.ns == c.repository).bind RepoVerification.lastVerified = prior
    at hprior
  cases hstamp : s.status.verificationStamps.lookup c.repository with
  | none =>
    cases prior with
    | none => exact ⟨Iff.rfl, fun ts hts => by cases hts⟩
    | some ts =>
      obtain ⟨v, -, hsome, -⟩ := hprior rfl
      rw [hstamp] at hsome
      cases hsome
  | some stamp =>
    obtain ⟨v, hv, hmem, hrender⟩ := h.stamped _ _ hstamp
    have hown : ∃ v, s.stampedBy.lookup c.repository = some v ∧ (some stamp).isSome ∧
        ∃ earlier ∈ s.verified, earlier.cell = v.cell ∧ stamp = rfc.render earlier.time :=
      ⟨v, hv, rfl, v, hmem, rfl, hrender⟩
    cases prior with
    | none => exact ⟨by simp [laterRfc3339], fun ts hts => by cases hts; exact hown⟩
    | some prior =>
      have hback := hprior rfl
      rw [hstamp] at hback
      refine ⟨by simp only [laterRfc3339]; split <;> simp, fun ts hts => ?_⟩
      simp only [laterRfc3339] at hts
      split at hts
      · cases hts
        exact hback
      · cases hts
        exact hown

theorem repoKey_normal (r : RepositoryRef) (ns ns' : String) :
    repoKey (normalizedRepositoryRef r ns) ns' = repoKey (normalizedRepositoryRef r ns) "" := by
  rw [repoKey_normalized, repoKey_normalized]

theorem mem_gridOf_entries {repos : List (RepositoryRef × String)} {members : List String}
    {publish : Bool} {policy : VerifiedPolicy} {status : VerificationStatus}
    {e : RepoVerification} :
    e ∈ (gridOf rfc policy status repos members publish).folded.entries ↔
      ∃ p ∈ repos, e = ⟨p.1, repoCellMin rfc status.verification status.verificationStamps members
        p.2 policy.ns⟩ := by
  simp only [gridOf, foldVerification, List.mem_map, eq_comm]

theorem mem_published {status : VerificationStatus} {mv : MultiVerification} {e : RepoVerification}
    (h : e ∈ (status.merge (finalStatusBody status (.grid mv))).verification) :
    e ∈ mv.folded.entries := by
  rw [verification_merge_grid] at h
  split at h
  · exact h
  · cases h

theorem VerifyInv.reconcile_grid (h : VerifyInv rfc s) {repos : List (RepositoryRef × String)}
    {members : List String} {publish : Bool} (hcells : verifyCells s.policy s.matched = some cells)
    (hshape : GridShape s.policy cells (gridOf rfc s.policy s.status repos members publish)) :
    VerifyInv rfc { s with
      status := s.status.merge (finalStatusBody s.status
        (.grid (gridOf rfc s.policy s.status repos members publish)))
      fanned := !members.isEmpty } := by
  obtain ⟨mv, hmv⟩ : ∃ mv, mv = gridOf rfc s.policy s.status repos members publish := ⟨_, rfl⟩
  rw [← hmv] at hshape ⊢
  obtain ⟨status', hstatus⟩ : ∃ status', status' =
    s.status.merge (finalStatusBody s.status (.grid mv)) := ⟨_, rfl⟩
  rw [← hstatus]
  have hlook : ∀ k, status'.verificationStamps.lookup k =
      if ∃ c ∈ cells, c.key = some k then s.status.verificationStamps.lookup k else none := by
    intro k
    rw [hstatus, lookup_merge_grid]
    simp only [hshape.live_iff h.names k]
  have hkept : ∀ k ts, status'.verificationStamps.lookup k = some ts →
      s.status.verificationStamps.lookup k = some ts := by
    intro k ts hts
    rw [hlook] at hts
    split at hts
    · exact hts
    · cases hts
  have hle : ∀ k, (status'.verificationStamps.lookup k).isSome →
      (s.status.verificationStamps.lookup k).isSome := by
    intro k hsome
    obtain ⟨ts, hts⟩ := Option.isSome_iff_exists.mp hsome
    rw [hkept k ts hts]
    rfl
  have hentries : ∀ e ∈ status'.verification, ∃ p ∈ repos, e = ⟨p.1, repoCellMin rfc
      s.status.verification s.status.verificationStamps members p.2 s.policy.ns⟩ := by
    intro e he
    rw [hstatus] at he
    exact mem_gridOf_entries.mp (hmv ▸ mem_published he)
  have hrepos : mv.currentRepos = repos := by rw [hmv]; rfl
  have hmembers : mv.members = members := by rw [hmv]; rfl
  refine
    { names := h.names
      stamped := fun k ts hts => h.stamped k ts (hkept k ts hts)
      runs := fun run hrun k hk => (h.runs run hrun k hk).of_le (fun _ hr => hr) rfl (hle k)
      cells := fun cells hcells c hc k hk =>
        (h.cells cells hcells c hc k hk).of_le (fun _ hr => hr) rfl (hle k)
      entries := ?_
      cleared := ?_
      normal := ?_ }
  · intro hfan e he ts hts
    obtain ⟨p, hp, rfl⟩ := hentries e he
    cases hshape with
    | fan rs paths segment publishEntries folded hrs hpaths htags hsegment hkeys =>
      cases paths with
      | nil => exact absurd rfl hpaths
      | cons p rest =>
        rw [← hmembers] at hfan
        cases hfan
    | plain path folded hne =>
      rw [← hrepos] at hp
      obtain ⟨r, hr, rfl⟩ := List.mem_map.mp hp
      rw [← hmembers] at hts
      have hc : (⟨repoKey r s.policy.ns, path, some (repoKey r s.policy.ns)⟩ : VerifyCell) ∈
          s.policy.spec.repositories.map fun r =>
            ⟨repoKey r s.policy.ns, path, some (repoKey r s.policy.ns)⟩ :=
        List.mem_map.mpr ⟨r, hr, rfl⟩
      obtain ⟨v, hv, hsome, hearlier⟩ := (h.later hcells hc rfl).2 ts hts
      refine ⟨v, ?_, ?_, hearlier⟩
      · rwa [repoKey_normalized]
      · rw [repoKey_normalized, hlook, if_pos ⟨_, hc, rfl⟩]
        exact hsome
  · intro cells' hcells' c hc hfan hkey e he
    obtain rfl : cells = cells' := Option.some.inj (hcells.symm.trans hcells')
    cases hshape with
    | plain path folded hne =>
      rw [← hmembers] at hfan
      cases hfan
    | fan rs paths segment publishEntries folded hrs hpaths htags hsegment hkeys =>
      obtain ⟨r, hr, hc⟩ := List.mem_flatMap.mp hc
      obtain ⟨p, hp, rfl⟩ := List.mem_map.mp hc
      exact absurd (Option.some.inj hkey) (hkeys r hr _)
  · intro e he ns
    obtain ⟨p, hp, rfl⟩ := hentries e he
    rw [← hrepos] at hp
    cases hshape with
    | plain path folded hne =>
      obtain ⟨r, hr, rfl⟩ := List.mem_map.mp hp
      exact repoKey_normal r _ _
    | fan rs paths segment publishEntries folded hrs hpaths htags hsegment hkeys =>
      obtain ⟨r, hr, rfl⟩ := List.mem_map.mp hp
      exact repoKey_normal r _ _

theorem VerifyInv.reconcile (h : VerifyInv rfc s) {fold : VerifyFold}
    {status' : VerificationStatus}
    (hrec : reconcileVerification rfc s.policy s.matched s.status = some (fold, status')) :
    VerifyInv rfc { s with status := status', fanned := fold.fanned s.fanned } := by
  rcases reconcileVerification_cases hrec with ⟨rfl, rfl, -⟩ | ⟨rfl, rfl, -⟩ |
    ⟨repos, members, publish, cells, rfl, rfl, hcells, hshape⟩
  · exact h
  · exact {
      names := h.names
      stamped := fun k ts hts => by cases hts
      runs := fun run hrun k hk => (h.runs run hrun k hk).of_le (fun _ hr => hr) rfl (by simp)
      cells := fun cells hcells c hc k hk =>
        (h.cells cells hcells c hc k hk).of_le (fun _ hr => hr) rfl (by simp)
      entries := fun _ e he => by cases he
      cleared := fun cells hcells c hc _ _ e he => by cases he
      normal := fun e he => by cases he }
  · exact h.reconcile_grid hcells hshape

theorem VerifyInv.step (h : VerifyInv rfc s) {a : VerifyEvent} (hok : VerifyOk s a)
    {s' : VerifyWorld} (hstep : verifyStep rfc s a = some s') : VerifyInv rfc s' := by
  cases a with
  | edit policy matched =>
    cases hstep
    exact h.edit hok
  | reconcile =>
    simp only [verifyStep, Option.bind_eq_bind, Option.bind_eq_some_iff] at hstep
    obtain ⟨⟨fold, status'⟩, hrec, hstep⟩ := hstep
    cases hstep
    exact h.reconcile hrec
  | spawn cell =>
    simp only [verifyStep] at hstep
    split at hstep
    · next hspawn =>
      cases hstep
      obtain ⟨-, ⟨cells, hcells, hcell⟩, -⟩ := hspawn
      exact h.spawn hcells hcell
    · cases hstep
  | finish run outcome =>
    simp only [verifyStep, Option.bind_eq_bind, Option.bind_eq_some_iff] at hstep
    obtain ⟨cell, hget, hstep⟩ := hstep
    have hmem := List.mem_of_getElem? hget
    have hleft : ∀ r ∈ s.runs.eraseIdx run, r ∈ s.runs := fun r hr => List.mem_of_mem_eraseIdx hr
    cases outcome with
    | none =>
      cases hstep
      exact h.leave hleft fun _ hv => hv
    | some now =>
      cases hstep
      cases hkey : cell.key with
      | none =>
        have hrest : VerifyInv rfc { s with
            runs := s.runs.eraseIdx run, verified := ⟨cell, now⟩ :: s.verified } :=
          h.leave hleft fun v hv => List.mem_cons_of_mem _ hv
        exact {
          names := hrest.names
          stamped := hrest.stamped
          runs := hrest.runs
          cells := hrest.cells
          entries := hrest.entries
          cleared := hrest.cleared
          normal := hrest.normal }
      | some k => exact h.stamp now hmem hkey hleft
  | lose run now =>
    simp only [verifyStep, Option.bind_eq_bind, Option.bind_eq_some_iff] at hstep
    obtain ⟨cell, hget, hstep⟩ := hstep
    cases hstep
    exact h.leave (fun r hr => List.mem_of_mem_eraseIdx hr) fun v hv => List.mem_cons_of_mem _ hv

theorem published_le {stamps : List (Option String)} {ts : String}
    (hts : oldestRfc3339 rfc stamps = some ts)
    (hparse : ∀ text, some text ∈ stamps → ∃ t, rfc.parse text = some t) :
    ∃ t, rfc.parse ts = some t ∧
      ∀ o ∈ stamps, ∃ text u, o = some text ∧ rfc.parse text = some u ∧ t ≤ u := by
  obtain ⟨hmem, hle⟩ := oldestRfc3339_le hts
  obtain ⟨t, ht⟩ := hparse _ hmem
  refine ⟨t, ht, fun o ho => ?_⟩
  obtain ⟨text, rfl, hle⟩ := hle o ho
  obtain ⟨u, hu⟩ := hparse _ ho
  rw [rfc3339OrMin, rfc3339OrMin, ht, hu] at hle
  exact ⟨text, u, rfl, hu, hle⟩

theorem VerifyInv.stamp_of_cell (h : VerifyInv rfc s)
    (hcells : verifyCells s.policy s.matched = some cells) (hc : c ∈ cells) (hk : c.key = some k)
    {ts : String} (hts : s.status.verificationStamps.lookup k = some ts) :
    ∃ v ∈ s.verified, v.cell = c ∧ ts = rfc.render v.time := by
  obtain ⟨v, hv, hmem, hrender⟩ := h.stamped k ts hts
  exact ⟨v, hmem, (h.cells cells hcells c hc k hk).2 v hv (by simp [hts]), hrender⟩

/-- A date of some cells: there when each has its stamp, and not later than a
verification of each. -/
structure Dates (rfc : Rfc3339) (s : VerifyWorld) (cells : List VerifyCell) (date : Option String) :
    Prop where
  sound : ∀ ts, date = some ts → ∃ t, rfc.parse ts = some t ∧
    ∀ c ∈ cells, ∃ v ∈ s.verified, v.cell = c ∧ t ≤ v.time
  complete : date.isSome ↔
    ∀ c ∈ cells, ∃ k, c.key = some k ∧ (s.status.verificationStamps.lookup k).isSome

/-- The oldest date of rows of cells dates all of them. -/
theorem Dates.oldest {ι : Type} {rows : List ι} (row : ι → List VerifyCell)
    {date : ι → Option String} (hne : rows ≠ []) (h : ∀ r ∈ rows, Dates rfc s (row r) (date r)) :
    Dates rfc s (rows.flatMap row) (oldestRfc3339 rfc (rows.map date)) where
  sound ts hts := by
    obtain ⟨t, ht, hall⟩ := published_le hts fun text htext => by
      obtain ⟨r, hr, hdate⟩ := List.mem_map.mp htext
      obtain ⟨t, ht, -⟩ := (h r hr).sound text hdate
      exact ⟨t, ht⟩
    refine ⟨t, ht, fun c hc => ?_⟩
    obtain ⟨r, hr, hc⟩ := List.mem_flatMap.mp hc
    obtain ⟨text, u, hdate, hu, hle⟩ := hall _ (List.mem_map_of_mem hr)
    obtain ⟨u', hu', hrow⟩ := (h r hr).sound text hdate
    obtain rfl : u = u' := Option.some.inj (hu.symm.trans hu')
    obtain ⟨v, hv, hcell, hlater⟩ := hrow c hc
    exact ⟨v, hv, hcell, hle.trans hlater⟩
  complete := by
    rw [isSome_oldestRfc3339 (by simpa using hne)]
    simp only [List.forall_mem_map, List.mem_flatMap]
    constructor
    · rintro hall c ⟨r, hr, hc⟩
      exact (h r hr).complete.mp (hall r hr) c hc
    · exact fun hall r hr => (h r hr).complete.mpr fun c hc => hall c ⟨r, hr, hc⟩

/-- The stamps that jobs have written can be read. -/
def VerifyWorld.Reads (s : VerifyWorld) (rfc : Rfc3339) : Prop :=
  ∀ v ∈ s.verified, rfc.parse (rfc.render v.time) = some v.time

theorem Dates.one {date : Option String}
    (hsound : ∀ ts, date = some ts → ∃ v ∈ s.verified, v.cell = c ∧ ts = rfc.render v.time)
    (hread : s.Reads rfc) (hk : c.key = some k)
    (hcomplete : date.isSome ↔ (s.status.verificationStamps.lookup k).isSome) :
    Dates rfc s [c] date where
  sound ts hts := by
    obtain ⟨v, hv, hcell, rfl⟩ := hsound ts hts
    refine ⟨v.time, hread v hv, fun c' hc' => ?_⟩
    rw [List.mem_singleton.mp hc']
    exact ⟨v, hv, hcell, le_rfl⟩
  complete := by simp [hcomplete, hk]

/-- The date of a repository without members is of its one cell. -/
theorem VerifyInv.dates_repository (h : VerifyInv rfc s) (hread : s.Reads rfc)
    (hcells : verifyCells s.policy s.matched = some cells) (hc : c ∈ cells)
    (hkey : c.key = some c.repository) :
    Dates rfc s [c] (repoCellMin rfc s.status.verification s.status.verificationStamps []
      c.repository s.policy.ns) := by
  obtain ⟨hsome, hlater⟩ := h.later hcells hc hkey
  refine .one (fun ts hts => ?_) hread hkey hsome
  obtain ⟨v, hv, hstamp, earlier, hmem, hsame, hrender⟩ := hlater ts hts
  exact ⟨earlier, hmem, hsame.trans ((h.cells _ hcells _ hc _ hkey).2 v hv hstamp), hrender⟩

/-- What is published dates every cell. -/
theorem VerifyInv.published (h : VerifyInv rfc s) (hread : s.Reads rfc)
    {repos : List (RepositoryRef × String)} {members : List String} {publish : Bool}
    (hcells : verifyCells s.policy s.matched = some cells)
    (hshape : GridShape s.policy cells (gridOf rfc s.policy s.status repos members publish)) :
    Dates rfc s cells (gridOf rfc s.policy s.status repos members publish).folded.flat := by
  obtain ⟨mv, hmv⟩ : ∃ mv, mv = gridOf rfc s.policy s.status repos members publish := ⟨_, rfl⟩
  have hflat : (gridOf rfc s.policy s.status repos members publish).folded.flat =
      oldestRfc3339 rfc (mv.currentRepos.map fun p => repoCellMin rfc s.status.verification
        s.status.verificationStamps mv.members p.2 s.policy.ns) := by
    simp only [hmv, gridOf, foldVerification, List.map_map, Function.comp_def]
  rw [hflat]
  rw [← hmv] at hshape
  clear hflat hmv
  cases hshape with
  | plain path folded hne =>
    rw [List.map_map]
    have hdates := Dates.oldest (fun r : RepositoryRef =>
        [⟨repoKey r s.policy.ns, path, some (repoKey r s.policy.ns)⟩]) hne fun r hr =>
      h.dates_repository hread hcells (List.mem_map_of_mem hr) rfl
    rwa [← List.map_eq_flatMap] at hdates
  | fan rs paths segment publishEntries folded hrs hpaths htags hsegment hkeys =>
    -- a repository is dated by the oldest stamp of its members
    have hmembers : ∀ r, repoCellMin rfc s.status.verification s.status.verificationStamps
        (paths.map memberTag) (segment r) s.policy.ns = oldestRfc3339 rfc (paths.map fun p =>
          s.status.verificationStamps.lookup (segment r ++ "#" ++ memberTag p)) := by
      intro r
      have hne : (paths.map memberTag).isEmpty = false := by simpa using hpaths
      rw [repoCellMin, hne]
      simp [stampKey, Function.comp_def]
    simp only [List.map_map, Function.comp_def, hmembers]
    refine .oldest _ hrs fun r hr => ?_
    have hdates := Dates.oldest (fun p => [(⟨repoKey r s.policy.ns, some p,
        some (segment r ++ "#" ++ memberTag p)⟩ : VerifyCell)]) hpaths fun p hp =>
      have hc : (⟨repoKey r s.policy.ns, some p, some (segment r ++ "#" ++ memberTag p)⟩ :
          VerifyCell) ∈ rs.flatMap fun r => paths.map fun p =>
            ⟨repoKey r s.policy.ns, some p, some (segment r ++ "#" ++ memberTag p)⟩ :=
        List.mem_flatMap.mpr ⟨r, hr, List.mem_map.mpr ⟨p, hp, rfl⟩⟩
      .one (fun ts hts => h.stamp_of_cell hcells hc rfl hts) hread rfl Iff.rfl
    rwa [← List.map_eq_flatMap] at hdates

end Invariant

/-- While no edit hands a stamp key or a folded entry on to another cell: what a
reconcile publishes for a grid is not later than a verification of each of its
cells, it publishes exactly when every cell has its stamp, and it keeps exactly
the stamps of its cells. A selector that matches nothing changes nothing. -/
theorem verification_published_sound (rfc : Rfc3339)
    (policy : VerifiedPolicy) (matched : Nat → List PvcTargetRef) (lastVerified : Option String)
    (hnames : ∀ r ∈ policy.spec.repositories, '#' ∉ (repoKey r policy.ns).toList)
    (s : VerifyWorld) (hrun : Reaches (verifyStep rfc) VerifyOk
      { policy, matched, status := { lastVerified } } s)
    (hread : ∀ v ∈ s.verified, rfc.parse (rfc.render v.time) = some v.time) :
    (∀ mv status', reconcileVerification rfc s.policy s.matched s.status =
        some (.grid mv, status') →
      ∃ cells, verifyCells s.policy s.matched = some cells ∧
        (∀ ts, status'.lastVerified = some ts → ∃ t, rfc.parse ts = some t ∧
          ∀ c ∈ cells, ∃ v ∈ s.verified, v.cell.repository = c.repository ∧
            v.cell.path = c.path ∧ t ≤ v.time) ∧
        (status'.lastVerified.isSome ↔ ∀ c ∈ cells, ∃ k, c.key = some k ∧
          (status'.verificationStamps.lookup k).isSome) ∧
        ∀ k, status'.verificationStamps.lookup k =
          if ∃ c ∈ cells, c.key = some k then s.status.verificationStamps.lookup k else none) ∧
    (∀ repositories, policyRepositories s.policy = some repositories →
      s.policy.verification.isSome = true → verifyMembers s.policy s.matched = .ok [] →
      reconcileVerification rfc s.policy s.matched s.status = some (.undecided, s.status)) := by
  have hinv := hrun.invariant (VerifyInv rfc) (.init matched lastVerified hnames)
    fun _ _ _ h hok hstep => h.step hok hstep
  refine ⟨fun mv status' hrec => ?_, fun repositories hrepos hon hnone => ?_⟩
  · rcases reconcileVerification_cases hrec with ⟨hcase, -⟩ | ⟨hcase, -⟩ |
      ⟨repos, members, publish, cells, hcase, rfl, hcells, hshape⟩
    · cases hcase
    · cases hcase
    cases hcase
    have hdates := hinv.published hread hcells hshape
    have hlook : ∀ k, (s.status.merge (finalStatusBody s.status
        (.grid (gridOf rfc s.policy s.status repos members publish)))).verificationStamps.lookup k =
          if ∃ c ∈ cells, c.key = some k then s.status.verificationStamps.lookup k else none := by
      intro k
      rw [lookup_merge_grid]
      simp only [hshape.live_iff hinv.names k]
    refine ⟨cells, hcells, fun ts hts => ?_, ?_, hlook⟩
    · rw [lastVerified_merge_grid] at hts
      obtain ⟨t, ht, hall⟩ := hdates.sound ts hts
      refine ⟨t, ht, fun c hc => ?_⟩
      obtain ⟨v, hv, rfl, hle⟩ := hall c hc
      exact ⟨v, hv, rfl, rfl, hle⟩
    · rw [lastVerified_merge_grid, hdates.complete]
      refine forall₂_congr fun c hc => exists_congr fun k => and_congr_right fun hk => ?_
      rw [hlook, if_pos ⟨c, hc, hk⟩]
  · have hmembers : currentMembers s.policy s.matched = some [] := by
      rw [currentMembers, if_pos hon, hnone]
      rfl
    simp only [reconcileVerification, hrepos, hmembers, Option.bind_eq_bind, Option.bind_some,
      foldMultiVerification, hon, List.isEmpty_nil, Bool.and_self, if_true, merge_undecided]

def numberTimes : Rfc3339 where
  parse := parseInt
  render t := Int.repr t

def mediaPolicy (repository : Option RepositoryRef) (repositories : List RepositoryRef)
    (source : Source) : VerifiedPolicy where
  metadata := { name := some "media", ns := some "apps" }
  spec := { repositories, sources := [source] }
  repository
  verification := some {}

def VerifyFold.isGrid : VerifyFold → Bool
  | .grid _ => true
  | _ => false

def selectedSource : Source := { pvcSelector := some {} }

def oneMatch (index : Nat) : List PvcTargetRef := if index = 0 then [⟨"apps", "data"⟩] else []

def dataCell (repository segment : String) : VerifyCell where
  repository
  path := some "/pvc/data"
  key := some (segment ++ "#" ++ memberTag "/pvc/data")

def bothRepositories : VerifiedPolicy :=
  mediaPolicy none [{ name := "nas" }, { name := "cloud" }] selectedSource

/-- A repository joins the policy once the first is verified; the earlier of the two
verifications is published. -/
theorem verification_published_sound_once :
    ∃ s mv status', runSteps (verifyStep numberTimes) VerifyOk
        { policy := mediaPolicy none [{ name := "nas" }] selectedSource, matched := oneMatch }
        [.spawn (dataCell "Repository/apps/nas" "Repository/apps/nas"), .finish 0 (some 5),
          .reconcile, .edit bothRepositories oneMatch,
          .spawn (dataCell "Repository/apps/cloud" "Repository/apps/cloud"), .finish 0 (some 9)] =
          some s ∧
      reconcileVerification numberTimes s.policy s.matched s.status = some (.grid mv, status') ∧
      status'.lastVerified = some "5" ∧
      ∃ cells, verifyCells s.policy s.matched = some cells ∧ cells.length = 2 ∧
        ∃ t, numberTimes.parse "5" = some t ∧ ∀ c ∈ cells, ∃ v ∈ s.verified,
          v.cell.repository = c.repository ∧ v.cell.path = c.path ∧ t ≤ v.time := by
  have hends : (runSteps (verifyStep numberTimes) VerifyOk
      { policy := mediaPolicy none [{ name := "nas" }] selectedSource, matched := oneMatch }
      [.spawn (dataCell "Repository/apps/nas" "Repository/apps/nas"), .finish 0 (some 5),
        .reconcile, .edit bothRepositories oneMatch,
        .spawn (dataCell "Repository/apps/cloud" "Repository/apps/cloud"), .finish 0 (some 9)]).any
        (fun s => (verifyCells s.policy s.matched).map List.length = some 2 ∧
          (reconcileVerification numberTimes s.policy s.matched s.status).any fun out =>
            out.1.isGrid ∧ out.2.lastVerified = some "5") = true := by
    decide
  simp only [Option.any_eq_true, decide_eq_true_eq] at hends
  obtain ⟨s, hrun, htwo, ⟨fold, status'⟩, hrec, hgrid, hlast⟩ := hends
  cases fold with
  | flat => cases hgrid
  | undecided => cases hgrid
  | grid mv =>
    obtain ⟨cells, hcells, hsound, -⟩ := (verification_published_sound numberTimes
      (mediaPolicy none [{ name := "nas" }] selectedSource) oneMatch none (by decide) s
      (reaches_of_runSteps hrun) fun v _ => parseInt_repr v.time).1 mv status' hrec
    refine ⟨s, mv, status', hrun, hrec, hlast, cells, hcells, ?_, hsound "5" hlast⟩
    rwa [hcells, Option.map_some, Option.some.injEq] at htwo

/-- Two edits that hand verifications on. A policy stops fanning out, and the
entry folded over its PVCs stays published for the source no Job has read. A
policy with a selector moves to another repository, and the stamps of the first
are published for the second. -/
theorem verification_published_for_other_cells :
    ((runSteps (verifyStep numberTimes) (fun _ _ => True)
      { policy := mediaPolicy none [{ name := "nas" }] selectedSource, matched := oneMatch }
      [.spawn (dataCell "Repository/apps/nas" "Repository/apps/nas"), .finish 0 (some 5), .reconcile,
        .edit (mediaPolicy none [{ name := "nas" }] { pvc := some ⟨"other"⟩ }) oneMatch,
        .reconcile]).any fun s =>
          s.status.lastVerified = some "5" ∧ s.status.verificationStamps = [] ∧
          (verifyCells s.policy s.matched).any fun cells => ∃ c ∈ cells, ∀ v ∈ s.verified,
            ¬(v.cell.repository = c.repository ∧ v.cell.path = c.path)) = true ∧
    ((runSteps (verifyStep numberTimes) (fun _ _ => True)
      { policy := mediaPolicy (some { name := "nas" }) [] selectedSource, matched := oneMatch }
      [.spawn (dataCell "Repository/apps/nas" ""), .finish 0 (some 5), .reconcile,
        .edit (mediaPolicy (some { name := "cloud" }) [] selectedSource) oneMatch,
        .reconcile]).any fun s =>
          s.status.lastVerified = some "5" ∧
          (verifyCells s.policy s.matched).any fun cells => ∃ c ∈ cells, ∀ v ∈ s.verified,
            ¬(v.cell.repository = c.repository ∧ v.cell.path = c.path)) = true := by
  decide

end Kopiur
