import Mathlib.Data.List.MinMax
import Kopiur.Api.Expand
import Kopiur.Controller.Schedule
import Kopiur.Lib.Lists

/-!
# The verification grid

A policy over several repositories or over selected PVCs is verified cell by
cell, one repository and one PVC at a time. Each verify Job stamps its own cell
into a map on the policy's status, and every reconcile folds the map into the
time the whole policy is verified as of.
-/

namespace Kopiur

open Lib

attribute [local instance] timePreorder

structure CronSpec where
  cron : String
  jitter : Option String := none
  timezone : Option String := none
deriving DecidableEq

structure Verification where
  -- The schedule of the quick tier is absent on old objects.
  quick : Option (Option CronSpec) := none
  deep : Option CronSpec := none
deriving DecidableEq

/-- A policy with `spec.repository` and `spec.verification`. -/
structure VerifiedPolicy extends SnapshotPolicy where
  repository : Option RepositoryRef := none
  verification : Option Verification := none
deriving DecidableEq

structure RepoVerification where
  repository : RepositoryRef
  lastVerified : Option String := none
deriving DecidableEq

/-- The verification fields of a policy's status. A stamp put later hides the
earlier ones of its key. -/
structure VerificationStatus where
  lastVerified : Option String := none
  verification : List RepoVerification := []
  verificationStamps : List (String × String) := []
deriving DecidableEq

inductive PolicyRepositories
  | single (r : RepositoryRef)
  | multi (rs : List RepositoryRef)
deriving DecidableEq

def policyRepositories (policy : VerifiedPolicy) : Option PolicyRepositories :=
  match policy.repository, isMultiRepo policy.spec with
  | some r, false => some (.single r)
  | none, true => some (.multi policy.spec.repositories)
  | _, _ => none

def PolicyRepositories.targets : PolicyRepositories → List RepositoryRef
  | .single r => [r]
  | .multi rs => rs

def memberTagHex : Nat := 12

def wideHash (s : String) : String := hex 16 (fnv1a s)

def memberTag (sourcePath : String) : String :=
  String.ofList ((wideHash sourcePath).toList.take memberTagHex)

structure VerifyMember where
  sourcePath : Option String := none
  memberTag : Option String := none
deriving DecidableEq

/-- Two paths with one tag are refused. -/
def tagMembers (tag : String → String) : List String → List (String × String) →
    Except String (List VerifyMember)
  | [], _ => .ok []
  | path :: rest, byTag =>
    match byTag.lookup (tag path) with
    | some other =>
      .error ("verification refused: `" ++ other ++ "` and `" ++ path ++ "` share the member tag `" ++
        tag path ++ "`, so one would never be verified. Fix: rename one of the two " ++
        "PersistentVolumeClaims, or split the pvcSelector across two SnapshotPolicies.")
    | none => do
      let members ← tagMembers tag rest ((tag path, path) :: byTag)
      .ok (⟨some path, some (tag path)⟩ :: members)

def verifyMembers (policy : VerifiedPolicy) (matched : Nat → List PvcTargetRef) :
    Except String (List VerifyMember) :=
  if !policy.spec.sources.any fun s => s.pvcSelector.isSome then .ok [{}]
  else
    -- Only the first of several matches of one path is kept.
    let paths := ((selectorMatches policy.toSnapshotPolicy matched).map
      SelectorMatch.path).reverse.dedup.reverse
    tagMembers memberTag paths []

def currentMembers (policy : VerifiedPolicy) (matched : Nat → List PvcTargetRef) :
    Option (List VerifyMember) :=
  if policy.verification.isSome then (verifyMembers policy matched).toOption else some []

/-- The path a run of the member verifies. -/
def verifyPath (policy : VerifiedPolicy) (member : VerifyMember) :
    Except ValidationError (Option String) :=
  match member.sourcePath with
  | some p => .ok (some p)
  | none => do
    let path ← identitySourcePath policy.toSnapshotPolicy none
    .ok (if path.isNone && !policy.spec.sources.isEmpty then some "/data" else path)

def stampKey (repoKey memberTag : Option String) : Option String :=
  match repoKey, memberTag with
  | none, none => none
  | some r, none => some r
  | r, some m => some (r.getD "" ++ "#" ++ m)

def parseStampKey (key : String) : String × Option String :=
  match rsplitOnce '#' key.toList with
  | some (repo, member) => (String.ofList repo, some (String.ofList member))
  | none => (key, none)

def stampKeyLive (key : String) (repoKeys memberTags : List String) : Bool :=
  let (repo, member) := parseStampKey key
  repoKeys.contains repo &&
    match member with
    | some m => memberTags.contains m
    | none => memberTags.isEmpty

def minUtc : DateTime := DateTime.fromTimestamp (daysFromCivil ⟨-262143, 1, 1⟩ * 86400)

section Fold

variable (rfc : Rfc3339)

def rfc3339OrMin (s : String) : DateTime := (rfc.parse s).getD minUtc

def laterRfc3339 (a b : Option String) : Option String :=
  match a, b with
  | some a, some b => if rfc3339OrMin rfc a ≥ rfc3339OrMin rfc b then some a else some b
  | some one, none | none, some one => some one
  | none, none => none

def oldestRfc3339 (all : List (Option String)) : Option String :=
  (collect all).bind (List.argmin (rfc3339OrMin rfc))

def repoCellMin (existing : List RepoVerification) (stamps : List (String × String))
    (members : List String) (key ns : String) : Option String :=
  if members.isEmpty then
    let prior := (existing.find? fun e => repoKey e.repository ns == key).bind
      RepoVerification.lastVerified
    laterRfc3339 rfc prior (stamps.lookup key)
  else
    oldestRfc3339 rfc (members.map fun m =>
      (stampKey (some key) (some m)).bind fun k => stamps.lookup k)

structure FoldedVerification where
  entries : List RepoVerification
  flat : Option String
deriving DecidableEq

def foldVerification (current : List (RepositoryRef × String)) (existing : List RepoVerification)
    (stamps : List (String × String)) (members : List String) (ns : String) :
    FoldedVerification :=
  let entries := current.map fun (r, key) =>
    { repository := r, lastVerified := repoCellMin rfc existing stamps members key ns }
  { entries, flat := oldestRfc3339 rfc (entries.map RepoVerification.lastVerified) }

/-- The repositories with the segment their stamp keys use, and the tags. -/
structure MultiVerification where
  currentRepos : List (RepositoryRef × String)
  members : List String
  publishEntries : Bool
  folded : FoldedVerification
deriving DecidableEq

inductive VerifyFold
  | flat
  | undecided
  | grid (mv : MultiVerification)
deriving DecidableEq

def foldMultiVerification (policy : VerifiedPolicy) (status : VerificationStatus)
    (repositories : PolicyRepositories) (verifyMembers : List VerifyMember) : VerifyFold :=
  if policy.verification.isSome && verifyMembers.isEmpty then .undecided
  else
    let members := verifyMembers.filterMap VerifyMember.memberTag
    let grid := fun (currentRepos : List (RepositoryRef × String)) (publishEntries : Bool) =>
      if currentRepos.isEmpty then VerifyFold.flat
      else .grid
        { currentRepos, members, publishEntries
          folded := foldVerification rfc currentRepos status.verification
            status.verificationStamps members policy.ns }
    match repositories with
    | .single r =>
      if members.isEmpty then .flat
      else grid [(normalizedRepositoryRef r policy.ns, "")] false
    | .multi rs =>
      grid (rs.map fun r => (normalizedRepositoryRef r policy.ns, repoKey r policy.ns)) true

inductive MergeField (α : Type)
  | absent
  | null
  | value (a : α)
deriving DecidableEq

def MergeField.apply {α : Type} (f : MergeField α) (old cleared : α) : α :=
  match f with
  | .absent => old
  | .null => cleared
  | .value a => a

/-- The verification part of the final status body; `staleStamps` are the stamps
that are set to null one by one. -/
structure StatusBody where
  lastVerified : MergeField String := .absent
  verification : MergeField (List RepoVerification) := .absent
  verificationStamps : MergeField (List String) := .absent
deriving DecidableEq

def finalStatusBody (prior : VerificationStatus) : VerifyFold → StatusBody
  | .grid mv =>
    let stale := (prior.verificationStamps.map Prod.fst).filter fun k =>
      !stampKeyLive k (mv.currentRepos.map Prod.snd) mv.members
    { verification :=
        if mv.publishEntries then .value mv.folded.entries
        else if !prior.verification.isEmpty then .null else .absent
      lastVerified :=
        match mv.folded.flat, prior.lastVerified with
        | some ts, _ => .value ts
        | none, some _ => .null
        | none, none => .absent
      verificationStamps := if stale.isEmpty then .absent else .value stale }
  | .flat =>
    { verification := if prior.verification.isEmpty then .absent else .null
      verificationStamps := if prior.verificationStamps.isEmpty then .absent else .null }
  | .undecided => {}

def VerificationStatus.merge (status : VerificationStatus) (body : StatusBody) :
    VerificationStatus where
  lastVerified :=
    match body.lastVerified with
    | .absent => status.lastVerified
    | .null => none
    | .value ts => some ts
  verification := body.verification.apply status.verification []
  verificationStamps :=
    match body.verificationStamps with
    | .absent => status.verificationStamps
    | .null => []
    | .value stale => status.verificationStamps.filter fun e => e.1 ∉ stale

/-- The verification part of a policy reconcile. A policy with both or neither of
the repository fields, or with members it cannot tell apart, is parked before. -/
def reconcileVerification (policy : VerifiedPolicy) (matched : Nat → List PvcTargetRef)
    (status : VerificationStatus) : Option (VerifyFold × VerificationStatus) := do
  let repositories ← policyRepositories policy
  let members ← currentMembers policy matched
  let folded := foldMultiVerification rfc policy status repositories members
  some (folded, status.merge (finalStatusBody status folded))

end Fold

section Oldest

variable {rfc : Rfc3339} {all : List (Option String)}

theorem isSome_oldestRfc3339 (hne : all ≠ []) :
    (oldestRfc3339 rfc all).isSome ↔ ∀ o ∈ all, o.isSome := by
  rw [← isSome_collect, oldestRfc3339]
  cases hcollect : collect all with
  | none => simp
  | some xs =>
    have hxs : xs ≠ [] := by
      rintro rfl
      exact hne (by simpa using collect_eq_some_iff.mp hcollect)
    have hmin : List.argmin (rfc3339OrMin rfc) xs ≠ none := mt List.argmin_eq_none.mp hxs
    simp [Option.isSome_iff_ne_none, hmin]

theorem oldestRfc3339_le {ts : String} (h : oldestRfc3339 rfc all = some ts) :
    some ts ∈ all ∧ ∀ o ∈ all, ∃ t, o = some t ∧ rfc3339OrMin rfc ts ≤ rfc3339OrMin rfc t := by
  obtain ⟨xs, hcollect, hmin⟩ := Option.bind_eq_some_iff.mp h
  rw [collect_eq_some_iff] at hcollect
  subst hcollect
  have hmem : ts ∈ xs := @List.argmin_mem _ _ _ _ (rfc3339OrMin rfc) xs ts hmin
  refine ⟨List.mem_map_of_mem hmem, fun o ho => ?_⟩
  obtain ⟨t, ht, rfl⟩ := List.mem_map.mp ho
  exact ⟨t, rfl, not_lt.mp (List.not_lt_of_mem_argmin ht hmin)⟩

end Oldest

section Keys

variable {repoKeys memberTags : List String}

theorem hash_not_mem_memberTag (path : String) : '#' ∉ (memberTag path).toList := by
  have hdigit : ∀ n, n < 16 → hexDigit n ≠ '#' := by decide
  intro h
  have hmem := List.mem_of_mem_take (String.toList_ofList ▸ h)
  rw [wideHash, hex, String.toList_ofList, List.mem_map] at hmem
  obtain ⟨i, -, heq⟩ := hmem
  exact hdigit _ (Nat.mod_lt _ (by decide)) heq

theorem parseStampKey_member {m : String} (hm : '#' ∉ m.toList) (r : String) :
    parseStampKey (r ++ "#" ++ m) = (r, some m) := by
  have hsplit : (r ++ "#" ++ m).toList = r.toList ++ '#' :: m.toList := by
    simp [String.toList_append]
  rw [parseStampKey, hsplit, rsplitOnce_append_cons hm]
  simp

/-- A live key is the key of a repository and a member, or of a repository when
there is no member. -/
theorem stampKeyLive_iff (hrepos : memberTags = [] → ∀ r ∈ repoKeys, '#' ∉ r.toList)
    (htags : ∀ m ∈ memberTags, '#' ∉ m.toList) {key : String} :
    stampKeyLive key repoKeys memberTags = true ↔
      (memberTags = [] ∧ key ∈ repoKeys) ∨
        ∃ r ∈ repoKeys, ∃ m ∈ memberTags, key = r ++ "#" ++ m := by
  cases hsplit : rsplitOnce '#' key.toList with
  | none =>
    have hlive : stampKeyLive key repoKeys memberTags = true ↔
        key ∈ repoKeys ∧ memberTags = [] := by
      simp [stampKeyLive, parseStampKey, hsplit]
    rw [hlive]
    constructor
    · rintro ⟨hkey, htag⟩
      exact .inl ⟨htag, hkey⟩
    · rintro (⟨htag, hkey⟩ | ⟨r, -, m, hm, rfl⟩)
      · exact ⟨hkey, htag⟩
      · have hparse := parseStampKey_member (htags m hm) r
        rw [parseStampKey, hsplit] at hparse
        exact absurd (congrArg Prod.snd hparse) (by simp)
  | some sides =>
    obtain ⟨r, m⟩ := sides
    have hlive : stampKeyLive key repoKeys memberTags = true ↔
        String.ofList r ∈ repoKeys ∧ String.ofList m ∈ memberTags := by
      simp [stampKeyLive, parseStampKey, hsplit]
    rw [hlive]
    constructor
    · rintro ⟨hr, hm⟩
      refine .inr ⟨_, hr, _, hm, ?_⟩
      rw [← String.toList_inj, (of_rsplitOnce_eq_some hsplit).1]
      simp
    · rintro (⟨htag, hkey⟩ | ⟨r', hr', m', hm', rfl⟩)
      · rw [rsplitOnce_eq_none (hrepos htag key hkey)] at hsplit
        cases hsplit
      · have hparse := parseStampKey_member (htags m' hm') r'
        simp only [parseStampKey, hsplit, Prod.mk.injEq, Option.some.injEq] at hparse
        rw [hparse.1, hparse.2]
        exact ⟨hr', hm'⟩

end Keys

section Write

variable {status : VerificationStatus} {mv : MultiVerification}

theorem lastVerified_merge_grid :
    (status.merge (finalStatusBody status (.grid mv))).lastVerified = mv.folded.flat := by
  simp only [VerificationStatus.merge, finalStatusBody]
  cases hflat : mv.folded.flat <;> cases hprior : status.lastVerified <;> rfl

theorem verification_merge_grid :
    (status.merge (finalStatusBody status (.grid mv))).verification =
      if mv.publishEntries then mv.folded.entries else [] := by
  simp only [VerificationStatus.merge, finalStatusBody]
  cases hpub : mv.publishEntries with
  | true => simp [MergeField.apply]
  | false => cases hprior : status.verification <;> simp [MergeField.apply]

theorem lookup_merge_grid (key : String) :
    (status.merge (finalStatusBody status (.grid mv))).verificationStamps.lookup key =
      if stampKeyLive key (mv.currentRepos.map Prod.snd) mv.members then
        status.verificationStamps.lookup key else none := by
  obtain ⟨live, hlive⟩ : ∃ live : String → Bool,
    live = fun k => stampKeyLive k (mv.currentRepos.map Prod.snd) mv.members := ⟨_, rfl⟩
  obtain ⟨stale, hstale⟩ : ∃ stale,
    stale = (status.verificationStamps.map Prod.fst).filter fun k => !live k := ⟨_, rfl⟩
  have hkept : (status.merge (finalStatusBody status (.grid mv))).verificationStamps =
      status.verificationStamps.filter fun e => live e.1 := by
    have hmem : ∀ e ∈ status.verificationStamps, (e.1 ∉ stale ↔ live e.1 = true) := by
      intro e he
      rw [hstale, List.mem_filter, Bool.not_eq_true', not_and, Bool.not_eq_false]
      exact ⟨fun h => h (List.mem_map_of_mem he), fun h _ => h⟩
    have hbody : (finalStatusBody status (.grid mv)).verificationStamps =
        if stale.isEmpty then .absent else .value stale := by
      rw [hstale, hlive]
      rfl
    simp only [VerificationStatus.merge, hbody]
    cases hcase : stale with
    | nil =>
      simp only [List.isEmpty_nil, if_true]
      refine (List.filter_eq_self.mpr fun e he => ?_).symm
      exact (hmem e he).mp (by simp [hcase])
    | cons k rest =>
      simp only [List.isEmpty_cons, Bool.false_eq_true, if_false]
      rw [← hcase]
      refine List.filter_congr fun e he => ?_
      rw [Bool.eq_iff_iff, decide_eq_true_eq]
      exact hmem e he
  rw [hkept, lookup_filter_key live, hlive]

theorem merge_flat :
    status.merge (finalStatusBody status .flat) = { status with
      verification := [], verificationStamps := [] } := by
  simp only [VerificationStatus.merge, finalStatusBody]
  cases hv : status.verification <;> cases hs : status.verificationStamps <;> rfl

theorem merge_undecided : status.merge (finalStatusBody status .undecided) = status := rfl

end Write

end Kopiur
