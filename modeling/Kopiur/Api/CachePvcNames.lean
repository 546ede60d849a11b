import Kopiur.Api.GeneratedNames

/-!
# Which pairs share a cache PVC

The cache PVC of a policy in one of its repositories is named of both names,
cut to fit, and of a tag over the repository. Two names are the same only for
the same pair, unless the tags of two repositories agree or the names of two
policies come out alike: the tag says nothing about the policy.
-/

namespace Kopiur

open Lib

def cacheTag (r : RepositoryRef) (policyNs : String) : String :=
  String.ofList ((fnv8 (repoKey r policyNs)).toList.take 6)

def cacheSlugRoom : Nat := 42

def CacheNameCut (policyName repoName : String) : Prop :=
  cacheSlugRoom < policyName.length + repoName.length

/-- What is left of a policy's and a repository's name. -/
def cacheSlugs (policyName repoName : String) : String :=
  let pslug := sanitizeDns1123 policyName
  let rslug := sanitizeDns1123 repoName
  let exceeds := cacheSlugRoom < pslug.utf8ByteSize + rslug.utf8ByteSize
  let rslugKeep :=
    if exceeds then min rslug.utf8ByteSize (cacheSlugRoom / 3) else rslug.utf8ByteSize
  let pslugKeep :=
    if exceeds then min pslug.utf8ByteSize (cacheSlugRoom - rslugKeep) else pslug.utf8ByteSize
  trimEnd '-' (clip pslug pslugKeep) ++ "-" ++ trimEnd '-' (clip rslug rslugKeep)

section Names

variable {policyName policyName' policyNs repoName : String} {r r' : RepositoryRef}

theorem toList_cacheTag (r : RepositoryRef) (policyNs : String) :
    (cacheTag r policyNs).toList = (fnv8 (repoKey r policyNs)).toList.take 6 :=
  String.toList_ofList

theorem length_cacheTag (r : RepositoryRef) (policyNs : String) :
    (cacheTag r policyNs).toList.length = 6 := by
  rw [toList_cacheTag, List.length_take, length_fnv8]
  rfl

theorem cachePvcName_parts (policyName policyNs : String) (r : RepositoryRef) :
    cachePvcName policyName policyNs (some r) =
      cachePrefix ++ cacheSlugs policyName r.name ++ "-" ++ cacheTag r policyNs := by
  have hends : ∀ slugs : String, trimMatches '-' (cachePrefix ++ slugs ++ "-" ++
      cacheTag r policyNs) = cachePrefix ++ slugs ++ "-" ++ cacheTag r policyNs := by
    intro slugs
    refine trimMatches_eq_self ?_ ?_
    · simp [cachePrefix]
    · have htag := length_cacheTag r policyNs
      obtain ⟨init, last, hlast⟩ : ∃ init last, (cacheTag r policyNs).toList = init ++ [last] := by
        rcases List.eq_nil_or_concat (cacheTag r policyNs).toList with hnil | h
        · rw [hnil] at htag
          cases htag
        · simpa using h
      have hmem : last ∈ (fnv8 (repoKey r policyNs)).toList := by
        refine List.mem_of_mem_take (i := 6) ?_
        rw [← toList_cacheTag, hlast]
        simp
      rw [String.toList_append, hlast, ← List.append_assoc, List.getLast?_concat]
      exact fun heq => dash_not_mem_fnv8 _ (Option.some.inj heq ▸ hmem)
  have hslugs := hends (cacheSlugs policyName r.name)
  have hstart : cachePrefix.utf8ByteSize = 13 := rfl
  rw [← hslugs, cachePvcName, cacheSlugs, cacheTag]
  by_cases hcut : cacheSlugRoom < (sanitizeDns1123 policyName).utf8ByteSize +
    (sanitizeDns1123 r.name).utf8ByteSize
  · have hlong : 21 + (sanitizeDns1123 policyName).utf8ByteSize +
        (sanitizeDns1123 r.name).utf8ByteSize > 63 := by
      rw [cacheSlugRoom] at hcut
      omega
    simp only [if_pos hcut]
    simp only [size_fnv6, hstart, maxChildName, cacheSlugRoom, Nat.reduceAdd, Nat.reduceSub,
      String.append_assoc, if_pos hlong]
  · have hshort : ¬21 + (sanitizeDns1123 policyName).utf8ByteSize +
        (sanitizeDns1123 r.name).utf8ByteSize > 63 := by
      rw [cacheSlugRoom] at hcut
      omega
    simp only [if_neg hcut]
    simp only [size_fnv6, hstart, maxChildName, Nat.reduceAdd, String.append_assoc,
      if_neg hshort]

theorem length_sanitize (s : String) : (sanitizeDns1123 s).utf8ByteSize = s.length := by
  have hsize : (sanitizeDns1123 s).utf8ByteSize = (sanitizeDns1123 s).toList.length := by
    conv_lhs => rw [← String.ofList_toList (s := sanitizeDns1123 s)]
    exact size_of_chars fun c hc => .inl (isLabelChar_of_mem_sanitize hc)
  rw [hsize, sanitizeDns1123, String.toList_ofList, List.length_map, String.length_toList]

theorem trimEnd_sanitize (h : ValidName policyName) :
    trimEnd '-' (sanitizeDns1123 policyName) = sanitizeDns1123 policyName := by
  obtain ⟨hne, -, -, -, hlast⟩ := h
  obtain ⟨init, last, hlist⟩ : ∃ init last, policyName.toList = init ++ [last] := by
    rcases List.eq_nil_or_concat policyName.toList with hnil | h
    · exact absurd hnil hne
    · simpa using h
  have hend := hlast last (by simp [hlist])
  have halnum : last.isAlphanum = true := by
    simp only [Bool.or_eq_true] at hend
    simp only [Char.isAlphanum, isAlpha_eq, Bool.or_eq_true]
    exact hend.imp .inr id
  have hdash : (last.toLower == '-') = false := by
    have hlabel := isLabelEnd_toLower halnum
    exact beq_false_of_ne (isLabelEnd_ne_dash hlabel)
  rw [trimEnd, sanitizeDns1123, String.toList_ofList, hlist, List.map_append, List.map_singleton,
    if_pos halnum, trimEndMatches_concat, hdash, if_neg (by simp)]

theorem cacheSlugs_of_fits (h : ValidName policyName) (hfits : ¬CacheNameCut policyName repoName) :
    cacheSlugs policyName repoName =
      sanitizeDns1123 policyName ++ "-" ++ trimEnd '-' (sanitizeDns1123 repoName) := by
  rw [CacheNameCut, ← length_sanitize, ← length_sanitize] at hfits
  simp [cacheSlugs, hfits, clip, trimEnd_sanitize h]

theorem cachePvcName_some_inj
    (h : cachePvcName policyName policyNs (some r) = cachePvcName policyName' policyNs (some r')) :
    cacheSlugs policyName r.name = cacheSlugs policyName' r'.name ∧
      cacheTag r policyNs = cacheTag r' policyNs := by
  rw [cachePvcName_parts, cachePvcName_parts, ← String.toList_inj] at h
  simp only [String.toList_append, List.append_assoc, List.append_cancel_left_eq] at h
  rw [← List.append_assoc, ← List.append_assoc] at h
  obtain ⟨hslugs, htag⟩ := List.append_inj' h
    (by rw [length_cacheTag, length_cacheTag])
  exact ⟨String.toList_inj.mp (List.append_cancel_right hslugs), String.toList_inj.mp htag⟩

/-- Two policies come out alike in a repository: their slugs are the same, or a
name was cut. -/
def PoliciesMeet (policyName policyName' repoName : String) : Prop :=
  policyName ≠ policyName' ∧ cacheSlugs policyName repoName = cacheSlugs policyName' repoName ∧
    (sanitizeDns1123 policyName = sanitizeDns1123 policyName' ∨
      CacheNameCut policyName repoName ∨ CacheNameCut policyName' repoName)

theorem policiesMeet_of_slugs (h : ValidName policyName) (h' : ValidName policyName')
    (hne : policyName ≠ policyName')
    (hslugs : cacheSlugs policyName repoName = cacheSlugs policyName' repoName) :
    PoliciesMeet policyName policyName' repoName := by
  refine ⟨hne, hslugs, ?_⟩
  by_cases hcut : CacheNameCut policyName repoName ∨ CacheNameCut policyName' repoName
  · exact .inr hcut
  · rw [not_or] at hcut
    rw [cacheSlugs_of_fits h hcut.1, cacheSlugs_of_fits h' hcut.2] at hslugs
    rw [String.append_assoc, String.append_assoc] at hslugs
    exact .inl ((String.append_left_inj _).mp hslugs)

def TagsCollide (r r' : RepositoryRef) (policyNs : String) : Prop :=
  repoKey r policyNs ≠ repoKey r' policyNs ∧ cacheTag r policyNs = cacheTag r' policyNs

def LegacyMeets (policyName policyName' : String) (r : RepositoryRef) (policyNs : String) : Prop :=
  policyName = cacheSlugs policyName' r.name ++ "-" ++ cacheTag r policyNs

end Names

/-- A policy and one of its repositories, by names that Kubernetes admits. -/
structure ValidPair (policyNs policyName : String) (repo : Option RepositoryRef) : Prop where
  ns : ValidName policyNs
  policy : ValidName policyName
  repoNs : ∀ r ∈ repo, ∀ ns ∈ r.ns, ValidName ns
  repoName : ∀ r ∈ repo, ValidName r.name

theorem ValidPair.slash {policyNs policyName : String} {r : RepositoryRef}
    (h : ValidPair policyNs policyName (some r)) : '/' ∉ (r.ns.getD policyNs).toList := by
  cases hns : r.ns with
  | none => exact h.ns.not_mem (by decide)
  | some ns => exact (h.repoNs r rfl ns hns).not_mem (by decide)

/-- Equal cache PVC names in one namespace are of one pair, unless two tags
agree, two policies come out alike, or one policy is named like another pair. -/
theorem cache_pvc_names_separate (policyNs policyName policyName' : String)
    (repo repo' : Option RepositoryRef) (h : ValidPair policyNs policyName repo)
    (h' : ValidPair policyNs policyName' repo')
    (heq : cachePvcName policyName policyNs repo = cachePvcName policyName' policyNs repo') :
    (policyName = policyName' ∧ repo.map (normalizedRepositoryRef · policyNs) =
      repo'.map (normalizedRepositoryRef · policyNs)) ∨
    (∃ r ∈ repo, ∃ r' ∈ repo', TagsCollide r r' policyNs) ∨
    (∃ r ∈ repo, ∃ r' ∈ repo', repoKey r policyNs = repoKey r' policyNs ∧
      PoliciesMeet policyName policyName' r.name) ∨
    (repo = none ∧ ∃ r' ∈ repo', LegacyMeets policyName policyName' r' policyNs) ∨
    (repo' = none ∧ ∃ r ∈ repo, LegacyMeets policyName' policyName r policyNs) := by
  cases repo with
  | none =>
    cases repo' with
    | none => exact .inl ⟨(String.append_right_inj _).mp heq, rfl⟩
    | some r' =>
      rw [cachePvcName_parts, String.append_assoc, String.append_assoc] at heq
      refine .inr (.inr (.inr (.inl ⟨rfl, r', rfl, ?_⟩)))
      rw [LegacyMeets, (String.append_right_inj _).mp heq, String.append_assoc]
  | some r =>
    cases repo' with
    | none =>
      rw [cachePvcName_parts, String.append_assoc, String.append_assoc] at heq
      refine .inr (.inr (.inr (.inr ⟨rfl, r, rfl, ?_⟩)))
      rw [LegacyMeets, ← (String.append_right_inj _).mp heq, String.append_assoc]
    | some r' =>
      obtain ⟨hslugs, htag⟩ := cachePvcName_some_inj heq
      by_cases hkey : repoKey r policyNs = repoKey r' policyNs
      · have hnormal := repoKey_inj h.slash h'.slash hkey
        have hname : r.name = r'.name := by
          have hnames : ∀ q : RepositoryRef,
              (normalizedRepositoryRef q policyNs).name = q.name := fun q => by
            rw [normalizedRepositoryRef]
            cases q.kind <;> rfl
          rw [← hnames r, hnormal, hnames]
        by_cases hpolicy : policyName = policyName'
        · exact .inl ⟨hpolicy, congrArg some hnormal⟩
        · rw [← hname] at hslugs
          exact .inr (.inr (.inl ⟨r, rfl, r', rfl, hkey,
            policiesMeet_of_slugs h.policy h'.policy hpolicy hslugs⟩))
      · exact .inr (.inl ⟨r, rfl, r', rfl, hkey, htag⟩)

def nasIn (ns : String) : RepositoryRef := { name := "nas", ns := some ns }

/-- One pair under both spellings of its repository. -/
theorem cache_pvc_names_separate_nas :
    (some { name := "nas" } : Option RepositoryRef).map (normalizedRepositoryRef · "db") =
      (some (nasIn "db")).map (normalizedRepositoryRef · "db") := by
  have hvalid : ∀ repo : RepositoryRef, repo.name = "nas" → (∀ ns ∈ repo.ns, ns = "db") →
      ValidPair "db" "app" (some repo) := by
    intro repo hname hns
    refine ⟨by decide, by decide, fun r hr ns h => ?_, fun r hr => ?_⟩
    · obtain rfl := Option.some.inj hr
      rw [hns ns h]
      decide
    · obtain rfl := Option.some.inj hr
      rw [hname]
      decide
  rcases cache_pvc_names_separate "db" "app" "app" (some { name := "nas" }) (some (nasIn "db"))
    (hvalid _ rfl (by simp)) (hvalid _ rfl (by simp [nasIn])) (by decide) with
    hsame | ⟨r, hr, r', hr', hne, -⟩ | ⟨r, -, r', -, -, hne, -⟩ | ⟨hnone, -⟩ | ⟨hnone, -⟩
  · exact hsame.2
  · obtain rfl := Option.some.inj hr
    obtain rfl := Option.some.inj hr'
    exact absurd rfl hne
  · exact absurd rfl hne
  · cases hnone
  · cases hnone

/-- Two policies share a cache in one repository, and two repositories share one
although their hashes differ. -/
theorem cache_pvc_names_meet :
    (cachePvcName "a.b" "db" (some (nasIn "db")) = cachePvcName "a-b" "db" (some (nasIn "db"))) ∧
    (cachePvcName "app" "db" (some (nasIn "ns7141")) =
        cachePvcName "app" "db" (some (nasIn "ns12344")) ∧
      fnv8 (repoKey (nasIn "ns7141") "db") ≠ fnv8 (repoKey (nasIn "ns12344") "db")) := by
  rw [cachePvcName_parts, cachePvcName_parts, cachePvcName_parts, cachePvcName_parts]
  refine ⟨?_, ?_, ?_⟩
  · have hslugs : cacheSlugs "a.b" "nas" = cacheSlugs "a-b" "nas" := by decide
    exact congrArg (cachePrefix ++ · ++ "-" ++ cacheTag (nasIn "db") "db") hslugs
  · have htag : cacheTag (nasIn "ns7141") "db" = cacheTag (nasIn "ns12344") "db" := by decide
    rw [htag]
    rfl
  · decide

end Kopiur
