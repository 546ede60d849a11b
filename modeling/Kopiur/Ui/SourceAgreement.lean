import Kopiur.Ui.Source

/-!
# The two sources of a read

When the stores hold what the cluster holds and the reviews say what the
authorizer says, the cache answers a read as the API server would, but for a
list that spans the cluster and a denial whose text reads like a webhook's.
-/

namespace Kopiur.Ui

open Kopiur.Lib

section agreement

variable {α : Type}

/-- The API server answers the caller by its authorizer: with the objects in
the scope of the request, or 403. -/
structure Serves (kind : KopiurKind α) (authorizer : SarKey → Bool) (denial : SarKey → String)
    (cluster : List α) (server : ApiServer α) : Prop where
  list : ∀ key, authorizer key = true → ∃ items, server.list key = .ok items ∧
    ∀ o, o ∈ items ↔ o ∈ cluster ∧ (key.ns = none ∨ kind.ns o = key.ns)
  listDenied : ∀ key, authorizer key = false → server.list key = .error (.api ⟨403, denial key⟩)
  get : ∀ key name, key.name = some name → authorizer key = true →
    ∃ found, server.get key = .ok found ∧
      ∀ o, o ∈ found ↔ o ∈ cluster ∧ kind.ns o = key.ns ∧ kind.name o = name
  getDenied : ∀ key, authorizer key = false → server.get key = .error (.api ⟨403, denial key⟩)

def ClusterWide (authorizer : SarKey → Bool) : Prop :=
  ∀ id resource ns, authorizer (.new id "list" resource none none) = true →
    authorizer (.new id "list" resource (some ns) none) = true

/-- The same objects, or `Forbidden` in both. -/
def SameList : Except OpsError (List α) → Except OpsError (List α) → Prop
  | .ok items, .ok items' => ∀ o, o ∈ items ↔ o ∈ items'
  | .error e, .error e' => e.isForbidden = true ∧ e'.isForbidden = true
  | _, _ => False

/-- The same object or none, or `Forbidden` in both. -/
def SameGet : Except OpsError (Option α) → Except OpsError (Option α) → Prop
  | .ok found, .ok found' => found = found'
  | .error e, .error e' => e.isForbidden = true ∧ e'.isForbidden = true
  | _, _ => False

def ReadsAsWebhook (message : String) : Prop := containsText message "denied the request" = true

theorem isForbidden_classifyKube (verb kind resource : String) (ns name : Option String)
    (message : String) :
    (classifyKube verb kind resource ns name (.api ⟨403, message⟩)).isForbidden = true ↔
      ¬ReadsAsWebhook message := by
  unfold classifyKube ReadsAsWebhook
  dsimp only
  cases containsText message "denied the request" <;> simp [OpsError.isForbidden]

theorem not_kindAbsent (kind : KopiurKind α) (message : String) :
    kindAbsentAndOptional kind (.api ⟨403, message⟩) = false := by
  unfold kindAbsentAndOptional
  cases kind.optional <;> simp

variable {kind : KopiurKind α} {authorizer : SarKey → Bool} {denial : SarKey → String}
  {cluster : List α} {server : ApiServer α} {store : List α} {sar : Reviewer}

theorem visibleNamespaces_eq (hsar : ∀ key, sar key = .ok (authorizer key)) (id : Identity)
    (resource : String) (candidates : List String) :
    visibleNamespaces sar id resource candidates =
      .ok (if authorizer (.new id "list" resource none none) then .all
        else .namespaces (candidates.filter fun ns =>
          authorizer (.new id "list" resource (some ns) none))) := by
  unfold visibleNamespaces
  rw [hsar]
  cases authorizer (.new id "list" resource none none) with
  | true => rfl
  | false =>
    simp only [bind, Except.bind, Bool.false_eq_true, if_false]
    rw [filterM_of_ok (fun ns => hsar _)]
    rfl

/-- The caller may list the cluster, or lists one namespace and is not denied
in words that read like a webhook's. -/
def ListAgrees (kind : KopiurKind α) (authorizer : SarKey → Bool) (denial : SarKey → String)
    (id : Identity) (ns : Option String) : Prop :=
  authorizer (.new id "list" kind.plural none none) = true ∨
    ∃ n, effectiveNamespace kind ns = some n ∧
      (authorizer (.new id "list" kind.plural (some n) none) = true ∨
        ¬ReadsAsWebhook (denial (.new id "list" kind.plural (some n) none)))

def GetAgrees (kind : KopiurKind α) (authorizer : SarKey → Bool) (denial : SarKey → String)
    (id : Identity) (ns : Option String) (name : String) : Prop :=
  let key := SarKey.new id "get" kind.plural (effectiveNamespace kind ns) (some name)
  authorizer key = true ∨ ¬ReadsAsWebhook (denial key)

theorem impersonated_list_denied (hserver : Serves kind authorizer denial cluster server)
    {id : Identity} {ns : Option String}
    (hdenied : authorizer (.new id "list" kind.plural (effectiveNamespace kind ns) none) = false) :
    Source.list kind .impersonated id server ns =
      .error (classifyKube "list" kind.kind kind.plural (effectiveNamespace kind ns) none
        (.api ⟨403, denial (.new id "list" kind.plural (effectiveNamespace kind ns) none)⟩)) := by
  simp only [Source.list, hserver.listDenied _ hdenied, not_kindAbsent, Bool.false_eq_true,
    if_false]

theorem impersonated_list_allowed (hserver : Serves kind authorizer denial cluster server)
    {id : Identity} {ns : Option String}
    (hallowed : authorizer (.new id "list" kind.plural (effectiveNamespace kind ns) none) = true) :
    ∃ items, Source.list kind .impersonated id server ns = .ok items ∧
      ∀ o, o ∈ items ↔ o ∈ cluster ∧
        (effectiveNamespace kind ns = none ∨ kind.ns o = effectiveNamespace kind ns) := by
  obtain ⟨items, hitems, hmem⟩ := hserver.list _ hallowed
  exact ⟨items, by simp only [Source.list, hitems], hmem⟩

theorem cache_list_wide (store : List α) (server : ApiServer α)
    (hsar : ∀ key, sar key = .ok (authorizer key)) {id : Identity}
    {ns : Option String} (hwide : authorizer (.new id "list" kind.plural none none) = true) :
    ∃ items, Source.list kind (.cache store sar) id server ns = .ok items ∧
      ∀ o, o ∈ items ↔ o ∈ store ∧
        (effectiveNamespace kind ns = none ∨ kind.ns o = effectiveNamespace kind ns) := by
  simp only [Source.list, visibleNamespaces_eq hsar, hwide, if_true, bind, Except.bind]
  cases hns : effectiveNamespace kind ns with
  | none => exact ⟨store, rfl, by simp⟩
  | some n => exact ⟨_, rfl, by simp [filterVisible]⟩

theorem cache_list_cluster (store : List α) (server : ApiServer α)
    (hsar : ∀ key, sar key = .ok (authorizer key)) {id : Identity}
    {ns : Option String} (hns : effectiveNamespace kind ns = none) :
    ∃ items, Source.list kind (.cache store sar) id server ns = .ok items := by
  simp only [Source.list, visibleNamespaces_eq hsar, hns, bind, Except.bind, deniedNamespace]
  exact ⟨_, rfl⟩

theorem cache_list_namespace (hsar : ∀ key, sar key = .ok (authorizer key)) {id : Identity}
    {ns : Option String} {n : String} (hns : effectiveNamespace kind ns = some n)
    (hwide : authorizer (.new id "list" kind.plural none none) = false) :
    Source.list kind (.cache store sar) id server ns =
      if authorizer (.new id "list" kind.plural (some n) none) then
        .ok (store.filter fun o => kind.ns o = some n)
      else .error (forbidden kind "list" (some n) none) := by
  simp only [Source.list, visibleNamespaces_eq hsar, hns, hwide, Bool.false_eq_true, if_false,
    bind, Except.bind]
  cases hallowed : authorizer (.new id "list" kind.plural (some n) none) with
  | false => simp [hallowed, deniedNamespace]
  | true =>
    simp only [hallowed, List.filter_cons_of_pos, List.filter_nil, deniedNamespace, if_true,
      filterVisible, List.filter_filter]
    congr 1
    apply List.filter_congr
    intro o _
    by_cases ho : kind.ns o = some n <;> simp [ho]

theorem sameList_iff (hsar : ∀ key, sar key = .ok (authorizer key))
    (hwide : ClusterWide authorizer) (hserver : Serves kind authorizer denial cluster server)
    (hstore : ∀ o, o ∈ store ↔ o ∈ cluster) (id : Identity) (ns : Option String) :
    SameList (Source.list kind (.cache store sar) id server ns)
        (Source.list kind .impersonated id server ns) ↔
      ListAgrees kind authorizer denial id ns := by
  unfold ListAgrees
  cases hcluster : authorizer (.new id "list" kind.plural none none) with
  | true =>
    have hallowed : authorizer
        (.new id "list" kind.plural (effectiveNamespace kind ns) none) = true := by
      cases effectiveNamespace kind ns with
      | none => exact hcluster
      | some n => exact hwide id kind.plural n hcluster
    obtain ⟨items, hitems, hmem⟩ := impersonated_list_allowed hserver hallowed
    obtain ⟨cached, hcached, hmem'⟩ :=
      cache_list_wide store server hsar hcluster
    rw [hitems, hcached]
    refine iff_of_true (fun o => ?_) (.inl rfl)
    rw [hmem, hmem', hstore]
  | false =>
    cases hns : effectiveNamespace kind ns with
    | none =>
      obtain ⟨cached, hcached⟩ :=
        cache_list_cluster store server hsar hns
      rw [impersonated_list_denied hserver (hns ▸ hcluster), hcached]
      refine iff_of_false (fun h => h) ?_
      rintro (h | ⟨n, hn, -⟩)
      · cases h
      · cases hn
    | some n =>
      rw [cache_list_namespace hsar hns hcluster]
      cases hallowed : authorizer (.new id "list" kind.plural (some n) none) with
      | true =>
        obtain ⟨items, hitems, hmem⟩ := impersonated_list_allowed hserver (hns ▸ hallowed)
        rw [hitems, if_pos rfl]
        refine iff_of_true (fun o => ?_) (.inr ⟨n, rfl, .inl hallowed⟩)
        rw [hmem, hns]
        simp [hstore]
      | false =>
        rw [impersonated_list_denied hserver (hns ▸ hallowed), hns, if_neg Bool.false_ne_true]
        constructor
        · rintro ⟨-, h⟩
          exact .inr ⟨n, rfl, .inr ((isForbidden_classifyKube ..).mp h)⟩
        · rintro (h | ⟨m, hm, h⟩)
          · cases h
          · obtain rfl := Option.some.inj hm
            refine ⟨rfl, (isForbidden_classifyKube ..).mpr (h.resolve_left ?_)⟩
            rw [hallowed]
            exact Bool.false_ne_true

theorem sameGet_iff (hsar : ∀ key, sar key = .ok (authorizer key))
    (hserver : Serves kind authorizer denial cluster server)
    (hstore : ∀ o, o ∈ store ↔ o ∈ cluster) (id : Identity) (ns : Option String)
    (name : String) :
    SameGet (Source.get kind (.cache store sar) id server ns name)
        (Source.get kind .impersonated id server ns name) ↔
      GetAgrees kind authorizer denial id ns name := by
  unfold GetAgrees
  simp only [Source.get, hsar, bind, Except.bind]
  cases hallowed : authorizer
      (.new id "get" kind.plural (effectiveNamespace kind ns) (some name)) with
  | false =>
    rw [hserver.getDenied _ hallowed]
    simp only [Bool.false_eq_true, if_false, false_or]
    constructor
    · rintro ⟨-, h⟩
      exact (isForbidden_classifyKube ..).mp h
    · exact fun h => ⟨rfl, (isForbidden_classifyKube ..).mpr h⟩
  | true =>
    obtain ⟨found, hfound, hmem⟩ := hserver.get _ name rfl hallowed
    rw [hfound]
    refine iff_of_true ?_ (.inl rfl)
    show store.find? _ = found
    cases hf : store.find? fun o => kind.ns o = effectiveNamespace kind ns ∧ kind.name o = name with
    | none =>
      cases found with
      | none => rfl
      | some o =>
        obtain ⟨ho, hat⟩ := (hmem o).mp rfl
        have := List.find?_eq_none.mp hf o ((hstore o).mpr ho)
        exact absurd (decide_eq_true hat) this
    | some o =>
      have ho := (hstore o).mp (List.mem_of_find?_eq_some hf)
      have hat := List.find?_some hf
      simp only [decide_eq_true_eq] at hat
      exact ((hmem o).mpr ⟨ho, hat⟩).symm

/-- The arms agree on a list exactly if it is of one namespace or the caller
may list the cluster, and on a get always; but for denials that read like a
webhook's. -/
theorem reads_agree_iff (hsar : ∀ key, sar key = .ok (authorizer key))
    (hwide : ClusterWide authorizer) (hserver : Serves kind authorizer denial cluster server)
    (hstore : ∀ o, o ∈ store ↔ o ∈ cluster) (id : Identity) (ns : Option String)
    (name : String) :
    (SameList (Source.list kind (.cache store sar) id server ns)
        (Source.list kind .impersonated id server ns) ↔
      ListAgrees kind authorizer denial id ns) ∧
    (SameGet (Source.get kind (.cache store sar) id server ns name)
        (Source.get kind .impersonated id server ns name) ↔
      GetAgrees kind authorizer denial id ns name) :=
  ⟨sameList_iff hsar hwide hserver hstore id ns,
    sameGet_iff hsar hserver hstore id ns name⟩

end agreement

section tenant

structure Row where
  ns : Option String
  name : String
deriving DecidableEq

def snapshotKind : KopiurKind Row where
  kind := "Snapshot"
  plural := "snapshots"
  namespaced := true
  optional := false
  ns := Row.ns
  name := Row.name

def clusterRepositoryKind : KopiurKind Row where
  kind := "ClusterRepository"
  plural := "clusterrepositories"
  namespaced := false
  optional := false
  ns := Row.ns
  name := Row.name

def twoTenants : List Row := [⟨some "prod", "db-1"⟩, ⟨some "dev", "web-1"⟩]

def sharedRepository : List Row := [⟨none, "nas"⟩]

def prodOnly (key : SarKey) : Bool := key.ns = some "prod"

def rbacDenial (key : SarKey) : String :=
  key.resource ++ ".kopiur.home-operations.com is forbidden: User \"" ++ key.user ++
    "\" cannot " ++ key.verb ++ " resource"

def rbacServer (kind : KopiurKind Row) (cluster : List Row) (authorizer : SarKey → Bool) :
    ApiServer Row where
  list key :=
    if authorizer key then .ok (cluster.filter fun o => key.ns = none ∨ kind.ns o = key.ns)
    else .error (.api ⟨403, rbacDenial key⟩)
  get key :=
    if authorizer key then
      .ok (cluster.find? fun o => kind.ns o = key.ns ∧ some (kind.name o) = key.name)
    else .error (.api ⟨403, rbacDenial key⟩)

theorem rbacServer_serves {kind : KopiurKind Row} {cluster : List Row}
    (hunique : ∀ o ∈ cluster, ∀ o' ∈ cluster,
      kind.ns o = kind.ns o' → kind.name o = kind.name o' → o = o') (authorizer : SarKey → Bool) :
    Serves kind authorizer rbacDenial cluster (rbacServer kind cluster authorizer) where
  list key hallowed := ⟨_, if_pos hallowed, fun o => by simp⟩
  listDenied key hdenied := if_neg (Bool.eq_false_iff.mp hdenied)
  get key name hname hallowed := by
    refine ⟨_, if_pos hallowed, fun o => ?_⟩
    rw [hname]
    constructor
    · intro ho
      have hat := List.find?_some ho
      simp only [decide_eq_true_eq, Option.some.injEq] at hat
      exact ⟨List.mem_of_find?_eq_some ho, hat⟩
    · rintro ⟨ho, hns, hobj⟩
      cases hf : cluster.find? fun o => kind.ns o = key.ns ∧ some (kind.name o) = some name with
      | none =>
        have := List.find?_eq_none.mp hf o ho
        simp [hns, hobj] at this
      | some o' =>
        have hat := List.find?_some hf
        simp only [decide_eq_true_eq, Option.some.injEq] at hat
        rw [hunique o ho o' (List.mem_of_find?_eq_some hf) (hns.trans hat.1.symm)
          (hobj.trans hat.2.symm)]
        rfl
  getDenied key hdenied := if_neg (Bool.eq_false_iff.mp hdenied)

def ada : Identity := ⟨"ada", ["dev", "system:authenticated"], [], none, [], .trustedHeaders⟩

theorem reads_agree_iff_prod :
    SameList
      (Source.list snapshotKind (.cache twoTenants fun key => .ok (prodOnly key)) ada
        (rbacServer snapshotKind twoTenants prodOnly) (some "prod"))
      (Source.list snapshotKind .impersonated ada
        (rbacServer snapshotKind twoTenants prodOnly) (some "prod")) := by
  refine (reads_agree_iff (fun _ => rfl) ?_ (rbacServer_serves (by decide) prodOnly)
    (fun _ => Iff.rfl) ada (some "prod") "db-1").1.mpr (.inr ⟨"prod", rfl, .inl (by decide)⟩)
  intro id resource ns h
  exact absurd (of_decide_eq_true h) (by simp [SarKey.new])

theorem not_sameList {items : List Row} {direct : Except OpsError (List Row)}
    (h : (match direct with | .error e => e.isForbidden | .ok _ => false) = true) :
    ¬SameList (.ok items) direct := by
  cases direct with
  | ok items' => cases h
  | error e => exact fun h => h

/-- A list over all namespaces: the cache shows what the API server refuses;
and of a cluster-scoped kind, the cache shows nothing where the API server
refuses. -/
theorem reads_disagree_cluster_wide :
    let cached := Source.list snapshotKind (.cache twoTenants fun key => .ok (prodOnly key)) ada
      (rbacServer snapshotKind twoTenants prodOnly) none
    let direct := Source.list snapshotKind .impersonated ada
      (rbacServer snapshotKind twoTenants prodOnly) none
    let cachedRepositories := Source.list clusterRepositoryKind
      (.cache sharedRepository fun key => .ok (prodOnly key)) ada
      (rbacServer clusterRepositoryKind sharedRepository prodOnly) none
    let directRepositories := Source.list clusterRepositoryKind .impersonated ada
      (rbacServer clusterRepositoryKind sharedRepository prodOnly) none
    (cached = .ok [⟨some "prod", "db-1"⟩] ∧
      (match direct with | .error e => e.isForbidden | .ok _ => false) = true ∧
      ¬SameList cached direct) ∧
    (cachedRepositories = .ok [] ∧
      (match directRepositories with | .error e => e.isForbidden | .ok _ => false) = true ∧
      ¬SameList cachedRepositories directRepositories) := by
  intro cached direct cachedRepositories directRepositories
  have hcached : cached = .ok [⟨some "prod", "db-1"⟩] := by decide
  have hrepositories : cachedRepositories = .ok [] := by decide
  have hdirect : (match direct with | .error e => e.isForbidden | .ok _ => false) = true := by
    decide
  have hdirectRepositories :
      (match directRepositories with | .error e => e.isForbidden | .ok _ => false) = true := by
    decide
  exact ⟨⟨hcached, hdirect, hcached ▸ not_sameList hdirect⟩,
    hrepositories, hdirectRepositories, hrepositories ▸ not_sameList hdirectRepositories⟩

end tenant

end Kopiur.Ui
