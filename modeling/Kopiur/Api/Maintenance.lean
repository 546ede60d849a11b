import Kopiur.Api.ChildNames
import Kopiur.Lib.DnsNames

/-!
# The owner of a repository's maintenance

kopia runs maintenance for one designated owner. The operator derives that
owner from a lease, and the lease from the repository object it manages and the
cluster it runs in.
-/

namespace Kopiur

open Lib

inductive TakeoverPolicy
  | never
  | promptCondition
  | force
deriving DecidableEq

inductive LeaseAction
  | claim
  | yield
  | prompt
  | takeover
deriving DecidableEq

def leaseAction (policy : TakeoverPolicy) (heldByOther : Bool) : LeaseAction :=
  if !heldByOther then .claim
  else
    match policy with
    | .never => .yield
    | .promptCondition => .prompt
    | .force => .takeover

def managedLease (kind : RepositoryKind) (ns name : String) (cluster : Option String) : String :=
  match kind, cluster with
  | .repository, none => "kopiur/" ++ ns ++ "/" ++ name
  | .repository, some c => "kopiur/" ++ c ++ "/" ++ ns ++ "/" ++ name
  | .clusterRepository, none => "kopiur/clusterrepository/" ++ name
  | .clusterRepository, some c => "kopiur/" ++ c ++ "/clusterrepository/" ++ name

def sanitizeLeaseFragment (s : List Char) : List Char :=
  let out := (s.map Char.toLower).map fun c => if c.isAlphanum then c else '-'
  let out := collapse '-' out.length out
  trimEndMatches (· == '-') (out.dropWhile (· == '-'))

def legacyHostnameMax : Nat := 63

def clusterHostnameMax : Nat := 253

def leaseHost (lease : List Char) : List Char :=
  match lease.splitOn '/' with
  | [a, b, c, d] =>
    if a = "kopiur".toList then
      let joined := List.intercalate ['.'] ([a, b, c, d].map sanitizeLeaseFragment)
      trimEndMatches (fun c => c == '.' || c == '-') (joined.take clusterHostnameMax)
    else legacyHost lease
  | _ => legacyHost lease
where
  legacyHost (lease : List Char) : List Char :=
    trimEndMatches (· == '-') ((sanitizeLeaseFragment lease).take legacyHostnameMax)

def kopiaLeaseIdentity (lease : String) : String × String :=
  ("kopiur", String.ofList (leaseHost lease.toList))

def kopiaOwnerForLease (lease : String) : String :=
  let (user, host) := kopiaLeaseIdentity lease
  user ++ "@" ++ host

def leaseHeldByOther (current lease : String) (aliases : List String) : Bool :=
  if current.isEmpty then false
  else if current == kopiaOwnerForLease lease then false
  else !aliases.any fun a => current == kopiaOwnerForLease a

/-- The aliases a managed Maintenance carries: the lease of the time before the
cluster was set. -/
def managedOwnerAliases (kind : RepositoryKind) (ns name : String) (cluster : Option String) :
    List String :=
  if cluster.isSome then [managedLease kind ns name none] else []

def clusterNameMaxLen : Nat := 32

structure ClusterNameInvalid where
  value : String
  reason : String
deriving DecidableEq

def isLabelChar (c : Char) : Bool := c.isLower || c.isDigit || c == '-'

def isRfc1123Label (l : List Char) : Bool :=
  l.all isLabelChar && l.head?.any Char.isAlphanum && l.getLast?.any Char.isAlphanum

def validateClusterName (value : String) : Except ClusterNameInvalid Unit :=
  if value.isEmpty then .error ⟨value, "must not be empty"⟩
  else if value.utf8ByteSize > clusterNameMaxLen then
    .error ⟨value, "is " ++ toString value.utf8ByteSize ++ " characters; the maximum is " ++
      toString clusterNameMaxLen⟩
  else if value.toList.contains '.' then
    .error ⟨value, "must not contain '.' — the first '.' in a hostname is the " ++
      "namespace/cluster delimiter"⟩
  else if !isRfc1123Label value.toList then
    .error ⟨value, "must be a lowercase RFC 1123 label: lowercase alphanumeric " ++
      "characters or '-', starting and ending with an alphanumeric character"⟩
  else .ok ()

def isNamespaceName (s : String) : Bool := isRfc1123Label s.toList && s.length ≤ 63

def isObjectName (s : String) : Bool := (s.toList.splitOn '.').all isRfc1123Label && s.length ≤ 253

/-- A repository object of a cluster that has its name set. A ClusterRepository
has no namespace. -/
structure ClusterObject where
  cluster : String
  kind : RepositoryKind
  ns : String
  name : String
  cluster_valid : validateClusterName cluster = .ok ()
  ns_valid : kind = .repository → isNamespaceName ns = true
  ns_empty : kind = .clusterRepository → ns = ""
  name_valid : isObjectName name = true
deriving DecidableEq

namespace ClusterObject

def lease (x : ClusterObject) : String := managedLease x.kind x.ns x.name (some x.cluster)

def owner (x : ClusterObject) : String := kopiaOwnerForLease x.lease

def aliases (x : ClusterObject) : List String :=
  managedOwnerAliases x.kind x.ns x.name (some x.cluster)

end ClusterObject

def undotted (c : Char) : Char := if c = '.' then '-' else c

def dashRuns (s : String) : List Char := squeeze '-' (s.toList.map undotted)

structure Worded (l : List Char) : Prop where
  chars : ∀ c ∈ l, isLabelChar c = true ∨ c = '.'
  head : ∃ a rest, l = a :: rest ∧ a.isAlphanum = true
  last : ∃ init z, l = init ++ [z] ∧ z.isAlphanum = true

theorem Worded.of_label {l : List Char} (h : isRfc1123Label l = true) : Worded l := by
  simp only [isRfc1123Label, Bool.and_eq_true, List.all_eq_true, Option.any_eq_true] at h
  obtain ⟨⟨hchars, a, ha, haln⟩, z, hz, hzaln⟩ := h
  obtain ⟨rest, hl⟩ := List.head?_eq_some_iff.mp ha
  obtain ⟨init, hl'⟩ := List.getLast?_eq_some_iff.mp hz
  exact ⟨fun c hc => .inl (hchars c hc), ⟨a, rest, hl, haln⟩, ⟨init, z, hl', hzaln⟩⟩

theorem Worded.dotted {l m : List Char} (hl : Worded l) (hm : Worded m) :
    Worded (l ++ '.' :: m) := by
  obtain ⟨a, rest, rfl, ha⟩ := hl.head
  obtain ⟨init, z, rfl, hz⟩ := hm.last
  refine ⟨?_, ⟨a, _, rfl, ha⟩, ⟨a :: rest ++ '.' :: init, z, by simp, hz⟩⟩
  intro c hc
  rcases List.mem_append.mp hc with hc | hc
  · exact hl.chars c hc
  · rcases List.mem_cons.mp hc with rfl | hc
    · exact .inr rfl
    · exact hm.chars c hc

theorem Worded.of_labels {ls : List (List Char)} (hne : ls ≠ [])
    (h : ∀ l ∈ ls, isRfc1123Label l = true) : Worded (List.intercalate ['.'] ls) := by
  induction ls with
  | nil => exact absurd rfl hne
  | cons l ls ih =>
    have hl := Worded.of_label (h l List.mem_cons_self)
    cases ls with
    | nil => simpa using hl
    | cons m ls =>
      rw [List.intercalate_cons_cons, List.append_assoc, List.singleton_append]
      exact hl.dotted (ih (by simp) fun k hk => h k (List.mem_cons_of_mem _ hk))

theorem Worded.of_objectName {s : String} (h : isObjectName s = true) : Worded s.toList := by
  simp only [isObjectName, Bool.and_eq_true, List.all_eq_true] at h
  have hw := Worded.of_labels (List.splitOn_ne_nil _ _) h.1
  rwa [List.intercalate_splitOn] at hw

theorem dash_not_alphanum {c : Char} (h : c.isAlphanum = true) : c ≠ '-' := by
  rintro rfl
  exact absurd h (by decide)

theorem undotted_of_alphanum {c : Char} (h : c.isAlphanum = true) : undotted c = c := by
  refine if_neg ?_
  rintro rfl
  exact absurd h (by decide)

theorem toLower_of_not_upper {c : Char} (h : c.isLower = true ∨ c.isDigit = true) :
    c.toLower = c := by
  refine dif_neg ?_
  simp only [isLower_eq, Char.isDigit, Bool.and_eq_true, decide_eq_true_eq] at h
  grind

theorem sanitized_char {c : Char} (h : isLabelChar c = true ∨ c = '.') :
    (if c.toLower.isAlphanum then c.toLower else '-') = undotted c := by
  simp only [isLabelChar, Bool.or_eq_true, beq_iff_eq] at h
  rcases h with (hword | rfl) | rfl
  · have haln : c.isAlphanum = true := by
      rcases hword with h | h <;> simp [Char.isAlphanum, isAlpha_eq, h]
    rw [toLower_of_not_upper hword, if_pos haln, undotted_of_alphanum haln]
  · rfl
  · rfl

theorem sanitizeLeaseFragment_worded {s : String} (h : Worded s.toList) :
    sanitizeLeaseFragment s.toList = dashRuns s := by
  unfold dashRuns
  generalize s.toList = l at h ⊢
  have hmap : ((l.map Char.toLower).map fun c => if c.isAlphanum then c else '-') =
      l.map undotted := by
    rw [List.map_map]
    refine List.map_congr_left fun c hc => ?_
    exact sanitized_char (h.chars c hc)
  have hhead : ((squeeze '-' (l.map undotted)).dropWhile (· == '-')) =
      squeeze '-' (l.map undotted) := by
    obtain ⟨a, rest, rfl, ha⟩ := h.head
    rw [List.map_cons, undotted_of_alphanum ha, squeeze_cons (dash_not_alphanum ha)]
    simp [dash_not_alphanum ha]
  have hlast : trimEndMatches (· == '-') (squeeze '-' (l.map undotted)) =
      squeeze '-' (l.map undotted) := by
    obtain ⟨init, z, rfl, hz⟩ := h.last
    rw [List.map_append, List.map_singleton, undotted_of_alphanum hz,
      squeeze_concat (dash_not_alphanum hz)]
    simp [trimEndMatches, dash_not_alphanum hz]
  simp only [sanitizeLeaseFragment, hmap]
  rw [collapse_eq_squeeze (Nat.le_refl _), hhead, hlast]

theorem dot_not_mem_dashRuns (s : String) : '.' ∉ dashRuns s := by
  intro h
  obtain ⟨c, -, hc⟩ := List.mem_map.mp (mem_of_mem_squeeze h)
  unfold undotted at hc
  split at hc
  · cases hc
  · contradiction

theorem dot_not_mem_sanitizeLeaseFragment (l : List Char) : '.' ∉ sanitizeLeaseFragment l := by
  intro h
  simp only [sanitizeLeaseFragment, trimEndMatches, List.mem_reverse] at h
  have h := (List.dropWhile_sublist _).subset h
  rw [List.mem_reverse] at h
  have h := (List.dropWhile_sublist _).subset h
  rw [collapse_eq_squeeze (Nat.le_refl _)] at h
  obtain ⟨c, -, hc⟩ := List.mem_map.mp (mem_of_mem_squeeze h)
  split at hc
  case isTrue haln => exact absurd (hc ▸ haln) (by decide)
  case isFalse => cases hc

theorem Worded.slash_not_mem {l : List Char} (h : Worded l) : '/' ∉ l := by
  intro hmem
  rcases h.chars '/' hmem with h | h <;> exact absurd h (by decide)

theorem Worded.dashRuns_head {s : String} (h : Worded s.toList) :
    ∃ a rest, dashRuns s = a :: rest ∧ a ≠ '-' := by
  obtain ⟨a, rest, hs, ha⟩ := h.head
  refine ⟨a, squeeze '-' (rest.map undotted), ?_, dash_not_alphanum ha⟩
  rw [dashRuns, hs, List.map_cons, undotted_of_alphanum ha, squeeze_cons (dash_not_alphanum ha)]

theorem length_dashRuns_le (s : String) : (dashRuns s).length ≤ s.length := by
  have h := length_squeeze_le (c := '-') (s.toList.map undotted)
  rwa [List.length_map, String.length_toList] at h

theorem trimEndMatches_append {p : Char → Bool} {a b : List Char} (h : ∃ c ∈ b, p c = false) :
    trimEndMatches p (a ++ b) = a ++ trimEndMatches p b := by
  obtain ⟨c, hc, hp⟩ := h
  obtain ⟨u, v, rfl⟩ := List.append_of_mem hc
  simp only [trimEndMatches, List.reverse_append, List.reverse_cons, List.append_assoc,
    List.cons_append]
  rw [dropWhile_append_cons hp, dropWhile_append_cons hp]
  simp

theorem trimEndMatches_congr {p q : Char → Bool} {l : List Char} (h : ∀ c ∈ l, p c = q c) :
    trimEndMatches p l = trimEndMatches q l := by
  unfold trimEndMatches
  have hrev : ∀ m : List Char, (∀ c ∈ m, p c = q c) → m.dropWhile p = m.dropWhile q := by
    intro m hm
    induction m with
    | nil => rfl
    | cons a m ih =>
      rw [List.dropWhile_cons, List.dropWhile_cons, hm a List.mem_cons_self,
        ih fun c hc => hm c (List.mem_cons_of_mem _ hc)]
  rw [hrev _ fun c hc => h c (List.mem_reverse.mp hc)]

theorem trim_capped {before l : List Char} {m : Nat} (hroom : before.length < m) (hdot : '.' ∉ l)
    (hhead : ∃ a rest, l = a :: rest ∧ a ≠ '-') :
    trimEndMatches (fun c => c == '.' || c == '-') ((before ++ l).take m) =
      before ++ trimEndMatches (· == '-') (l.take (m - before.length)) := by
  have hkept : ∃ c ∈ l.take (m - before.length), (c == '.' || c == '-') = false := by
    obtain ⟨a, rest, rfl, ha⟩ := hhead
    have hdot : a ≠ '.' := fun h => hdot (h ▸ List.mem_cons_self)
    obtain ⟨n, hn⟩ := Nat.exists_eq_succ_of_ne_zero (Nat.sub_ne_zero_of_lt hroom)
    exact ⟨a, hn ▸ List.mem_cons_self, by simp [ha, hdot]⟩
  rw [List.take_append, List.take_of_length_le (Nat.le_of_lt hroom), trimEndMatches_append hkept]
  congr 1
  refine trimEndMatches_congr fun c hc => ?_
  have hc : c ≠ '.' := fun h => hdot (h ▸ List.mem_of_mem_take hc)
  simp [hc]

namespace ClusterObject

def segment (x : ClusterObject) : String :=
  match x.kind with
  | .repository => x.ns
  | .clusterRepository => "clusterrepository"

def keptName (x : ClusterObject) : List Char :=
  -- The word kopiur and three dots.
  let before := 9 + (dashRuns x.cluster).length + (dashRuns x.segment).length
  trimEndMatches (· == '-') ((dashRuns x.name).take (clusterHostnameMax - before))

/-- The objects differ in their cluster, their namespace or their name, dots and
runs of dashes read as one dash, the name as far as the cap leaves it. -/
def ToldApart (x y : ClusterObject) : Prop :=
  dashRuns x.cluster ≠ dashRuns y.cluster ∨ dashRuns x.segment ≠ dashRuns y.segment ∨
    x.keptName ≠ y.keptName

variable (x y : ClusterObject)

theorem cluster_label : isRfc1123Label x.cluster.toList = true ∧ x.cluster.length ≤ 32 := by
  have h := x.cluster_valid
  have hbytes := length_le_utf8ByteSize x.cluster
  unfold validateClusterName at h
  split at h
  · cases h
  split at h
  · cases h
  next hmax =>
    split at h
    · cases h
    split at h
    · cases h
    next hlabel =>
      unfold clusterNameMaxLen at hmax
      exact ⟨by simpa using hlabel, by omega⟩

theorem cluster_worded : Worded x.cluster.toList := .of_label x.cluster_label.1

theorem segment_name : isNamespaceName x.segment = true := by
  unfold segment
  cases h : x.kind with
  | repository => exact x.ns_valid h
  | clusterRepository => exact (by decide : isNamespaceName "clusterrepository" = true)

theorem segment_worded : Worded x.segment.toList := by
  have h := x.segment_name
  simp only [isNamespaceName, Bool.and_eq_true] at h
  exact .of_label h.1

theorem name_worded : Worded x.name.toList := .of_objectName x.name_valid

theorem lease_split : x.lease.toList.splitOn '/' =
    ["kopiur".toList, x.cluster.toList, x.segment.toList, x.name.toList] := by
  have hlease : x.lease.toList = List.intercalate ['/']
      ["kopiur".toList, x.cluster.toList, x.segment.toList, x.name.toList] := by
    unfold lease managedLease segment
    cases x.kind <;> simp [List.intercalate]
  rw [hlease]
  refine List.splitOn_intercalate '/' ?_ (by simp)
  intro l hl
  simp only [List.mem_cons, List.not_mem_nil, or_false] at hl
  rcases hl with rfl | rfl | rfl | rfl
  · decide
  · exact x.cluster_worded.slash_not_mem
  · exact x.segment_worded.slash_not_mem
  · exact x.name_worded.slash_not_mem

theorem room : 9 + (dashRuns x.cluster).length + (dashRuns x.segment).length <
    clusterHostnameMax := by
  have hcluster := (length_dashRuns_le x.cluster).trans x.cluster_label.2
  have hsegment := x.segment_name
  simp only [isNamespaceName, Bool.and_eq_true, decide_eq_true_eq] at hsegment
  have hsegment := (length_dashRuns_le x.segment).trans hsegment.2
  unfold clusterHostnameMax
  omega

theorem leaseHost_lease : leaseHost x.lease.toList =
    "kopiur.".toList ++ (dashRuns x.cluster ++ '.' :: (dashRuns x.segment ++ '.' :: x.keptName)) := by
  have hkopiur : sanitizeLeaseFragment "kopiur".toList = "kopiur".toList := by decide
  have hjoined : List.intercalate ['.'] ["kopiur".toList, dashRuns x.cluster, dashRuns x.segment,
      dashRuns x.name] = ("kopiur.".toList ++ dashRuns x.cluster ++ '.' :: dashRuns x.segment ++
        ['.']) ++ dashRuns x.name := by
    simp [List.intercalate]
  have hlen : ("kopiur.".toList ++ dashRuns x.cluster ++ '.' :: dashRuns x.segment ++
      ['.']).length = 9 + (dashRuns x.cluster).length + (dashRuns x.segment).length := by
    simp
    omega
  simp only [leaseHost, x.lease_split, if_true, List.map_cons, List.map_nil, hkopiur,
    sanitizeLeaseFragment_worded x.cluster_worded, sanitizeLeaseFragment_worded x.segment_worded,
    sanitizeLeaseFragment_worded x.name_worded, hjoined]
  rw [trim_capped (hlen ▸ x.room) (dot_not_mem_dashRuns x.name) x.name_worded.dashRuns_head, hlen]
  simp [keptName]

theorem owner_toList : x.owner.toList = "kopiur@kopiur.".toList ++
    (dashRuns x.cluster ++ '.' :: (dashRuns x.segment ++ '.' :: x.keptName)) := by
  simp [owner, kopiaOwnerForLease, kopiaLeaseIdentity, leaseHost_lease]

theorem owner_eq_iff : x.owner = y.owner ↔ ¬ToldApart x y := by
  unfold ToldApart
  push Not
  rw [← String.toList_inj, owner_toList, owner_toList, List.append_cancel_left_eq]
  constructor
  · intro h
    obtain ⟨hcluster, hrest⟩ :=
      append_cons_inj_left (dot_not_mem_dashRuns _) (dot_not_mem_dashRuns _) h
    obtain ⟨hsegment, hname⟩ :=
      append_cons_inj_left (dot_not_mem_dashRuns _) (dot_not_mem_dashRuns _) hrest
    exact ⟨hcluster, hsegment, hname⟩
  · rintro ⟨hcluster, hsegment, hname⟩
    rw [hcluster, hsegment, hname]

theorem owner_ne_alias {a : String} (ha : a ∈ x.aliases) : y.owner ≠ kopiaOwnerForLease a := by
  have hsplit : a.toList.splitOn '/' =
      ["kopiur".toList, x.segment.toList, x.name.toList] := by
    have hlist : a.toList = List.intercalate ['/']
        ["kopiur".toList, x.segment.toList, x.name.toList] := by
      simp only [aliases, managedOwnerAliases, Option.isSome_some, if_true,
        List.mem_singleton] at ha
      subst ha
      unfold managedLease segment
      cases x.kind <;> simp [List.intercalate]
    rw [hlist]
    refine List.splitOn_intercalate '/' ?_ (by simp)
    intro l hl
    simp only [List.mem_cons, List.not_mem_nil, or_false] at hl
    rcases hl with rfl | rfl | rfl
    · decide
    · exact x.segment_worded.slash_not_mem
    · exact x.name_worded.slash_not_mem
  intro h
  have hdot : '.' ∈ (kopiaOwnerForLease a).toList := by
    rw [← h, owner_toList]
    exact List.mem_append_left _ (by decide)
  simp only [kopiaOwnerForLease, kopiaLeaseIdentity, String.toList_append, String.toList_ofList,
    List.mem_append, leaseHost, hsplit, leaseHost.legacyHost, trimEndMatches, List.mem_reverse] at hdot
  rcases hdot with (hdot | hdot) | hdot
  · exact absurd hdot (by decide)
  · exact absurd hdot (by decide)
  · have hdot := List.mem_reverse.mp ((List.dropWhile_sublist _).subset hdot)
    exact dot_not_mem_sanitizeLeaseFragment _ (List.mem_of_mem_take hdot)

theorem leaseHeldByOther_owner :
    leaseHeldByOther y.owner x.lease x.aliases = true ↔ x.owner ≠ y.owner := by
  have hne : y.owner.isEmpty = false := by
    rw [Bool.eq_false_iff, ne_eq, String.isEmpty_iff, ← String.toList_inj, owner_toList]
    simp
  have haliases : (x.aliases.any fun a => y.owner == kopiaOwnerForLease a) = false := by
    simp only [List.any_eq_false, beq_iff_eq]
    exact fun a ha => x.owner_ne_alias y ha
  unfold leaseHeldByOther
  rw [hne, haliases]
  by_cases h : y.owner = x.owner
  · have hx : x.owner = kopiaOwnerForLease x.lease := rfl
    simp [h, ← hx]
  · have hb : (y.owner == kopiaOwnerForLease x.lease) = false := by simpa [owner] using h
    simp [hb, Ne.symm h]

theorem leaseAction_ne_claim {held : Bool} : (∀ p, leaseAction p held ≠ .claim) ↔ held = true := by
  constructor
  · intro h
    cases held with
    | false => exact absurd rfl (h .never)
    | true => rfl
  · rintro rfl p
    cases p <;> decide

end ClusterObject

/-- Two repository objects are two maintenance owners, each held off by the
other's lease, exactly when the names that go into the owner tell them apart. -/
theorem maintenance_owners_distinct_iff (x y : ClusterObject) :
    (x.owner ≠ y.owner ∧ leaseHeldByOther y.owner x.lease x.aliases = true ∧
      ∀ p, leaseAction p (leaseHeldByOther y.owner x.lease x.aliases) ≠ .claim) ↔
      x.ToldApart y := by
  rw [ClusterObject.leaseAction_ne_claim, x.leaseHeldByOther_owner y, and_self, and_self, ne_eq,
    x.owner_eq_iff y, not_not]

/-- A dot or a second dash in a name, a namespace with the word of the other
kind. -/
theorem maintenance_owners_collide :
    ∃ dotted dashed doubled single inNamespace clusterWide : ClusterObject,
      (dotted.name = "nas.media" ∧ dashed.name = "nas-media" ∧ dotted.owner = dashed.owner ∧
        leaseHeldByOther dotted.owner dashed.lease dashed.aliases = false) ∧
      (doubled.cluster = "east--1" ∧ single.cluster = "east-1" ∧ doubled.owner = single.owner) ∧
      (inNamespace.kind = .repository ∧ clusterWide.kind = .clusterRepository ∧
        inNamespace.owner = clusterWide.owner) :=
  ⟨⟨"east", .repository, "media", "nas.media", by decide, by decide, by decide, by decide⟩,
    ⟨"east", .repository, "media", "nas-media", by decide, by decide, by decide, by decide⟩,
    ⟨"east--1", .repository, "media", "nas", by decide, by decide, by decide, by decide⟩,
    ⟨"east-1", .repository, "media", "nas", by decide, by decide, by decide, by decide⟩,
    ⟨"east", .repository, "clusterrepository", "nas", by decide, by decide, by decide, by decide⟩,
    ⟨"east", .clusterRepository, "", "nas", by decide, by decide, by decide, by decide⟩,
    by decide⟩

end Kopiur
