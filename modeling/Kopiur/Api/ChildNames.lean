import Kopiur.Naming

/-!
# Names of fanned-out children

A child's name keeps as much of its base and slugs as fit in 63 bytes and ends
in a tag over the full, unclipped names. The tag tells children apart.
-/

namespace Kopiur

open Lib

def maxChildName : Nat := 63

def fanoutMarker : String := "-pvc-"

def repoMarker : String := "-repo-"

def fnv8 (input : String) : String := hex 8 (fnv1a input % 2 ^ 32)

/-- The characters that fit in `keep` bytes. -/
def clipChars : Nat → List Char → List Char
  | _, [] => []
  | keep, c :: rest => if c.utf8Size ≤ keep then c :: clipChars (keep - c.utf8Size) rest else []

def clip (s : String) (keep : Nat) : String :=
  if keep ≥ s.utf8ByteSize then s else String.ofList (clipChars keep s.toList)

def sanitizeDns1123 (s : String) : String :=
  String.ofList (s.toList.map fun c => if c.isAlphanum then c.toLower else '-')

def trimMatches (c : Char) (s : String) : String :=
  String.ofList (trimEndMatches (· == c) (s.toList.dropWhile (· == c)))

/-- What the tag of a child is computed over: the base, then the PVC, then the
key of the repository, as far as the child has them. -/
def tagInput (base : String) (member : Option PvcTargetRef) (rkey : Option String) : String :=
  match member, rkey with
  | none, none => base
  | some pvc, none => base ++ "\n" ++ pvc.ns ++ "/" ++ pvc.name
  | some pvc, some rkey => base ++ "\n" ++ pvc.ns ++ "/" ++ pvc.name ++ "\n" ++ rkey
  | none, some rkey => base ++ "\n" ++ rkey

/-- The name of a selector member, in one repository or in one of several. -/
def memberChildName (base policyNs : String) (pvc : PvcTargetRef)
    (repo : Option (String × String)) : String :=
  let tag := fnv8 (tagInput base (some pvc) (repo.map Prod.fst))
  let slug := sanitizeDns1123 (if pvc.ns = policyNs then pvc.name else pvc.ns ++ "-" ++ pvc.name)
  match repo with
  | none =>
    let fixed := fanoutMarker.utf8ByteSize + 1 + tag.utf8ByteSize
    -- The base is clipped first, then the slug, never the tag.
    let room := maxChildName - fixed
    let exceeds := fixed + base.utf8ByteSize + slug.utf8ByteSize > maxChildName
    let slugKeep := if exceeds then min slug.utf8ByteSize (room / 3) else slug.utf8ByteSize
    let baseKeep := if exceeds then min base.utf8ByteSize (room - slugKeep) else base.utf8ByteSize
    trimMatches '-' (clip base baseKeep ++ fanoutMarker ++ clip slug slugKeep ++ "-" ++ tag)
  | some (_, repoName) =>
    let rslug := sanitizeDns1123 repoName
    let fixed := fanoutMarker.utf8ByteSize + repoMarker.utf8ByteSize + 1 + tag.utf8ByteSize
    let room := maxChildName - fixed
    let exceeds :=
      fixed + base.utf8ByteSize + slug.utf8ByteSize + rslug.utf8ByteSize > maxChildName
    let rslugKeep := if exceeds then min rslug.utf8ByteSize (room / 3) else rslug.utf8ByteSize
    let pslugKeep :=
      if exceeds then min slug.utf8ByteSize ((room - rslugKeep) / 2) else slug.utf8ByteSize
    let baseKeep :=
      if exceeds then min base.utf8ByteSize (room - (rslugKeep + pslugKeep)) else base.utf8ByteSize
    trimMatches '-' (clip base baseKeep ++ fanoutMarker ++ clip slug pslugKeep ++ repoMarker ++
      clip rslug rslugKeep ++ "-" ++ tag)

def fanoutChildNameFor (base policyNs : String) (member : Option PvcTargetRef)
    (repo : Option RepositoryRef) : String :=
  let repo := repo.map fun r => (repoKey r policyNs, r.name)
  match member, repo with
  | none, none => trimMatches '-' (clip base maxChildName)
  | some pvc, repo => memberChildName base policyNs pvc repo
  | none, some (rkey, repoName) =>
    let tag := fnv8 (tagInput base none (some rkey))
    let rslug := sanitizeDns1123 repoName
    let fixed := repoMarker.utf8ByteSize + 1 + tag.utf8ByteSize
    let room := maxChildName - fixed
    let exceeds := fixed + base.utf8ByteSize + rslug.utf8ByteSize > maxChildName
    let rslugKeep := if exceeds then min rslug.utf8ByteSize (room / 3) else rslug.utf8ByteSize
    let baseKeep := if exceeds then min base.utf8ByteSize (room - rslugKeep) else base.utf8ByteSize
    trimMatches '-' (clip base baseKeep ++ repoMarker ++ clip rslug rslugKeep ++ "-" ++ tag)

def fanoutChildName (base policyNs : String) (pvc : PvcTargetRef) : String :=
  fanoutChildNameFor base policyNs (some pvc) none

/-- The volume group snapshot shared by the members of one source in one
namespace (and one repository). -/
def groupName (base ns : String) (sourceIndex : Nat) (repoKey : Option String) : String :=
  let suffix := "-grp"
  let tag := fnv8 (match repoKey with
    | none => ns ++ "#" ++ toString sourceIndex
    | some k => ns ++ "#" ++ toString sourceIndex ++ "#" ++ k)
  let room := maxChildName - suffix.utf8ByteSize - tag.utf8ByteSize - 1
  trimMatches '-' (clip base room ++ "-" ++ tag ++ suffix)

theorem hexDigit_ne_dash {n : Nat} (h : n < 16) : hexDigit n ≠ '-' := by
  revert n
  decide

theorem length_fnv8 (input : String) : (fnv8 input).toList.length = 8 := by
  simp [fnv8, hex]

theorem dash_not_mem_fnv8 (input : String) : '-' ∉ (fnv8 input).toList := by
  intro h
  simp only [fnv8, hex, String.toList_ofList, List.mem_map] at h
  obtain ⟨i, -, hi⟩ := h
  exact hexDigit_ne_dash (Nat.mod_lt _ (by decide)) hi

theorem trimMatches_tagged {head marker slug input : String}
    (hmarker : ∃ c ∈ marker.toList, c ≠ '-') :
    ∃ x, (trimMatches '-' (head ++ marker ++ slug ++ "-" ++ fnv8 input)).toList =
      x ++ '-' :: (fnv8 input).toList := by
  obtain ⟨c, hmem, hc⟩ := hmarker
  have hc' : (c == '-') = false := by simpa using hc
  obtain ⟨a, b, hab⟩ := List.append_of_mem hmem
  have htag : ∃ init last, (fnv8 input).toList = init ++ [last] := by
    rcases List.eq_nil_or_concat (fnv8 input).toList with hnil | h
    · have hlen := length_fnv8 input
      simp [hnil] at hlen
    · simpa using h
  obtain ⟨init, last, htag⟩ := htag
  have hlast : (last == '-') = false := by
    have hdash := dash_not_mem_fnv8 input
    simp only [htag, List.mem_append, List.mem_singleton, not_or] at hdash
    simpa using Ne.symm hdash.2
  have hlist : (head ++ marker ++ slug ++ "-" ++ fnv8 input).toList =
      (head.toList ++ a) ++ c :: (b ++ slug.toList ++ '-' :: (init ++ [last])) := by
    simp [hab, htag]
  refine ⟨(head.toList ++ a).dropWhile (· == '-') ++ c :: (b ++ slug.toList), ?_⟩
  rw [trimMatches, hlist, dropWhile_append_cons (p := (· == '-')) hc', htag]
  simp [trimEndMatches, hlast]

theorem fanoutChildNameFor_tagged (base policyNs : String) {member : Option PvcTargetRef}
    {repo : Option RepositoryRef} (h : member.isSome ∨ repo.isSome) :
    ∃ x, (fanoutChildNameFor base policyNs member repo).toList =
      x ++ '-' :: (fnv8 (tagInput base member (repo.map (repoKey · policyNs)))).toList := by
  cases member with
  | none =>
    cases repo with
    | none => simp at h
    | some r => exact trimMatches_tagged ⟨'r', by decide, by decide⟩
  | some pvc =>
    cases repo with
    | none => exact trimMatches_tagged ⟨'p', by decide, by decide⟩
    | some r => exact trimMatches_tagged ⟨'r', by decide, by decide⟩

theorem tag_eq_of_fanoutChildNameFor_eq {base base' policyNs : String}
    {member member' : Option PvcTargetRef} {repo repo' : Option RepositoryRef}
    (h : member.isSome ∨ repo.isSome) (h' : member'.isSome ∨ repo'.isSome)
    (heq : fanoutChildNameFor base policyNs member repo =
      fanoutChildNameFor base' policyNs member' repo') :
    fnv8 (tagInput base member (repo.map (repoKey · policyNs))) =
      fnv8 (tagInput base' member' (repo'.map (repoKey · policyNs))) := by
  obtain ⟨x, hx⟩ := fanoutChildNameFor_tagged base policyNs h
  obtain ⟨x', hx'⟩ := fanoutChildNameFor_tagged base' policyNs h'
  rw [heq, hx'] at hx
  exact String.toList_inj.mp
    (append_cons_inj_right (dash_not_mem_fnv8 _) (dash_not_mem_fnv8 _) hx).2.symm

def ValidPvc (pvc : PvcTargetRef) : Prop := ValidName pvc.ns ∧ ValidName pvc.name

instance (pvc : PvcTargetRef) : Decidable (ValidPvc pvc) := inferInstanceAs (Decidable (_ ∧ _))

theorem repoKey_head (r : RepositoryRef) (ns : String) :
    ∃ c ∈ (repoKey r ns).toList.head?, isNameChar c = false := by
  cases hk : r.kind with
  | repository => exact ⟨'R', by simp [repoKey, hk], by decide⟩
  | clusterRepository => exact ⟨'C', by simp [repoKey, hk], by decide⟩

theorem pvc_ne_repoKey {pvc : PvcTargetRef} (hpvc : ValidPvc pvc) (r : RepositoryRef)
    (ns rest : String) : pvc.ns ++ "/" ++ rest ≠ repoKey r ns := by
  intro h
  obtain ⟨c, hc, hname⟩ := repoKey_head r ns
  rw [← h] at hc
  have hmem : c ∈ pvc.ns.toList.head? := by
    cases hl : pvc.ns.toList with
    | nil => exact absurd hl hpvc.1.1
    | cons d l => simpa [hl] using hc
  have := hpvc.1.2.2.1 c (List.mem_of_mem_head? hmem)
  simp [hname] at this

def memberTail (name : String) : Option String → String
  | none => name
  | some rkey => name ++ "\n" ++ rkey

def tagTail (member : Option PvcTargetRef) (rkey : Option String) : String :=
  match member with
  | none => rkey.getD ""
  | some pvc => pvc.ns ++ "/" ++ memberTail pvc.name rkey

theorem tagInput_eq (base : String) {member : Option PvcTargetRef} {rkey : Option String}
    (h : member.isSome ∨ rkey.isSome) :
    tagInput base member rkey = base ++ "\n" ++ tagTail member rkey := by
  cases member <;> cases rkey <;>
    simp_all [tagInput, tagTail, memberTail, String.append_assoc]

theorem memberTail_inj {name name' : String} {rkey rkey' : Option String}
    (hname : '\n' ∉ name.toList) (hname' : '\n' ∉ name'.toList)
    (h : memberTail name rkey = memberTail name' rkey') : name = name' ∧ rkey = rkey' := by
  cases rkey with
  | none =>
    cases rkey' with
    | none => exact ⟨h, rfl⟩
    | some k' =>
      simp only [memberTail] at h
      simp [h] at hname
  | some k =>
    cases rkey' with
    | none =>
      simp only [memberTail] at h
      simp [← h] at hname'
    | some k' =>
      obtain ⟨rfl, rfl⟩ := cut_first rfl hname hname' h
      exact ⟨rfl, rfl⟩

theorem tagTail_inj {ns : String} {member member' : Option PvcTargetRef}
    {repo repo' : Option RepositoryRef} (hmember : ∀ pvc ∈ member, ValidPvc pvc)
    (hmember' : ∀ pvc ∈ member', ValidPvc pvc) (h : member.isSome ∨ repo.isSome)
    (h' : member'.isSome ∨ repo'.isSome)
    (heq : tagTail member (repo.map (repoKey · ns)) = tagTail member' (repo'.map (repoKey · ns))) :
    member = member' ∧ repo.map (repoKey · ns) = repo'.map (repoKey · ns) := by
  cases member with
  | none =>
    obtain ⟨r, rfl⟩ := Option.isSome_iff_exists.mp (h.resolve_left (by simp))
    cases member' with
    | none =>
      obtain ⟨r', rfl⟩ := Option.isSome_iff_exists.mp (h'.resolve_left (by simp))
      exact ⟨rfl, congrArg some heq⟩
    | some pvc' => exact absurd heq.symm (pvc_ne_repoKey (hmember' pvc' rfl) r ns _)
  | some pvc =>
    have hvalid := hmember pvc rfl
    cases member' with
    | none =>
      obtain ⟨r', rfl⟩ := Option.isSome_iff_exists.mp (h'.resolve_left (by simp))
      exact absurd heq (pvc_ne_repoKey hvalid r' ns _)
    | some pvc' =>
      have hvalid' := hmember' pvc' rfl
      obtain ⟨hns, htail⟩ := cut_first rfl (hvalid.1.not_mem (by decide))
        (hvalid'.1.not_mem (by decide)) heq
      obtain ⟨hname, hkey⟩ := memberTail_inj (hvalid.2.not_mem (by decide))
        (hvalid'.2.not_mem (by decide)) htail
      exact ⟨congrArg some (PvcTargetRef.ext hns hname), hkey⟩

theorem tagInput_inj {base base' ns : String} {member member' : Option PvcTargetRef}
    {repo repo' : Option RepositoryRef} (hbase : '\n' ∉ base.toList) (hbase' : '\n' ∉ base'.toList)
    (hmember : ∀ pvc ∈ member, ValidPvc pvc) (hmember' : ∀ pvc ∈ member', ValidPvc pvc)
    (h : member.isSome ∨ repo.isSome) (h' : member'.isSome ∨ repo'.isSome)
    (heq : tagInput base member (repo.map (repoKey · ns)) =
      tagInput base' member' (repo'.map (repoKey · ns))) :
    base = base' ∧ member = member' ∧ repo.map (repoKey · ns) = repo'.map (repoKey · ns) := by
  rw [tagInput_eq base (by simpa using h), tagInput_eq base' (by simpa using h')] at heq
  obtain ⟨hb, htail⟩ := cut_first rfl hbase hbase' heq
  exact ⟨hb, tagTail_inj hmember hmember' h h' htail⟩

end Kopiur
