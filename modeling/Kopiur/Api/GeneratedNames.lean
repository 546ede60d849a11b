import Kopiur.Api.ChildNameBounds
import Kopiur.Lib.DnsNames

/-!
# Generated names as names of Kubernetes objects

A generated name is a DNS-1123 subdomain of at most 63 bytes, unless a cut ends
right after a dot of its base.
-/

namespace Kopiur

open Lib

def cachePrefix : String := "kopiur-cache-"

def trimEnd (c : Char) (s : String) : String := String.ofList (trimEndMatches (· == c) s.toList)

/-- The cache PVC of a policy, and of a policy in one of its repositories. The
first keeps its historical name, without a cap. -/
def cachePvcName (policyName policyNs : String) (repo : Option RepositoryRef) : String :=
  match repo with
  | none => cachePrefix ++ policyName
  | some repo =>
    let tag := String.ofList ((fnv8 (repoKey repo policyNs)).toList.take 6)
    let pslug := sanitizeDns1123 policyName
    let rslug := sanitizeDns1123 repo.name
    let fixed := cachePrefix.utf8ByteSize + 2 + tag.utf8ByteSize
    let room := maxChildName - fixed
    let exceeds := fixed + pslug.utf8ByteSize + rslug.utf8ByteSize > maxChildName
    let rslugKeep := if exceeds then min rslug.utf8ByteSize (room / 3) else rslug.utf8ByteSize
    let pslugKeep := if exceeds then min pslug.utf8ByteSize (room - rslugKeep) else pslug.utf8ByteSize
    trimMatches '-' (cachePrefix ++ trimEnd '-' (clip pslug pslugKeep) ++ "-" ++
      trimEnd '-' (clip rslug rslugKeep) ++ "-" ++ tag)

def stagedRoom (base suffix : String) : Nat :=
  (2 ^ 64 + maxChildName - (fnv8 base).utf8ByteSize - suffix.utf8ByteSize - 2) % 2 ^ 64

/-- The name of an object staged for a Snapshot. Cutting inside a character
aborts. -/
def stagedChildName (base suffix : String) : Option String :=
  let full := base ++ "-" ++ suffix
  if full.utf8ByteSize ≤ maxChildName then some full
  else
    let keep := min (stagedRoom base suffix) base.utf8ByteSize
    if (clip base keep).utf8ByteSize = keep then
      some (clip base keep ++ "-" ++ fnv8 base ++ "-" ++ suffix)
    else none

theorem isLabelEnd_hexDigit {n : Nat} (h : n < 16) : isLabelEnd (hexDigit n) = true := by
  revert n
  decide

theorem isLabelEnd_of_mem_hex {width n : Nat} {c : Char} (h : c ∈ (hex width n).toList) :
    isLabelEnd c = true := by
  simp only [hex, String.toList_ofList, List.mem_map] at h
  obtain ⟨i, -, rfl⟩ := h
  exact isLabelEnd_hexDigit (Nat.mod_lt _ (by decide))

theorem isLabelEnd_toLower {c : Char} (h : c.isAlphanum = true) : isLabelEnd c.toLower = true := by
  unfold Char.toLower
  split
  · next hupper =>
    simp only [ge_iff_le, UInt32.le_iff_toNat_le] at hupper
    have hA : 'A'.val.toNat = 65 := rfl
    have hZ : 'Z'.val.toNat = 90 := rfl
    have ha : 'a'.val.toNat = 97 := rfl
    have hz : 'z'.val.toNat = 122 := rfl
    have hshift : ('a'.val - 'A'.val).toNat = 32 := rfl
    rw [isLabelEnd, Bool.or_eq_true]
    left
    simp only [isLower_eq, ge_iff_le, Bool.and_eq_true, decide_eq_true_eq,
      UInt32.le_iff_toNat_le, UInt32.toNat_add, hshift]
    rw [hA, hZ] at hupper
    rw [ha, hz]
    omega
  · next hupper =>
    simp only [Char.isAlphanum, isAlpha_eq, Bool.or_eq_true] at h
    rcases h with (h | h) | h
    · simp only [isUpper_eq, decide_eq_true_eq] at h
      exact absurd h hupper
    · rw [isLabelEnd, h, Bool.true_or]
    · rw [isLabelEnd, h, Bool.or_true]

theorem isLabelChar_toLower {c : Char} (h : c.isAlphanum = true) :
    isLabelChar c.toLower = true := isLabelChar_of_end (isLabelEnd_toLower h)

variable {s : String}

theorem isLabelChar_of_mem_sanitize {c : Char} (h : c ∈ (sanitizeDns1123 s).toList) :
    isLabelChar c = true := by
  simp only [sanitizeDns1123, String.toList_ofList, List.mem_map] at h
  obtain ⟨d, -, rfl⟩ := h
  split
  · next hd => exact isLabelChar_toLower hd
  · rfl

theorem isLabelChar_of_mem_clip {k : Nat} {c : Char} (h : c ∈ (clip (sanitizeDns1123 s) k).toList) :
    isLabelChar c = true :=
  isLabelChar_of_mem_sanitize ((clip_start (sanitizeDns1123 s) k).subset h)

theorem begun_clip (h : DnsLabels s) {k : Nat} (hk : 0 < k) :
    Begun (clip s k).toList := by
  have hs := dnsLabels_iff.mp h
  refine hs.toBegun.part (clip_start s k) ?_
  obtain ⟨c, rest, hcons⟩ := List.exists_cons_of_ne_nil hs.toBegun.ne_nil
  have hone := utf8Size_of_labelChar (hs.chars c (by simp [hcons]))
  unfold clip
  split
  · exact hs.toBegun.ne_nil
  · rw [String.toList_ofList, hcons, clipChars, if_pos (by omega)]
    simp

-- Trimming and joining

theorem trim_dash (h : Dotted s.toList) : trimMatches '-' s = s := by
  obtain ⟨x, hx, hxend⟩ := h.head
  obtain ⟨y, hy, hyend⟩ := h.last
  refine trimMatches_eq_self ?_ ?_
  · rintro hdash
    rw [hdash, Option.mem_some_iff] at hx
    exact isLabelEnd_ne_dash hxend hx.symm
  · rintro hdash
    rw [hdash, Option.mem_some_iff] at hy
    exact isLabelEnd_ne_dash hyend hy.symm

theorem trimEndMatches_concat {p : Char → Bool} {c : Char} (l : List Char) :
    trimEndMatches p (l ++ [c]) = if p c = true then trimEndMatches p l else l ++ [c] := by
  simp only [trimEndMatches, List.reverse_append, List.reverse_singleton, List.singleton_append,
    List.dropWhile_cons]
  split <;> simp

theorem dotted_trim_dashes {l : List Char} (h : Begun l) (hdot : l.getLast? ≠ some '.') :
    Dotted (trimEndMatches (fun c => c == '-') l) := by
  induction l using List.reverseRecOn with
  | nil => exact absurd rfl h.ne_nil
  | append_singleton l c ih =>
    rw [trimEndMatches_concat]
    split
    · next hc =>
      obtain rfl := beq_iff_eq.mp hc
      have hne : l ≠ [] := by
        rintro rfl
        obtain ⟨x, hx, hend⟩ := h.head
        obtain rfl := Option.mem_some_iff.mp hx
        exact isLabelEnd_ne_dash hend rfl
      refine ih (h.part (List.prefix_append l ['-']) hne) fun hlast => ?_
      -- No dash stands behind a dot.
      have hend := ((List.isChain_append.mp h.seams).2.2 '.' hlast '-' (by simp)).1 rfl
      exact isLabelEnd_ne_dash hend rfl
    · next hc => exact h.dotted hdot (by simpa using hc)

theorem dotted_trim_seams {l : List Char} (h : Begun l) :
    Dotted (trimEndMatches (fun c => c == '-' || c == '.') l) := by
  induction l using List.reverseRecOn with
  | nil => exact absurd rfl h.ne_nil
  | append_singleton l c ih =>
    rw [trimEndMatches_concat]
    split
    · next hc =>
      have hne : l ≠ [] := by
        rintro rfl
        obtain ⟨x, hx, hend⟩ := h.head
        obtain rfl := Option.mem_some_iff.mp hx
        rw [Bool.or_eq_true, beq_iff_eq, beq_iff_eq] at hc
        exact hc.elim (isLabelEnd_ne_dash hend) (isLabelEnd_ne_dot hend)
      exact ih (h.part (List.prefix_append l [c]) hne)
    · next hc =>
      rw [Bool.or_eq_true, beq_iff_eq, beq_iff_eq, not_or] at hc
      exact h.dotted (by simpa using hc.2) (by simpa using hc.1)

theorem last_ne_dot {l : List Char} (h : Dotted l) : l.getLast? ≠ some '.' := by
  obtain ⟨c, hc, hend⟩ := h.last
  rintro hdot
  rw [hdot, Option.mem_some_iff] at hc
  exact isLabelEnd_ne_dot hend hc.symm

theorem isLabelEnd_of_mem_fnv8 {input : String} {c : Char} (h : c ∈ (fnv8 input).toList) :
    isLabelEnd c = true :=
  isLabelEnd_of_mem_hex h

theorem joined_tag {kept plain tag : List Char} (hkept : Begun kept)
    (hdot : kept.getLast? ≠ some '.') (hplain : ∀ c ∈ plain, isLabelChar c = true)
    (htag : ∀ c ∈ tag, isLabelEnd c = true) (hne : tag ≠ []) :
    Dotted (kept ++ '-' :: (plain ++ tag)) := by
  refine hkept.join hdot (closing_of_plain ?_ ?_)
  · intro c hc
    rcases List.mem_append.mp hc with hc | hc
    · exact hplain c hc
    · exact isLabelChar_of_end (htag c hc)
  · refine ⟨tag.getLast hne, ?_, htag _ (List.getLast_mem hne)⟩
    rw [List.getLast?_append_of_ne_nil _ hne]
    exact List.getLast?_eq_some_getLast hne ▸ rfl

theorem fnv8_ne_nil (input : String) : (fnv8 input).toList ≠ [] := by
  rw [← List.length_pos_iff, length_fnv8]
  decide

def keepBeside (fixed : Nat) (base slug : String) : Nat :=
  let room := maxChildName - fixed
  let exceeds := fixed + base.utf8ByteSize + slug.utf8ByteSize > maxChildName
  let slugKeep := if exceeds then min slug.utf8ByteSize (room / 3) else slug.utf8ByteSize
  if exceeds then min base.utf8ByteSize (room - slugKeep) else base.utf8ByteSize

/-- The bytes a base keeps in front of two slugs. -/
def keepBesideTwo (fixed : Nat) (base slug rslug : String) : Nat :=
  let room := maxChildName - fixed
  let exceeds := fixed + base.utf8ByteSize + slug.utf8ByteSize + rslug.utf8ByteSize > maxChildName
  let rslugKeep := if exceeds then min rslug.utf8ByteSize (room / 3) else rslug.utf8ByteSize
  let pslugKeep :=
    if exceeds then min slug.utf8ByteSize ((room - rslugKeep) / 2) else slug.utf8ByteSize
  if exceeds then min base.utf8ByteSize (room - (rslugKeep + pslugKeep)) else base.utf8ByteSize

def memberSlug (policyNs : String) (pvc : PvcTargetRef) : String :=
  sanitizeDns1123 (if pvc.ns = policyNs then pvc.name else pvc.ns ++ "-" ++ pvc.name)

def memberKeep (base policyNs : String) (pvc : PvcTargetRef) (repo : Option (String × String)) :
    Nat :=
  match repo with
  | none => keepBeside 14 base (memberSlug policyNs pvc)
  | some (_, repoName) => keepBesideTwo 20 base (memberSlug policyNs pvc) (sanitizeDns1123 repoName)

def fanoutKeep (base policyNs : String) (member : Option PvcTargetRef)
    (repo : Option RepositoryRef) : Nat :=
  match member, repo with
  | none, none => maxChildName
  | some pvc, repo => memberKeep base policyNs pvc (repo.map fun r => (repoKey r policyNs, r.name))
  | none, some r => keepBeside 15 base (sanitizeDns1123 r.name)

variable {base : String}

theorem keepBeside_pos {fixed : Nat} {slug : String} (hfixed : fixed < 60)
    (hbase : 0 < base.utf8ByteSize) : 0 < keepBeside fixed base slug := by
  unfold keepBeside maxChildName
  dsimp only
  split <;> omega

theorem keepBesideTwo_pos {fixed : Nat} {slug rslug : String} (hfixed : fixed < 60)
    (hbase : 0 < base.utf8ByteSize) : 0 < keepBesideTwo fixed base slug rslug := by
  unfold keepBesideTwo maxChildName
  dsimp only
  split <;> omega

theorem memberKeep_pos {policyNs : String} {pvc : PvcTargetRef} {repo : Option (String × String)}
    (hbase : 0 < base.utf8ByteSize) :
    0 < memberKeep base policyNs pvc repo := by
  cases repo with
  | none => exact keepBeside_pos (by decide) hbase
  | some r => exact keepBesideTwo_pos (by decide) hbase

theorem size_pos (h : DnsLabels s) : 0 < s.utf8ByteSize := by
  obtain ⟨c, rest, hcons⟩ := List.exists_cons_of_ne_nil (dnsLabels_iff.mp h).toBegun.ne_nil
  have hsize := utf8ByteSize_ofList s.toList
  rw [String.ofList_toList, hcons, List.map_cons, List.sum_cons] at hsize
  have hone := utf8Size_of_labelChar ((dnsLabels_iff.mp h).chars c (by simp [hcons]))
  omega

-- The generators

theorem tagged_labels (hbase : DnsLabels base) {k : Nat} (hk : 0 < k)
    (hdot : (clip base k).toList.getLast? ≠ some '.') {marker slugs : String} {rest : List Char}
    (hmarker : marker.toList = '-' :: rest) (hrest : ∀ c ∈ rest, isLabelChar c = true)
    (hslugs : ∀ c ∈ slugs.toList, isLabelChar c = true) (input : String) :
    DnsLabels (trimMatches '-' (clip base k ++ marker ++ slugs ++ "-" ++ fnv8 input)) := by
  have hplain : ∀ c ∈ rest ++ slugs.toList ++ ['-'], isLabelChar c = true := by
    simp only [List.forall_mem_append, List.forall_mem_singleton]
    exact ⟨⟨hrest, hslugs⟩, rfl⟩
  have hjoin := joined_tag (begun_clip hbase hk) hdot hplain
    (fun c (hc : c ∈ (fnv8 input).toList) => isLabelEnd_of_mem_fnv8 hc) (fnv8_ne_nil input)
  have hdotted : Dotted (clip base k ++ marker ++ slugs ++ "-" ++ fnv8 input).toList := by
    simpa [hmarker] using hjoin
  rw [dnsLabels_iff, trim_dash hdotted]
  exact hdotted

theorem memberChildName_labels (hbase : DnsLabels base) (policyNs : String) (pvc : PvcTargetRef)
    (repo : Option (String × String))
    (hdot : (clip base (memberKeep base policyNs pvc repo)).toList.getLast? ≠ some '.') :
    DnsLabels (memberChildName base policyNs pvc repo) := by
  have hmarker : ∀ c ∈ ['p', 'v', 'c', '-'], isLabelChar c = true :=
    List.all_eq_true.mp (by decide)
  have hone : fanoutMarker.utf8ByteSize + 1 + 8 = 14 := rfl
  have htwo : fanoutMarker.utf8ByteSize + repoMarker.utf8ByteSize + 1 + 8 = 20 := rfl
  have hpos : 0 < memberKeep base policyNs pvc repo := memberKeep_pos (size_pos hbase)
  cases repo with
  | none =>
    simp only [memberKeep, keepBeside, memberSlug] at hdot hpos
    simp only [memberChildName, utf8ByteSize_fnv8, hone]
    exact tagged_labels hbase hpos hdot rfl hmarker (fun c => isLabelChar_of_mem_clip) _
  | some r =>
    -- The second marker stands among the slugs.
    have hassoc : ∀ a b c d e f g : String,
        a ++ b ++ c ++ d ++ e ++ f ++ g = a ++ b ++ (c ++ d ++ e) ++ f ++ g := by
      simp [String.append_assoc]
    have hslugs : ∀ s s' : String, ∀ j k,
        ∀ c ∈ (clip (sanitizeDns1123 s) j ++ repoMarker ++ clip (sanitizeDns1123 s') k).toList,
          isLabelChar c = true := by
      intro s s' j k
      simp only [String.toList_append, List.forall_mem_append]
      exact ⟨⟨fun c => isLabelChar_of_mem_clip, List.all_eq_true.mp (by decide)⟩,
        fun c => isLabelChar_of_mem_clip⟩
    simp only [memberKeep, keepBesideTwo, memberSlug] at hdot hpos
    simp only [memberChildName, utf8ByteSize_fnv8, htwo, hassoc]
    exact tagged_labels hbase hpos hdot rfl hmarker (hslugs _ _ _ _) _

theorem fanoutChildNameFor_labels (hbase : DnsLabels base) (policyNs : String)
    (member : Option PvcTargetRef) (repo : Option RepositoryRef)
    (hdot : (clip base (fanoutKeep base policyNs member repo)).toList.getLast? ≠ some '.') :
    DnsLabels (fanoutChildNameFor base policyNs member repo) := by
  cases member with
  | some pvc => exact memberChildName_labels hbase policyNs pvc _ hdot
  | none =>
    cases repo with
    | none =>
      have hbegun := begun_clip hbase (k := maxChildName) (by decide)
      obtain ⟨x, hx, hend⟩ := hbegun.head
      have hhead : (clip base maxChildName).toList.head? ≠ some '-' := by
        rintro hdash
        rw [hdash, Option.mem_some_iff] at hx
        exact isLabelEnd_ne_dash hend hx.symm
      rw [dnsLabels_iff]
      change Dotted (trimMatches '-' (clip base maxChildName)).toList
      rw [trimMatches, String.toList_ofList, dropWhile_eq_self hhead]
      exact dotted_trim_dashes hbegun hdot
    | some r =>
      have hrest : ∀ c ∈ ['r', 'e', 'p', 'o', '-'], isLabelChar c = true :=
        List.all_eq_true.mp (by decide)
      have hone : repoMarker.utf8ByteSize + 1 + 8 = 15 := rfl
      have hpos : 0 < keepBeside 15 base (sanitizeDns1123 r.name) :=
        keepBeside_pos (by decide) (size_pos hbase)
      simp only [fanoutKeep, keepBeside] at hdot hpos
      simp only [fanoutChildNameFor, Option.map_some, utf8ByteSize_fnv8, hone]
      exact tagged_labels hbase hpos hdot rfl hrest (fun c => isLabelChar_of_mem_clip) _

theorem groupName_labels (hbase : DnsLabels base) (ns : String) (sourceIndex : Nat)
    (repoKey : Option String) (hdot : (clip base 50).toList.getLast? ≠ some '.') :
    DnsLabels (groupName base ns sourceIndex repoKey) := by
  have hroom : maxChildName - "-grp".utf8ByteSize - 8 - 1 = 50 := rfl
  have hname : ∀ input, DnsLabels (trimMatches '-' (clip base 50 ++ "-" ++ fnv8 input ++ "-grp")) := by
    intro input
    have hplain : ∀ c ∈ (fnv8 input).toList ++ ['-'], isLabelChar c = true := by
      simp only [List.forall_mem_append, List.forall_mem_singleton]
      exact ⟨fun c hc => isLabelChar_of_end (isLabelEnd_of_mem_fnv8 hc), rfl⟩
    have hgrp : ∀ c ∈ ['g', 'r', 'p'], isLabelEnd c = true := List.all_eq_true.mp (by decide)
    have hjoin := joined_tag (begun_clip hbase (by decide)) hdot hplain hgrp (by decide)
    have hdotted : Dotted (clip base 50 ++ "-" ++ fnv8 input ++ "-grp").toList := by
      simpa using hjoin
    rw [dnsLabels_iff, trim_dash hdotted]
    exact hdotted
  simp only [groupName, utf8ByteSize_fnv8, hroom]
  exact hname _

theorem begun_take {full : String} (h : DnsLabels full) {k : Nat} (hk : 0 < k) :
    Begun (full.toList.take k) := by
  have hfull := dnsLabels_iff.mp h
  refine hfull.toBegun.part (List.take_prefix k _) ?_
  have hne := hfull.toBegun.ne_nil
  rw [← List.length_pos_iff] at hne ⊢
  rw [List.length_take]
  omega

theorem hashed_labels {kept : List Char} (h : Dotted kept) (n : Nat) :
    DnsLabels (String.ofList kept ++ "-" ++ hex 16 n) := by
  have hplain : ∀ c ∈ ([] : List Char), isLabelChar c = true := by simp
  have hjoin := joined_tag h.toBegun (last_ne_dot h) hplain
    (fun c (hc : c ∈ (hex 16 n).toList) => isLabelEnd_of_mem_hex hc) (by simp [hex])
  rw [dnsLabels_iff]
  simpa using hjoin

theorem cappedName_labels {full : String} (h : DnsLabels full)
    (hdot : 63 < full.utf8ByteSize → (full.toList.take 46).getLast? ≠ some '.') :
    DnsLabels (cappedName full) := by
  unfold cappedName
  split
  · exact h
  · next hlong =>
    exact hashed_labels (dotted_trim_dashes (begun_take h (by decide)) (hdot (by omega))) _

theorem cappedJobName_labels {full : String} (h : DnsLabels full) :
    DnsLabels (cappedJobName full) := by
  unfold cappedJobName
  split
  · exact h
  · exact hashed_labels (dotted_trim_seams (begun_take h (by decide))) _

theorem isLabelChar_of_mem_trimEnd {k : Nat} {c : Char}
    (h : c ∈ (trimEnd '-' (clip (sanitizeDns1123 s) k)).toList) : isLabelChar c = true := by
  rw [trimEnd, String.toList_ofList] at h
  exact isLabelChar_of_mem_clip ((trimEndMatches_sublist _ _).subset h)

theorem begun_kopiur : Begun "kopiur".toList :=
  begun_of_all ⟨'k', by decide, by decide⟩ (by decide)

theorem cachePvcName_labels (policyName policyNs : String) (repo : RepositoryRef) :
    DnsLabels (cachePvcName policyName policyNs (some repo)) := by
  have htag : ∀ c ∈ (fnv8 (repoKey repo policyNs)).toList.take 6, isLabelEnd c = true :=
    fun c hc => isLabelEnd_of_mem_fnv8 (List.mem_of_mem_take hc)
  have hne : (fnv8 (repoKey repo policyNs)).toList.take 6 ≠ [] := by
    rw [← List.length_pos_iff, List.length_take, length_fnv8]
    decide
  have hname : ∀ j k, DnsLabels (trimMatches '-' (cachePrefix ++
      trimEnd '-' (clip (sanitizeDns1123 policyName) j) ++ "-" ++
      trimEnd '-' (clip (sanitizeDns1123 repo.name) k) ++ "-" ++
      String.ofList ((fnv8 (repoKey repo policyNs)).toList.take 6))) := by
    intro j k
    have hplain : ∀ c ∈ "cache-".toList ++
        (trimEnd '-' (clip (sanitizeDns1123 policyName) j)).toList ++ ['-'] ++
        (trimEnd '-' (clip (sanitizeDns1123 repo.name) k)).toList ++ ['-'],
        isLabelChar c = true := by
      simp only [List.forall_mem_append, List.forall_mem_singleton]
      exact ⟨⟨⟨⟨List.all_eq_true.mp (by decide), fun c => isLabelChar_of_mem_trimEnd⟩, rfl⟩,
        fun c => isLabelChar_of_mem_trimEnd⟩, rfl⟩
    have hjoin := joined_tag begun_kopiur (by decide) hplain htag hne
    have hdotted : Dotted (cachePrefix ++
        trimEnd '-' (clip (sanitizeDns1123 policyName) j) ++ "-" ++
        trimEnd '-' (clip (sanitizeDns1123 repo.name) k) ++ "-" ++
        String.ofList ((fnv8 (repoKey repo policyNs)).toList.take 6)).toList := by
      simpa [cachePrefix] using hjoin
    rw [dnsLabels_iff, trim_dash hdotted]
    exact hdotted
  exact hname _ _

theorem cachePvcName_plain_labels {policyName : String} (h : DnsLabels policyName)
    (policyNs : String) : DnsLabels (cachePvcName policyName policyNs none) := by
  have hkept : Begun "kopiur-cache".toList :=
    begun_of_all ⟨'k', by decide, by decide⟩ (by decide)
  have hjoin := hkept.join (by decide) (dnsLabels_iff.mp h).closing
  rw [dnsLabels_iff]
  simpa [cachePvcName, cachePrefix] using hjoin

theorem stagedRoom_eq {suffix : String} (h : suffix.utf8ByteSize ≤ 52) :
    stagedRoom base suffix = 53 - suffix.utf8ByteSize := by
  simp only [stagedRoom, utf8ByteSize_fnv8, maxChildName]
  omega

theorem size_of_chars {l : List Char} (h : ∀ c ∈ l, isLabelChar c = true ∨ c = '.') :
    (String.ofList l).utf8ByteSize = l.length := by
  rw [utf8ByteSize_ofList]
  induction l with
  | nil => rfl
  | cons c l ih =>
    rw [List.map_cons, List.sum_cons, ih fun d hd => h d (List.mem_cons_of_mem _ hd),
      utf8Size_of_labelChar (h c List.mem_cons_self), List.length_cons, Nat.add_comm]

theorem size_eq_length (h : DnsLabels s) : s.utf8ByteSize = s.toList.length := by
  conv_lhs => rw [← String.ofList_toList (s := s)]
  exact size_of_chars (dnsLabels_iff.mp h).chars

theorem length_clipChars {l : List Char} (h : ∀ c ∈ l, isLabelChar c = true ∨ c = '.') (k : Nat) :
    (clipChars k l).length = min k l.length := by
  induction l generalizing k with
  | nil => simp [clipChars]
  | cons c l ih =>
    have hone := utf8Size_of_labelChar (h c List.mem_cons_self)
    have hrest := ih (fun d hd => h d (List.mem_cons_of_mem _ hd)) (k - 1)
    rw [clipChars, hone]
    split
    · rw [List.length_cons, hrest, List.length_cons]
      omega
    · rw [List.length_nil, List.length_cons]
      omega

theorem clip_size (h : DnsLabels s) (k : Nat) :
    (clip s k).utf8ByteSize = min k s.utf8ByteSize := by
  have hchars := (dnsLabels_iff.mp h).chars
  have hsize := size_eq_length h
  unfold clip
  split
  · omega
  · rw [size_of_chars fun c hc => hchars c ((clipChars_start k _).subset hc),
      length_clipChars hchars, hsize]

theorem hashed_size {full : String} (h : DnsLabels full) (p : Char → Bool) (k n : Nat) :
    (String.ofList (trimEndMatches p (full.toList.take k)) ++ "-" ++ hex 16 n).utf8ByteSize ≤
      k + 17 := by
  have hsub := trimEndMatches_sublist p (full.toList.take k)
  have hsize := size_of_chars fun c hc =>
    (dnsLabels_iff.mp h).chars c (List.mem_of_mem_take (hsub.subset hc))
  have hlen := hsub.length_le
  have hdash : "-".utf8ByteSize = 1 := rfl
  rw [List.length_take] at hlen
  rw [String.utf8ByteSize_append, String.utf8ByteSize_append, utf8ByteSize_hex, hsize, hdash]
  omega

theorem cappedName_size {full : String} (h : DnsLabels full) :
    (cappedName full).utf8ByteSize ≤ 63 := by
  unfold cappedName
  split
  · assumption
  · exact hashed_size h _ 46 _

theorem cappedJobName_size {full : String} (h : DnsLabels full) :
    (cappedJobName full).utf8ByteSize ≤ jobNameMax := by
  unfold cappedJobName
  split
  · assumption
  · exact hashed_size h _ 40 _

theorem utf8ByteSize_trimEnd (c : Char) (s : String) :
    (trimEnd c s).utf8ByteSize ≤ s.utf8ByteSize := by
  have h := utf8ByteSize_le_of_sublist (trimEndMatches_sublist (· == c) s.toList)
  rwa [String.ofList_toList] at h

theorem size_fnv6 (input : String) :
    (String.ofList ((fnv8 input).toList.take 6)).utf8ByteSize = 6 := by
  have hchars : ∀ c ∈ (fnv8 input).toList.take 6, isLabelChar c = true ∨ c = '.' :=
    fun c hc => .inl (isLabelChar_of_end (isLabelEnd_of_mem_fnv8 (List.mem_of_mem_take hc)))
  rw [size_of_chars hchars, List.length_take, length_fnv8]
  rfl

theorem cachePvcName_size (policyName policyNs : String) (repo : RepositoryRef) :
    (cachePvcName policyName policyNs (some repo)).utf8ByteSize ≤ maxChildName := by
  have hstart : cachePrefix.utf8ByteSize = 13 := rfl
  have hdash : "-".utf8ByteSize = 1 := rfl
  have hsizes : ∀ s j, (trimEnd '-' (clip s j)).utf8ByteSize ≤ j :=
    fun s j => (utf8ByteSize_trimEnd _ _).trans (utf8ByteSize_clip s j)
  simp only [cachePvcName]
  refine (utf8ByteSize_trimMatches _ _).trans ?_
  simp only [String.utf8ByteSize_append, size_fnv6, hstart, hdash, maxChildName]
  generalize sanitizeDns1123 policyName = pslug
  generalize sanitizeDns1123 repo.name = rslug
  have hsum : ∀ j k : Nat, j + k ≤ 42 → 13 + (trimEnd '-' (clip pslug j)).utf8ByteSize + 1 +
      (trimEnd '-' (clip rslug k)).utf8ByteSize + 1 + 6 ≤ 63 := by
    intro j k h
    have hp := hsizes pslug j
    have hr := hsizes rslug k
    omega
  refine hsum _ _ ?_
  split <;> omega

theorem stagedChildName_labels {suffix : String} (hbase : DnsLabels base)
    (hsuffix : DnsLabels suffix) (hsize : suffix.utf8ByteSize ≤ 52) :
    ∃ name, stagedChildName base suffix = some name ∧ name.utf8ByteSize ≤ maxChildName ∧
      ((maxChildName < (base ++ "-" ++ suffix).utf8ByteSize →
        (clip base (53 - suffix.utf8ByteSize)).toList.getLast? ≠ some '.') → DnsLabels name) := by
  have hdash : "-".utf8ByteSize = 1 := rfl
  have hclosing := (dnsLabels_iff.mp hsuffix).closing
  unfold stagedChildName
  dsimp only
  split
  · next hshort =>
    refine ⟨_, rfl, hshort, fun _ => ?_⟩
    have hjoin := (dnsLabels_iff.mp hbase).toBegun.join (last_ne_dot (dnsLabels_iff.mp hbase))
      hclosing
    rw [dnsLabels_iff]
    simpa using hjoin
  · next hlong =>
    have hover := hlong
    simp only [String.utf8ByteSize_append, hdash, maxChildName] at hover
    have hkeep : min (stagedRoom base suffix) base.utf8ByteSize = 53 - suffix.utf8ByteSize := by
      rw [stagedRoom_eq hsize]
      omega
    have hclip := clip_size hbase (53 - suffix.utf8ByteSize)
    rw [hkeep, if_pos (by omega)]
    refine ⟨_, rfl, ?_, fun hdot => ?_⟩
    · simp only [String.utf8ByteSize_append, hdash, utf8ByteSize_fnv8, maxChildName]
      omega
    · have htag : Begun (fnv8 base).toList := by
        obtain ⟨c, rest, hcons⟩ := List.exists_cons_of_ne_nil (fnv8_ne_nil base)
        refine ⟨⟨c, by rw [hcons]; rfl, isLabelEnd_of_mem_fnv8 (by rw [hcons]; simp)⟩,
          fun d hd => .inl (isLabelChar_of_end (isLabelEnd_of_mem_fnv8 hd)), ?_⟩
        exact isChain_of_not_dot fun d hd => isLabelEnd_ne_dot (isLabelEnd_of_mem_fnv8 hd)
      have htagdot : (fnv8 base).toList.getLast? ≠ some '.' := fun h =>
        isLabelEnd_ne_dot (isLabelEnd_of_mem_fnv8 (List.mem_of_getLast? h)) rfl
      have hjoin := (begun_clip hbase (by omega)).join (hdot (by omega)) (htag.join htagdot hclosing).closing
      rw [dnsLabels_iff]
      simpa using hjoin

-- Calls of the generators

inductive NameCall where
  | capped (full : String)
  | cappedJob (full : String)
  | member (base policyNs : String) (pvc : PvcTargetRef) (repo : Option (String × String))
  | fanout (base policyNs : String) (cell : Option PvcTargetRef) (repo : Option RepositoryRef)
  | group (base ns : String) (sourceIndex : Nat) (repoKey : Option String)
  | cachePvc (policyName policyNs : String) (repo : Option RepositoryRef)
  | staged (base suffix : String)

namespace NameCall

/-- The name a call returns, if it returns. -/
def name : NameCall → Option String
  | .capped full => some (cappedName full)
  | .cappedJob full => some (cappedJobName full)
  | .member base policyNs pvc repo => some (memberChildName base policyNs pvc repo)
  | .fanout base policyNs cell repo => some (fanoutChildNameFor base policyNs cell repo)
  | .group base ns sourceIndex repoKey => some (groupName base ns sourceIndex repoKey)
  | .cachePvc policyName policyNs repo => some (cachePvcName policyName policyNs repo)
  | .staged base suffix => stagedChildName base suffix

/-- The bases are well formed, at any length; a staged suffix leaves room for a
byte of its base. -/
def Valid : NameCall → Prop
  | .capped full => DnsLabels full
  | .cappedJob full => DnsLabels full
  | .member base _ _ _ => DnsLabels base
  | .fanout base _ _ _ => DnsLabels base
  | .group base _ _ _ => DnsLabels base
  | .cachePvc policyName _ _ => DnsLabels policyName
  | .staged base suffix => DnsLabels base ∧ DnsLabels suffix ∧ suffix.utf8ByteSize ≤ 52

/-- The longest name a call may return. The cache of a policy that is not pinned
to a repository has no cap of its own. -/
def cap : NameCall → Nat
  | .cappedJob _ => jobNameMax
  | .cachePvc policyName _ none => cachePrefix.utf8ByteSize + policyName.utf8ByteSize
  | _ => 63

/-- The start of its base that a name keeps untrimmed in front of a dash. -/
def kept : NameCall → List Char
  | .capped full => if full.utf8ByteSize ≤ 63 then [] else full.toList.take 46
  | .cappedJob _ => []
  | .member base policyNs pvc repo => (clip base (memberKeep base policyNs pvc repo)).toList
  | .fanout base policyNs cell repo => (clip base (fanoutKeep base policyNs cell repo)).toList
  | .group base _ _ _ => (clip base 50).toList
  | .cachePvc _ _ _ => []
  | .staged base suffix =>
    if (base ++ "-" ++ suffix).utf8ByteSize ≤ maxChildName then []
    else (clip base (53 - suffix.utf8ByteSize)).toList

end NameCall

/-- A generator returns a name within its cap, and a well-formed one wherever it
does not cut its base right after a dot. -/
theorem generated_names_valid (g : NameCall) (h : g.Valid) :
    ∃ name, g.name = some name ∧ name.utf8ByteSize ≤ g.cap ∧
      (g.kept.getLast? ≠ some '.' → DnsLabels name) := by
  cases g with
  | capped full =>
    refine ⟨_, rfl, cappedName_size h, fun hdot => cappedName_labels h fun hlong => ?_⟩
    rwa [NameCall.kept, if_neg (by omega)] at hdot
  | cappedJob full => exact ⟨_, rfl, cappedJobName_size h, fun _ => cappedJobName_labels h⟩
  | member base policyNs pvc repo =>
    exact ⟨_, rfl, memberChildName_size _ _ _ _, memberChildName_labels h policyNs pvc repo⟩
  | fanout base policyNs cell repo =>
    exact ⟨_, rfl, fanoutChildNameFor_size _ _ _ _, fanoutChildNameFor_labels h policyNs cell repo⟩
  | group base ns sourceIndex repoKey =>
    exact ⟨_, rfl, groupName_size _ _ _ _, groupName_labels h ns sourceIndex repoKey⟩
  | cachePvc policyName policyNs repo =>
    cases repo with
    | none =>
      refine ⟨_, rfl, ?_, fun _ => cachePvcName_plain_labels h policyNs⟩
      simp [cachePvcName, NameCall.cap]
    | some repo =>
      exact ⟨_, rfl, cachePvcName_size _ _ _, fun _ => cachePvcName_labels policyName policyNs repo⟩
  | staged base suffix =>
    obtain ⟨hbase, hsuffix, hsize⟩ := h
    obtain ⟨name, hname, hle, hlabels⟩ := stagedChildName_labels hbase hsuffix hsize
    refine ⟨name, hname, hle, fun hdot => hlabels fun hlong => ?_⟩
    rwa [NameCall.kept, if_neg (by omega)] at hdot

theorem dnsLabels_of_chars (hhead : ∃ c ∈ s.toList.head?, isLabelEnd c = true)
    (hlast : ∃ c ∈ s.toList.getLast?, isLabelEnd c = true)
    (hall : s.toList.all isLabelChar = true) : DnsLabels s :=
  dnsLabels_iff.mpr ⟨begun_of_all hhead hall, hlast⟩

/-- The volume snapshot of a Snapshot whose name is cut inside a label. -/
theorem generated_names_valid_staged :
    ∃ name, stagedChildName (String.ofList (List.replicate 60 'a')) "snap" = some name ∧
      name.utf8ByteSize ≤ 63 ∧ DnsLabels name := by
  have hvalid : NameCall.Valid (.staged (String.ofList (List.replicate 60 'a')) "snap") := by
    refine ⟨?_, ?_, by decide⟩
    · exact dnsLabels_of_chars ⟨'a', by decide, by decide⟩ ⟨'a', by decide, by decide⟩ (by decide)
    · exact dnsLabels_of_chars ⟨'s', by decide, by decide⟩ ⟨'p', by decide, by decide⟩ (by decide)
  obtain ⟨name, hname, hsize, hlabels⟩ := generated_names_valid _ hvalid
  exact ⟨name, hname, hsize, hlabels (by decide)⟩

/-- A policy of 60 bytes has a cache of 73, and a name of 64 bytes with a dot at
the cut is capped to one that joins a dot and a dash. -/
theorem generated_names_invalid :
    ∃ policyName full : String, DnsSubdomain policyName ∧ DnsSubdomain full ∧
      63 < (cachePvcName policyName "apps" none).utf8ByteSize ∧ ¬ DnsLabels (cappedName full) := by
  refine ⟨String.ofList (List.replicate 60 'a'),
    String.ofList (List.replicate 45 'a' ++ '.' :: List.replicate 18 'b'),
    ⟨by decide +kernel, ?_⟩, ⟨by decide +kernel, ?_⟩, by decide +kernel, ?_⟩
  · exact dnsLabels_of_chars ⟨'a', by decide, by decide⟩ ⟨'a', by decide, by decide⟩ (by decide)
  · rw [dnsLabels_iff, String.toList_ofList, dotted_append_dot]
    constructor
    · exact ⟨begun_of_all ⟨'a', by decide, by decide⟩ (by decide), 'a', by decide, by decide⟩
    · exact ⟨begun_of_all ⟨'b', by decide, by decide⟩ (by decide), 'b', by decide, by decide⟩
  · intro h
    have hseams := (dnsLabels_iff.mp h).seams
    revert hseams
    decide +kernel

end Kopiur
