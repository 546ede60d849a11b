import Mathlib.Data.Prod.Lex
import Mathlib.Data.String.Basic
import Kopiur.Lib.SortedMap

/-!
# Which PVC a member of a group captured

A member snapshot names its content, the content the handle of a volume, and a
persistent volume with that handle its claim. Handles are compared without
their driver, and persistent volumes without regard to whether they are bound.
-/

namespace Kopiur

open Lib

/-- A member `VolumeSnapshot`, as it is listed. -/
structure MemberVs where
  name : String
  group : Option String
  content : Option String
  restoreSize : Option String
deriving DecidableEq

/-- A `VolumeSnapshotContent`. -/
structure VolumeSnapshotContent where
  name : String
  driver : String
  volumeHandle : Option String
deriving DecidableEq

structure CsiSource where
  driver : String
  volumeHandle : String
deriving DecidableEq

structure ClaimRef where
  ns : Option String
  name : Option String
deriving DecidableEq

structure PersistentVolume where
  phase : Option String
  csi : Option CsiSource
  claimRef : Option ClaimRef
deriving DecidableEq

/-- Namespace and name of a PVC. -/
abbrev ClaimKey := String ×ₗ String

structure ContentInfo where
  name : String
  volumeHandle : Option String
deriving DecidableEq

structure PvInfo where
  volumeHandle : String
  claimNamespace : String
  claimName : String
deriving DecidableEq

def PvInfo.claim (p : PvInfo) : ClaimKey := toLex (p.claimNamespace, p.claimName)

structure GroupMember where
  volumeSnapshotName : String
  restoreSize : Option String
deriving DecidableEq

def MemberVs.captured (m : MemberVs) : GroupMember := ⟨m.name, m.restoreSize⟩

def handleByContent (contents : List ContentInfo) : List (String × String) :=
  putAll (contents.filterMap fun c => c.volumeHandle.map fun h => (c.name, h)) []

def claimByHandle (pvs : List PvInfo) : List (String × ClaimKey) :=
  putAll (pvs.map fun p => (p.volumeHandle, p.claim)) []

def mapGroupMembers (members : List MemberVs) (contents : List ContentInfo) (pvs : List PvInfo)
    (group : String) : List (ClaimKey × GroupMember) :=
  let handles := handleByContent contents
  let claims := claimByHandle pvs
  members.foldl
    (fun out m =>
      if m.group ≠ some group then out
      else
        match (m.content.bind fun c => handles.lookup c).bind fun h => claims.lookup h with
        | some claim => putKey claim m.captured out
        | none => out) []

def VolumeSnapshotContent.info (c : VolumeSnapshotContent) : ContentInfo := ⟨c.name, c.volumeHandle⟩

def PersistentVolume.info (pv : PersistentVolume) : Option PvInfo := do
  let csi ← pv.csi
  let claim ← pv.claimRef
  some ⟨csi.volumeHandle, ← claim.ns, ← claim.name⟩

/-- The objects that are listed. Those of one kind are told apart by their names. -/
structure GroupListing where
  members : List MemberVs
  contents : List VolumeSnapshotContent
  pvs : List PersistentVolume
  memberNames : (members.map (·.name)).Nodup
  contentNames : (contents.map (·.name)).Nodup

def resolveGroupMembers (l : GroupListing) (group : String) : List (ClaimKey × GroupMember) :=
  if l.members.all fun m => m.group ≠ some group then []
  else mapGroupMembers l.members (l.contents.map (·.info)) (l.pvs.filterMap (·.info)) group

section Meaning

variable (l : GroupListing) (group : String)

def Captures (m : MemberVs) (claim : ClaimKey) : Prop :=
  ∃ c ∈ l.contents, m.content = some c.name ∧ ∃ h ∈ c.volumeHandle, ∃ pv ∈ l.pvs,
    pv.phase = some "Bound" ∧ pv.csi = some ⟨c.driver, h⟩ ∧
      pv.claimRef = some ⟨some (ofLex claim).1, some (ofLex claim).2⟩

def LeadsTo (m : MemberVs) (claim : ClaimKey) : Prop :=
  ∃ c ∈ l.contents, m.content = some c.name ∧ ∃ h ∈ c.volumeHandle, ∃ pv ∈ l.pvs,
    ∃ i ∈ pv.info, i.volumeHandle = h ∧ i.claim = claim

/-- The mapping names, for a PVC, the member that captured its volume, and leaves
no such member out, in whatever order the objects are listed. -/
structure NeverCrosses : Prop where
  sound : ∀ claim captured, (claim, captured) ∈ resolveGroupMembers l group →
    ∃ m ∈ l.members, m.group = some group ∧ m.captured = captured ∧ Captures l m claim
  complete : ∀ m ∈ l.members, m.group = some group → (∃ claim, Captures l m claim) →
    ∃ claim, (claim, m.captured) ∈ resolveGroupMembers l group
  ordered : ∀ l' : GroupListing, l'.members.Perm l.members → l'.contents.Perm l.contents →
    l'.pvs.Perm l.pvs → resolveGroupMembers l' group = resolveGroupMembers l group

/-- The persistent volumes with the handle of a member's content, of whatever
driver and bound or not, name one PVC, which is bound to the member's volume;
and no two members have one PVC. -/
structure HandlesTell : Prop where
  bound : ∀ m ∈ l.members, m.group = some group → ∀ claim, LeadsTo l m claim → Captures l m claim
  single : ∀ m ∈ l.members, m.group = some group →
    ∀ claim claim', LeadsTo l m claim → LeadsTo l m claim' → claim = claim'
  apart : ∀ m ∈ l.members, ∀ m' ∈ l.members, m.group = some group → m'.group = some group →
    ∀ claim, LeadsTo l m claim → LeadsTo l m' claim → m = m'

end Meaning

section Hops

variable {l : GroupListing} {group : String} {m m' : MemberVs} {claim claim' : ClaimKey}

def GroupListing.claimOf (l : GroupListing) (m : MemberVs) : Option ClaimKey :=
  (m.content.bind fun c => (handleByContent (l.contents.map (·.info))).lookup c).bind fun h =>
    (claimByHandle (l.pvs.filterMap (·.info))).lookup h

def GroupListing.entryOf (l : GroupListing) (group : String) (m : MemberVs) :
    Option (ClaimKey × GroupMember) :=
  if m.group ≠ some group then none else (l.claimOf m).map fun claim => (claim, m.captured)

theorem entryOf_eq_some {e : ClaimKey × GroupMember} : l.entryOf group m = some e ↔
    m.group = some group ∧ l.claimOf m = some e.1 ∧ m.captured = e.2 := by
  rw [GroupListing.entryOf]
  split
  case isTrue hg => simp [hg]
  case isFalse hg =>
    rw [Option.map_eq_some_iff]
    constructor
    · rintro ⟨claim, hclaim, rfl⟩
      exact ⟨not_not.mp hg, hclaim, rfl⟩
    · rintro ⟨-, hclaim, hcaptured⟩
      exact ⟨e.1, hclaim, by rw [hcaptured]⟩

theorem resolveGroupMembers_eq :
    resolveGroupMembers l group = putAll (l.members.filterMap (l.entryOf group)) [] := by
  have hmap : mapGroupMembers l.members (l.contents.map (·.info)) (l.pvs.filterMap (·.info)) group =
      putAll (l.members.filterMap (l.entryOf group)) [] := by
    rw [mapGroupMembers, putAll, List.foldl_filterMap]
    congr 1
    funext out m
    by_cases hg : m.group = some group
    · simp only [GroupListing.entryOf, hg, ne_eq, not_true_eq_false, if_false,
        GroupListing.claimOf]
      split
      case h_1 claim hclaim => rw [hclaim]; rfl
      case h_2 hnone => rw [hnone]; rfl
    · simp [GroupListing.entryOf, hg]
  rw [resolveGroupMembers]
  split
  case isFalse => exact hmap
  case isTrue hnone =>
    have hempty : l.members.filterMap (l.entryOf group) = [] := by
      rw [List.filterMap_eq_nil_iff]
      intro m hm
      have hg := List.all_eq_true.mp hnone m hm
      simp only [decide_eq_true_eq] at hg
      simp [GroupListing.entryOf, hg]
    rw [hempty]
    rfl

theorem leadsTo_of_claimOf (h : l.claimOf m = some claim) : LeadsTo l m claim := by
  obtain ⟨handle, hhandle, hclaim⟩ := Option.bind_eq_some_iff.mp h
  obtain ⟨content, hcontent, hhandle⟩ := Option.bind_eq_some_iff.mp hhandle
  obtain ⟨info, hinfo, hentry⟩ := List.mem_filterMap.mp (mem_of_lookup_putAll hhandle)
  obtain ⟨c, hc, rfl⟩ := List.mem_map.mp hinfo
  obtain ⟨_, hvolume, heq⟩ := Option.map_eq_some_iff.mp hentry
  obtain ⟨rfl, rfl⟩ := Prod.mk.inj heq
  obtain ⟨i, hi, heq⟩ := List.mem_map.mp (mem_of_lookup_putAll hclaim)
  obtain ⟨pv, hpv, hi⟩ := List.mem_filterMap.mp hi
  obtain ⟨hsame, hname⟩ := Prod.mk.inj heq
  exact ⟨c, hc, hcontent, _, hvolume, pv, hpv, i, hi, hsame, hname⟩

theorem handle_of_content {c : VolumeSnapshotContent} (hc : c ∈ l.contents) {handle : String}
    (hvolume : c.volumeHandle = some handle) :
    (handleByContent (l.contents.map (·.info))).lookup c.name = some handle := by
  have hentry : (c.name, handle) ∈ (l.contents.map (·.info)).filterMap fun c =>
      c.volumeHandle.map fun h => (c.name, h) :=
    List.mem_filterMap.mpr ⟨c.info, List.mem_map_of_mem hc, by
      rw [VolumeSnapshotContent.info, hvolume]
      rfl⟩
  obtain ⟨handle', hlookup⟩ := exists_lookup_putAll hentry
  obtain ⟨info, hinfo, hentry'⟩ := List.mem_filterMap.mp (mem_of_lookup_putAll hlookup)
  obtain ⟨c', hc', rfl⟩ := List.mem_map.mp hinfo
  obtain ⟨_, hvolume', heq⟩ := Option.map_eq_some_iff.mp hentry'
  obtain ⟨hname, rfl⟩ := Prod.mk.inj heq
  obtain rfl := List.inj_on_of_nodup_map l.contentNames hc' hc hname
  obtain rfl := Option.some.inj (hvolume'.symm.trans hvolume)
  exact hlookup

theorem claimOf_of_leadsTo (h : LeadsTo l m claim) : ∃ claim', l.claimOf m = some claim' := by
  obtain ⟨c, hc, hcontent, handle, hvolume, pv, hpv, i, hi, rfl, -⟩ := h
  have hpair : (i.volumeHandle, i.claim) ∈ (l.pvs.filterMap (·.info)).map fun p =>
      (p.volumeHandle, p.claim) :=
    List.mem_map.mpr ⟨i, List.mem_filterMap.mpr ⟨pv, hpv, hi⟩, rfl⟩
  obtain ⟨claim', hclaim⟩ := exists_lookup_putAll hpair
  refine ⟨claim', ?_⟩
  rw [GroupListing.claimOf, hcontent]
  exact Option.bind_eq_some_iff.mpr ⟨_, handle_of_content hc hvolume, hclaim⟩

theorem exists_of_mem_resolve {captured : GroupMember}
    (h : (claim, captured) ∈ resolveGroupMembers l group) :
    ∃ m ∈ l.members, m.group = some group ∧ l.claimOf m = some claim ∧ m.captured = captured := by
  rw [resolveGroupMembers_eq] at h
  obtain ⟨m, hm, hentry⟩ := List.mem_filterMap.mp (mem_of_lookup_putAll (mem_putAll_iff.mp h))
  obtain ⟨hgroup, hclaim, hcaptured⟩ := entryOf_eq_some.mp hentry
  exact ⟨m, hm, hgroup, hclaim, hcaptured⟩

theorem mem_resolve_of_claimOf (hm : m ∈ l.members) (hgroup : m.group = some group)
    (hclaim : l.claimOf m = some claim) :
    ∃ captured, (claim, captured) ∈ resolveGroupMembers l group := by
  rw [resolveGroupMembers_eq]
  obtain ⟨captured, hlookup⟩ := exists_lookup_putAll
    (List.mem_filterMap.mpr ⟨m, hm, entryOf_eq_some.mpr ⟨hgroup, hclaim, rfl⟩⟩)
  exact ⟨captured, mem_putAll_iff.mpr hlookup⟩

theorem sorted_resolveGroupMembers : SortedKeys (resolveGroupMembers l group) := by
  rw [resolveGroupMembers_eq]
  exact sorted_putAll _ List.Pairwise.nil

theorem Captures.leadsTo (h : Captures l m claim) : LeadsTo l m claim := by
  obtain ⟨c, hc, hcontent, handle, hvolume, pv, hpv, -, hcsi, hclaim⟩ := h
  refine ⟨c, hc, hcontent, handle, hvolume, pv, hpv,
    ⟨handle, (ofLex claim).1, (ofLex claim).2⟩, ?_, rfl, rfl⟩
  simp [PersistentVolume.info, hcsi, hclaim]

theorem leadsTo_congr {l' : GroupListing} (hcontents : l'.contents.Perm l.contents)
    (hpvs : l'.pvs.Perm l.pvs) : LeadsTo l' m claim ↔ LeadsTo l m claim := by
  simp only [LeadsTo, hcontents.mem_iff, hpvs.mem_iff]

theorem eq_of_captured (hm : m ∈ l.members) (hm' : m' ∈ l.members)
    (h : m.captured = m'.captured) : m = m' :=
  List.inj_on_of_nodup_map l.memberNames hm hm' (congrArg GroupMember.volumeSnapshotName h)

/-- The same objects with a member and a persistent volume listed last. -/
def GroupListing.lastly (l : GroupListing) (hm : m ∈ l.members) {pv : PersistentVolume}
    (_hpv : pv ∈ l.pvs) : GroupListing where
  members := l.members.erase m ++ [m]
  contents := l.contents
  pvs := l.pvs.erase pv ++ [pv]
  memberNames :=
    ((((List.perm_append_singleton m _).trans (List.perm_cons_erase hm).symm).map _).nodup_iff).mpr
      l.memberNames
  contentNames := l.contentNames

theorem claimOf_lastly (hm : m ∈ l.members) {c : VolumeSnapshotContent} (hc : c ∈ l.contents)
    (hcontent : m.content = some c.name) {pv : PersistentVolume} (hpv : pv ∈ l.pvs) {i : PvInfo}
    (hi : i ∈ pv.info) (hvolume : c.volumeHandle = some i.volumeHandle) :
    (l.lastly hm hpv).claimOf m = some i.claim := by
  have hleads : LeadsTo (l.lastly hm hpv) m i.claim :=
    ⟨c, hc, hcontent, _, hvolume, pv, List.mem_append_right _ List.mem_cons_self, i, hi, rfl, rfl⟩
  have hclaims : (claimByHandle ((l.lastly hm hpv).pvs.filterMap (·.info))).lookup i.volumeHandle =
      some i.claim := by
    have hlast : (l.lastly hm hpv).pvs.filterMap (·.info) =
        (l.pvs.erase pv).filterMap (·.info) ++ [i] := by
      simp [GroupListing.lastly, Option.mem_def.mp hi]
    rw [hlast, claimByHandle, List.map_append]
    exact lookup_putAll_concat _ _ _
  have hhandle := handle_of_content (l := l.lastly hm hpv) hc hvolume
  rw [GroupListing.claimOf, hcontent, Option.bind_some, hhandle, Option.bind_some, hclaims]

theorem mem_resolve_lastly (hm : m ∈ l.members) (hgroup : m.group = some group)
    {pv : PersistentVolume} (hpv : pv ∈ l.pvs)
    (hclaim : (l.lastly hm hpv).claimOf m = some claim) :
    (claim, m.captured) ∈ resolveGroupMembers (l.lastly hm hpv) group := by
  have hentry : (l.lastly hm hpv).entryOf group m = some (claim, m.captured) :=
    entryOf_eq_some.mpr ⟨hgroup, hclaim, rfl⟩
  have hentries : (l.lastly hm hpv).members.filterMap ((l.lastly hm hpv).entryOf group) =
      (l.members.erase m).filterMap ((l.lastly hm hpv).entryOf group) ++
        [(claim, m.captured)] := by
    change (l.members.erase m ++ [m]).filterMap _ = _
    rw [List.filterMap_append, List.filterMap_cons, hentry]
    rfl
  rw [resolveGroupMembers_eq, hentries]
  exact mem_putAll_iff.mpr (lookup_putAll_concat _ _ _)

end Hops

section Exact

variable {l l' : GroupListing} {group : String} {m : MemberVs} {claim : ClaimKey}

theorem NeverCrosses.mem_of_leadsTo (h : NeverCrosses l group) (hm : m ∈ l.members)
    (hgroup : m.group = some group) (hleads : LeadsTo l m claim) :
    (claim, m.captured) ∈ resolveGroupMembers l group := by
  obtain ⟨c, hc, hcontent, handle, hvolume, pv, hpv, i, hi, rfl, rfl⟩ := hleads
  have hlast := mem_resolve_lastly hm hgroup hpv (claimOf_lastly hm hc hcontent hpv hi hvolume)
  have hmembers : (l.lastly hm hpv).members.Perm l.members :=
    (List.perm_append_singleton m _).trans (List.perm_cons_erase hm).symm
  have hpvs : (l.lastly hm hpv).pvs.Perm l.pvs :=
    (List.perm_append_singleton pv _).trans (List.perm_cons_erase hpv).symm
  rwa [h.ordered _ hmembers (.refl _) hpvs] at hlast

theorem NeverCrosses.handlesTell (h : NeverCrosses l group) : HandlesTell l group where
  bound m hm hgroup claim hleads := by
    obtain ⟨m', hm', -, hcaptured, hcaptures⟩ := h.sound _ _ (h.mem_of_leadsTo hm hgroup hleads)
    rwa [eq_of_captured hm' hm hcaptured] at hcaptures
  single m hm hgroup claim claim' hleads hleads' := by
    obtain ⟨m₁, hm₁, -, hclaim, hcaptured⟩ :=
      exists_of_mem_resolve (h.mem_of_leadsTo hm hgroup hleads)
    obtain ⟨m₂, hm₂, -, hclaim', hcaptured'⟩ :=
      exists_of_mem_resolve (h.mem_of_leadsTo hm hgroup hleads')
    rw [eq_of_captured hm₁ hm hcaptured] at hclaim
    rw [eq_of_captured hm₂ hm hcaptured', hclaim] at hclaim'
    exact Option.some.inj hclaim'
  apart m hm m' hm' hgroup hgroup' claim hleads hleads' :=
    eq_of_captured hm hm' (sorted_resolveGroupMembers.unique
      (h.mem_of_leadsTo hm hgroup hleads) (h.mem_of_leadsTo hm' hgroup' hleads'))

theorem HandlesTell.mem_iff (h : HandlesTell l group) {captured : GroupMember} :
    (claim, captured) ∈ resolveGroupMembers l group ↔
      ∃ m ∈ l.members, m.group = some group ∧ LeadsTo l m claim ∧ m.captured = captured := by
  constructor
  · intro hmem
    obtain ⟨m, hm, hgroup, hclaim, hcaptured⟩ := exists_of_mem_resolve hmem
    exact ⟨m, hm, hgroup, leadsTo_of_claimOf hclaim, hcaptured⟩
  · rintro ⟨m, hm, hgroup, hleads, rfl⟩
    obtain ⟨claim', hclaim⟩ := claimOf_of_leadsTo hleads
    obtain rfl := h.single m hm hgroup _ _ hleads (leadsTo_of_claimOf hclaim)
    obtain ⟨captured, hmem⟩ := mem_resolve_of_claimOf hm hgroup hclaim
    obtain ⟨m', hm', hgroup', hclaim', rfl⟩ := exists_of_mem_resolve hmem
    rwa [h.apart m hm m' hm' hgroup hgroup' claim hleads (leadsTo_of_claimOf hclaim')]

theorem HandlesTell.congr (h : HandlesTell l group) (hmembers : l'.members.Perm l.members)
    (hcontents : l'.contents.Perm l.contents) (hpvs : l'.pvs.Perm l.pvs) :
    HandlesTell l' group where
  bound m hm hgroup claim hleads := by
    have hcaptures := h.bound m (hmembers.mem_iff.mp hm) hgroup claim
      ((leadsTo_congr hcontents hpvs).mp hleads)
    simpa only [Captures, hcontents.mem_iff, hpvs.mem_iff] using hcaptures
  single m hm hgroup claim claim' hleads hleads' :=
    h.single m (hmembers.mem_iff.mp hm) hgroup claim claim'
      ((leadsTo_congr hcontents hpvs).mp hleads) ((leadsTo_congr hcontents hpvs).mp hleads')
  apart m hm m' hm' hgroup hgroup' claim hleads hleads' :=
    h.apart m (hmembers.mem_iff.mp hm) m' (hmembers.mem_iff.mp hm') hgroup hgroup' claim
      ((leadsTo_congr hcontents hpvs).mp hleads) ((leadsTo_congr hcontents hpvs).mp hleads')

theorem HandlesTell.neverCrosses (h : HandlesTell l group) : NeverCrosses l group where
  sound claim captured hmem := by
    obtain ⟨m, hm, hgroup, hleads, hcaptured⟩ := h.mem_iff.mp hmem
    exact ⟨m, hm, hgroup, hcaptured, h.bound m hm hgroup claim hleads⟩
  complete m hm hgroup hcaptures := by
    obtain ⟨claim, hcaptures⟩ := hcaptures
    exact ⟨claim, h.mem_iff.mpr ⟨m, hm, hgroup, hcaptures.leadsTo, rfl⟩⟩
  ordered l' hmembers hcontents hpvs := by
    refine sorted_resolveGroupMembers.ext sorted_resolveGroupMembers fun ⟨claim, captured⟩ => ?_
    rw [(h.congr hmembers hcontents hpvs).mem_iff, h.mem_iff]
    simp only [hmembers.mem_iff, leadsTo_congr hcontents hpvs]

end Exact

/-- The mapping is right, whatever the order of its inputs, exactly when the
handles of the group's members tell their PVCs. -/
theorem groupMembers_never_cross (l : GroupListing) (group : String) :
    NeverCrosses l group ↔ HandlesTell l group :=
  ⟨NeverCrosses.handlesTell, HandlesTell.neverCrosses⟩

/-- A member taken of `vol-1` by one driver, with a volume of that handle at each
of two drivers. -/
def twoDrivers : GroupListing where
  members := [⟨"snap-a", some "grp", some "content-a", none⟩]
  contents := [⟨"content-a", "csi.one", some "vol-1"⟩]
  pvs := [⟨some "Bound", some ⟨"csi.one", "vol-1"⟩, some ⟨some "prod", some "data-a"⟩⟩,
    ⟨some "Bound", some ⟨"csi.two", "vol-1"⟩, some ⟨some "prod", some "data-b"⟩⟩]
  memberNames := by decide
  contentNames := by decide

/-- Another driver's volume with the handle of a member is taken for the member's. -/
theorem groupMembers_cross_drivers : ¬ ∀ l group, NeverCrosses l group := by
  intro h
  have htell := (h twoDrivers "grp").handlesTell
  have hleads : LeadsTo twoDrivers ⟨"snap-a", some "grp", some "content-a", none⟩
      (toLex ("prod", "data-b")) :=
    ⟨_, List.mem_cons_self, rfl, "vol-1", rfl, _, List.mem_cons_of_mem _ List.mem_cons_self,
      ⟨"vol-1", "prod", "data-b"⟩, rfl, rfl, rfl⟩
  have hleads' : LeadsTo twoDrivers ⟨"snap-a", some "grp", some "content-a", none⟩
      (toLex ("prod", "data-a")) :=
    ⟨_, List.mem_cons_self, rfl, "vol-1", rfl, _, List.mem_cons_self,
      ⟨"vol-1", "prod", "data-a"⟩, rfl, rfl, rfl⟩
  have hsame := htell.single _ List.mem_cons_self rfl _ _ hleads hleads'
  revert hsame
  decide

end Kopiur
