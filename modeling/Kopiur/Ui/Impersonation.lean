import Kopiur.Lib.Results
import Kopiur.Ui.Impersonate

/-!
# What the headers of a request decide

An identity depends on the configured headers only, its groups are canonical,
and nobody a proxy names is privileged.
-/

namespace Kopiur.Ui

open Kopiur.Lib

/-! ## What the headers decide -/

namespace HeaderMap

theorem getAll_remove (headers : HeaderMap) (name other : HeaderName) :
    (headers.remove name).getAll other = if other = name then [] else headers.getAll other := by
  unfold remove getAll
  rw [List.filter_filter]
  by_cases h : other = name
  · subst h
    simp
  · rw [if_neg h]
    congr 1
    apply List.filter_congr
    intro e _
    by_cases he : e.1 = other
    · simp [he, h]
    · simp [he]

theorem getAll_foldl_remove (names : List HeaderName) (headers : HeaderMap)
    (other : HeaderName) :
    HeaderMap.getAll (names.foldl remove headers) other =
      if other ∈ names then [] else headers.getAll other := by
  induction names generalizing headers with
  | nil => simp
  | cons name rest ih =>
    rw [List.foldl_cons, ih, getAll_remove]
    by_cases h : other ∈ rest <;> by_cases hn : other = name <;> simp [h, hn]

end HeaderMap

def AuthConfig.identityHeaders (cfg : AuthConfig) : List HeaderName :=
  match cfg.mode with
  | .headers user groups _ => user :: groups.toList ++ cfg.emailHeader.toList
  | .anonymousOnly _ => []

def AgreeOn (cfg : AuthConfig) (headers headers' : HeaderMap) : Prop :=
  ∀ name ∈ cfg.identityHeaders, headers.getAll name = headers'.getAll name

section codec

variable {codec : Codec} {cfg : AuthConfig} {headers headers' : HeaderMap}

theorem headerStr_congr {name : HeaderName} (h : headers.getAll name = headers'.getAll name) :
    headerStr codec headers name = headerStr codec headers' name := by
  simp only [headerStr, HeaderMap.get, h]

theorem assertedGroups_congr {name : HeaderName} (h : headers.getAll name = headers'.getAll name) :
    assertedGroups codec headers cfg name = assertedGroups codec headers' cfg name := by
  simp only [assertedGroups, h]

theorem extractIdentity_congr (h : AgreeOn cfg headers headers') :
    extractIdentity codec headers cfg = extractIdentity codec headers' cfg := by
  unfold AgreeOn AuthConfig.identityHeaders at h
  unfold extractIdentity
  cases hm : cfg.mode with
  | anonymousOnly anonymous => rfl
  | headers user groups fallback =>
    simp only [hm, List.cons_append, List.mem_cons, List.mem_append, Option.mem_toList,
      forall_eq_or_imp] at h
    obtain ⟨huser, hrest⟩ := h
    have hid : ∀ name, headerIdentity codec headers cfg user name groups =
        headerIdentity codec headers' cfg user name groups := by
      intro name
      have hgroups : headerGroups codec headers cfg groups =
          headerGroups codec headers' cfg groups := by
        cases groups with
        | none => rfl
        | some g => exact assertedGroups_congr (hrest g (.inl rfl))
      have hemail : headerEmail codec headers cfg = headerEmail codec headers' cfg := by
        unfold headerEmail
        cases hc : cfg.emailHeader with
        | none => rfl
        | some e => simp only [headerStr_congr (hrest e (.inr hc))]
      simp only [headerIdentity, hgroups, hemail]
    simp only [headerStr_congr huser, hid]

theorem agreeOn_stripSensitive (h : AgreeOn cfg headers headers') :
    AgreeOn cfg (stripSensitive headers) (stripSensitive headers') := by
  intro name hname
  simp only [stripSensitive, HeaderMap.getAll_foldl_remove, h name hname]

theorem extractIdentity_of_identify {id : Identity} (h : identify codec headers cfg = .ok id) :
    extractIdentity codec (stripSensitive headers) cfg = .ok id := by
  unfold identify at h
  cases hm : cfg.mode with
  | headers user groups fallback =>
    simp only [hm] at h
    obtain ⟨⟨⟩, -, h⟩ := bind_eq_ok.mp h
    exact h
  | anonymousOnly anonymous =>
    simp only [hm] at h
    exact h

theorem identify_congr (h : AgreeOn cfg headers headers') {id id' : Identity}
    (hid : identify codec headers cfg = .ok id) (hid' : identify codec headers' cfg = .ok id') :
    id = id' := by
  have he := extractIdentity_of_identify hid
  rw [extractIdentity_congr (agreeOn_stripSensitive h), extractIdentity_of_identify hid'] at he
  exact (Except.ok.inj he).symm

/-! ## What an extracted identity looks like -/

structure Identity.Canonical (id : Identity) : Prop where
  groups : canonical id.groups = id.groups
  extra : ∀ e ∈ id.extra, canonical e.2 = e.2

/-- No `system:` principal but the one that every caller carries. -/
structure Identity.Unprivileged (id : Identity) : Prop where
  user : isForbiddenPrincipal id.user = false
  groups : ∀ g ∈ id.groups, isForbiddenPrincipal g = false

theorem mem_withAuthenticated {g : String} {kept : List String} :
    g ∈ (if kept.any (· = systemAuthenticated) then kept else kept ++ [systemAuthenticated]) ↔
      g ∈ kept ∨ g = systemAuthenticated := by
  split
  · rename_i h
    obtain ⟨a, ha, heq⟩ := List.any_eq_true.mp h
    obtain rfl := of_decide_eq_true heq
    constructor
    · exact .inl
    · rintro (h | rfl)
      · exact h
      · exact ha
  · simp

theorem finish_eq_ok {user : String} {groups : List String} {email : Option String}
    {source : IdentitySource} {id : Identity} (h : finish user groups email source cfg = .ok id) :
    (id.user = user ∧ id.source = source) ∧ id.Canonical ∧
      systemAuthenticated ∈ id.groups ∧
      ∀ g ∈ id.groups, g ∈ groups ∨ g = systemAuthenticated := by
  unfold finish at h
  have hsub : ∀ g ∈ (partitionAllowed cfg.allowedGroups groups).1, g ∈ groups := by
    unfold partitionAllowed
    cases cfg.allowedGroups with
    | none => exact fun g hg => hg
    | some allowed => exact fun g hg => (List.mem_filter.mp hg).1
  generalize partitionAllowed cfg.allowedGroups groups = kept at h hsub
  obtain ⟨⟨⟩, -, h⟩ := bind_eq_ok.mp h
  cases h
  refine ⟨⟨rfl, rfl⟩, ⟨canonical_canonical _, ?_⟩, ?_, ?_⟩
  · intro e he
    cases email with
    | none => cases he
    | some address =>
      dsimp only at he
      split at he
      · obtain rfl := List.mem_singleton.mp he
        rfl
      · cases he
  · exact mem_canonical.mpr (mem_withAuthenticated.mpr (.inr rfl))
  · intro g hg
    exact (mem_withAuthenticated.mp (mem_canonical.mp hg)).imp_left (hsub g)

theorem unprivileged_of_finish {user : String} {groups : List String} {email : Option String}
    {source : IdentitySource} {id : Identity} (h : finish user groups email source cfg = .ok id)
    (huser : isForbiddenPrincipal user = false)
    (hgroups : ∀ g ∈ groups, isForbiddenPrincipal g = false) : id.Unprivileged := by
  obtain ⟨⟨rfl, -⟩, -, -, hsub⟩ := finish_eq_ok h
  refine ⟨huser, fun g hg => ?_⟩
  rcases hsub g hg with h | rfl
  · exact hgroups g h
  · decide

theorem rejectForbidden_eq_ok {principal : String} (h : rejectForbidden principal = .ok ()) :
    isForbiddenPrincipal principal = false := by
  unfold rejectForbidden at h
  split at h
  · cases h
  · rename_i hf
    exact Bool.eq_false_iff.mpr hf

theorem addGroup_keeps {header : HeaderName} {groups groups' : List String} {group : String}
    (hgroups : ∀ g ∈ groups, isForbiddenPrincipal g = false)
    (h : addGroup header groups group = .ok groups') :
    ∀ g ∈ groups', isForbiddenPrincipal g = false := by
  unfold addGroup at h
  dsimp only at h
  split at h
  · cases h
    exact hgroups
  · obtain ⟨⟨⟩, -, h⟩ := bind_eq_ok.mp h
    obtain ⟨⟨⟩, -, h⟩ := bind_eq_ok.mp h
    obtain ⟨⟨⟩, hreject, h⟩ := bind_eq_ok.mp h
    cases h
    intro g hg
    rcases List.mem_append.mp hg with hg | hg
    · exact hgroups g hg
    · obtain rfl := List.mem_singleton.mp hg
      exact rejectForbidden_eq_ok hreject

theorem assertedGroups_eq_ok {header : HeaderName} {groups : List String}
    (h : assertedGroups codec headers cfg header = .ok groups) :
    ∀ g ∈ groups, isForbiddenPrincipal g = false := by
  refine foldlM_invariant (fun groups => ∀ g ∈ groups, isForbiddenPrincipal g = false) ?_
    (fun g hg => by cases hg) h
  intro found value found' hfound hpass
  obtain ⟨raw, -, hpass⟩ := bind_eq_ok.mp hpass
  obtain ⟨decoded, -, hpass⟩ := bind_eq_ok.mp hpass
  exact foldlM_invariant _ (fun _ _ _ => addGroup_keeps) hfound hpass

theorem headerIdentity_eq_ok {userHeader : HeaderName} {user : String}
    {groupsHeader : Option HeaderName} {id : Identity}
    (h : headerIdentity codec headers cfg userHeader user groupsHeader = .ok id) :
    id.Canonical ∧ id.source = .trustedHeaders ∧ id.Unprivileged := by
  obtain ⟨⟨⟩, -, h⟩ := bind_eq_ok.mp h
  obtain ⟨⟨⟩, hreject, h⟩ := bind_eq_ok.mp h
  obtain ⟨groups, hgroups, h⟩ := bind_eq_ok.mp h
  obtain ⟨email, -, h⟩ := bind_eq_ok.mp h
  obtain ⟨⟨-, hsource⟩, hcanonical, -⟩ := finish_eq_ok h
  have hasserted : ∀ g ∈ groups, isForbiddenPrincipal g = false := by
    cases groupsHeader with
    | none =>
      cases hgroups
      exact fun g hg => by cases hg
    | some header => exact assertedGroups_eq_ok hgroups
  exact ⟨hcanonical, hsource, unprivileged_of_finish h (rejectForbidden_eq_ok hreject) hasserted⟩

/-- The anonymous identity of the configuration is not privileged. -/
def AuthConfig.AnonymousUnprivileged (cfg : AuthConfig) : Prop :=
  ∀ anonymous : AnonymousIdentity,
    cfg.mode = .anonymousOnly anonymous ∨
      (∃ user groups, cfg.mode = .headers user groups (some anonymous)) →
    isForbiddenPrincipal anonymous.user = false ∧
      ∀ g ∈ anonymous.groups, isForbiddenPrincipal g = false

theorem extractIdentity_eq_ok {id : Identity} (h : extractIdentity codec headers cfg = .ok id) :
    id.Canonical ∧ (id.source = .trustedHeaders ∨ cfg.AnonymousUnprivileged → id.Unprivileged) := by
  have hanonymous : ∀ anonymous : AnonymousIdentity,
      cfg.mode = .anonymousOnly anonymous ∨
        (∃ user groups, cfg.mode = .headers user groups (some anonymous)) →
      anonymousIdentity anonymous cfg = .ok id →
      id.Canonical ∧ (id.source = .trustedHeaders ∨ cfg.AnonymousUnprivileged → id.Unprivileged) := by
    intro anonymous hmode h
    obtain ⟨⟨-, hsource⟩, hcanonical, -⟩ := finish_eq_ok h
    refine ⟨hcanonical, ?_⟩
    rintro (htrusted | hcfg)
    · rw [htrusted] at hsource
      cases hsource
    · exact unprivileged_of_finish h (hcfg anonymous hmode).1 (hcfg anonymous hmode).2
  unfold extractIdentity at h
  cases hm : cfg.mode with
  | anonymousOnly anonymous =>
    simp only [hm] at h
    exact hanonymous anonymous (.inl hm) h
  | headers user groups fallback =>
    simp only [hm] at h
    obtain ⟨name, -, h⟩ := bind_eq_ok.mp h
    cases name with
    | some name =>
      obtain ⟨hcanonical, -, hplain⟩ := headerIdentity_eq_ok h
      exact ⟨hcanonical, fun _ => hplain⟩
    | none =>
      cases fallback with
      | some anonymous => exact hanonymous anonymous (.inr ⟨user, groups, hm⟩) h
      | none => cases h

theorem rejectSystemIdentity_eq_ok {value : String} (h : rejectSystemIdentity value = .ok ()) :
    isForbiddenPrincipal value = false := by
  unfold rejectSystemIdentity at h
  dsimp only at h
  split at h
  · cases h
  · rename_i hf
    simp only [not_or, not_and, not_not] at hf
    unfold isForbiddenPrincipal
    cases hs : "system:".toList.isPrefixOf value.toList with
    | false => rfl
    | true => rw [hf.2 hs, decide_eq_false (not_not.mpr rfl)]; rfl

theorem resolveAnonymous_eq_ok {args : AuthArgs} {anonymous : Option AnonymousIdentity}
    (h : resolveAnonymous false args = .ok anonymous) :
    ∀ a ∈ anonymous, isForbiddenPrincipal a.user = false ∧
      ∀ g ∈ a.groups, isForbiddenPrincipal g = false := by
  obtain ⟨⟨⟩, hall, h⟩ := bind_eq_ok.mp h
  cases h
  intro a ha
  obtain ⟨user, huser, rfl⟩ := Option.mem_map.mp ha
  have hchecked := fun p hp => rejectSystemIdentity_eq_ok (forM_eq_ok hall p hp)
  exact ⟨hchecked user (by simp [Option.mem_def.mp huser]), fun g hg => hchecked g (by simp [hg])⟩

/-- A release build only starts with an anonymous identity that is not
privileged. -/
theorem resolveAuth_anonymous {secret : Except ConfigError (Option (List UInt8))}
    {args : AuthArgs} (h : resolveAuth codec false secret args = .ok cfg) :
    cfg.AnonymousUnprivileged := by
  obtain ⟨allowed, -, h⟩ := bind_eq_ok.mp h
  obtain ⟨anonymous, hanonymous, h⟩ := bind_eq_ok.mp h
  obtain ⟨user, -, h⟩ := bind_eq_ok.mp h
  obtain ⟨groups, -, h⟩ := bind_eq_ok.mp h
  obtain ⟨email, -, h⟩ := bind_eq_ok.mp h
  have hfallback : (args.anonymousFallback && anonymous.isNone) = false := by
    cases hf : args.anonymousFallback && anonymous.isNone with
    | true =>
      rw [hf] at h
      cases h
    | false => rfl
  rw [hfallback] at h
  obtain ⟨⟨mode, proxySecret⟩, hmode, h⟩ := bind_eq_ok.mp h
  cases h
  intro a ha
  apply resolveAnonymous_eq_ok hanonymous a
  cases user with
  | none =>
    cases anonymous with
    | none => cases hmode
    | some b =>
      cases hmode
      rcases ha with ha | ⟨u, g, ha⟩ <;> cases ha
      rfl
  | some user =>
    obtain ⟨s, -, hmode⟩ := bind_eq_ok.mp hmode
    cases hmode
    rcases ha with ha | ⟨u, g, ha⟩
    · cases ha
    · simp only [AuthMode.headers.injEq] at ha
      split at ha
      · exact ha.2.2
      · cases ha.2.2

end codec

end Kopiur.Ui
