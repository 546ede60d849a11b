import Kopiur.Migrate.Kopia
import Kopiur.Lib.DnsNames

/-!
# A migrated source continues its history

The identity the operator resolves for a translated policy is the one the fork
recorded, whatever the repository's defaults say, and admission refuses a
translated policy only for what the fork took from the user as it is.
-/

namespace Kopiur

open Lib

theorem isIdentifierChar_spec {c : Char} (h : isIdentifierChar c = true) :
    c.utf8Size = 1 ∧ c ≠ '@' ∧ c ≠ ':' ∧ isAsciiWhitespace c = false ∧
      isAsciiControl c = false := by
  have hlt : c.toNat < 128 := by
    simp only [isIdentifierChar, Bool.or_eq_true, beq_iff_eq, Char.isAlphanum, isAlpha_eq,
      isUpper_eq, isLower_eq, Char.isDigit, decide_eq_true_eq, Bool.and_eq_true] at h
    rcases h with ((h | rfl) | rfl) | rfl
    · have hval : c.toNat = c.val.toNat := rfl
      simp [UInt32.le_iff_toNat_le] at h
      omega
    all_goals decide
  have hall : ∀ n < 128, isIdentifierChar (Char.ofNat n) = true → (Char.ofNat n).utf8Size = 1 ∧
      Char.ofNat n ≠ '@' ∧ Char.ofNat n ≠ ':' ∧ isAsciiWhitespace (Char.ofNat n) = false ∧
      isAsciiControl (Char.ofNat n) = false := by decide
  have hc := hall c.toNat hlt
  rw [Char.ofNat_toNat] at hc
  exact hc h

theorem utf8ByteSize_of_identifier {l : List Char} (h : ∀ c ∈ l, isIdentifierChar c = true) :
    (String.ofList l).utf8ByteSize = l.length :=
  utf8ByteSize_of_narrow fun c hc => (isIdentifierChar_spec (h c hc)).1

theorem identityCharProblem_identifier {l : List Char} (hne : l ≠ [])
    (hlen : l.length ≤ identityMaxLen) (h : ∀ c ∈ l, isIdentifierChar c = true) :
    identityCharProblem (String.ofList l) = none := by
  have hsize := utf8ByteSize_of_identifier h
  have hat : '@' ∉ l := fun hc => (isIdentifierChar_spec (h _ hc)).2.1 rfl
  have hcolon : ':' ∉ l := fun hc => (isIdentifierChar_spec (h _ hc)).2.2.1 rfl
  have hspace : l.find? isAsciiWhitespace = none := by
    simpa using fun c hc => (isIdentifierChar_spec (h c hc)).2.2.2.1
  have hcontrol : l.find? isAsciiControl = none := by
    simpa using fun c hc => (isIdentifierChar_spec (h c hc)).2.2.2.2
  have hempty : (String.ofList l).isEmpty = false := by
    simpa [String.isEmpty_iff] using hne
  simp [identityCharProblem, hempty, hsize, Nat.not_lt.mpr hlen, hat, hcolon, hspace, hcontrol]

theorem length_sanitizeForIdentifier_le (input : String) (allowUnderscore allowDots : Bool) :
    (sanitizeForIdentifier input allowUnderscore allowDots).length ≤ input.utf8ByteSize :=
  (sanitizeForIdentifier_sublist _ _ _).length_le.trans
    ((List.length_filterMap_le _ _).trans (length_le_utf8ByteSize input))

theorem sanitizeUsername_ok (name : String) : identityCharProblem (sanitizeUsername name) = none := by
  unfold sanitizeUsername
  split
  case h_1 => decide
  case h_2 hne =>
    refine identityCharProblem_identifier ?_ ?_ fun c hc =>
      isIdentifierChar_of_mem (List.mem_of_mem_take hc)
    · simpa [forkMaxUsernameLen] using hne
    · exact (List.length_take_le _ _).trans (by decide)

theorem sanitizeHostname_ok {ns name : String} (hns : ns.utf8ByteSize ≤ identityMaxLen)
    (hname : name.utf8ByteSize ≤ identityMaxLen) :
    identityCharProblem (sanitizeHostname ns name) = none := by
  unfold sanitizeHostname
  split
  case h_1 => decide
  case h_2 hne hempty =>
    exact identityCharProblem_identifier hempty
      ((length_sanitizeForIdentifier_le _ _ _).trans hname) fun c => isIdentifierChar_of_mem
  case h_3 hempty _ =>
    exact identityCharProblem_identifier hempty
      ((length_sanitizeForIdentifier_le _ _ _).trans hns) fun c => isIdentifierChar_of_mem

theorem forkIdentity_ok {name ns : String} {username hostname : Option String}
    (hname : name.utf8ByteSize ≤ identityMaxLen) (hns : ns.utf8ByteSize ≤ identityMaxLen) :
    (identityCharProblem (forkIdentity name ns username hostname).1 = none ↔
      ∀ u ∈ username, u = "" ∨ identityCharProblem u = none) ∧
    (identityCharProblem (forkIdentity name ns username hostname).2 = none ↔
      ∀ h ∈ hostname, h = "" ∨ identityCharProblem h = none) := by
  have hdefault : ∀ (override : Option String) (default : String),
      identityCharProblem default = none →
      (identityCharProblem ((verbatim override).getD default) = none ↔
        ∀ v ∈ override, v = "" ∨ identityCharProblem v = none) := by
    intro override default hok
    cases override with
    | none => simp [verbatim, hok]
    | some v =>
      by_cases hv : v = ""
      · simp [verbatim, Option.filter, hv, hok]
      · simp [verbatim, Option.filter, hv]
  exact ⟨hdefault _ _ (sanitizeUsername_ok name), hdefault _ _ (sanitizeHostname_ok hns hname)⟩

section Stored

variable {Value Sec : Type}

structure ManifestDecoder (Value : Type) where
  resources : Value → Option ResourceRequirements
  podSecurityContext : Value → Bool

def decodeMover (decoder : ManifestDecoder Value) (mover : MoverManifest Value) :
    Option PolicyMover :=
  match mover.resources.map decoder.resources,
      mover.podSecurityContext.map decoder.podSecurityContext with
  | some none, _ | _, some false => none
  | some (some resources), _ => some { resources := some resources }
  | none, _ => some {}

def PolicyManifest.config (m : PolicyManifest Value) (mover : Option PolicyMover) :
    BackupConfig Sec where
  metadata := { name := some m.name, ns := some m.ns }
  spec :=
    { sources := [{ pvc := some ⟨m.pvc⟩, sourcePathOverride := some m.sourcePathOverride }] }
  repository := some m.repository
  identity := ⟨some m.username, some m.hostname⟩
  copyMethod := m.copyMethod
  volumeSnapshotClassName := m.volumeSnapshotClassName
  mover
  retention := m.retention

def PolicyManifest.decode (decoder : ManifestDecoder Value) (m : PolicyManifest Value) :
    Option (BackupConfig Sec) :=
  match m.mover with
  | none => some (m.config none)
  | some mover => (decodeMover decoder mover).map fun mover => m.config (some mover)

def PolicyManifest.Admitted (decoder : ManifestDecoder Value) (checks : BackupChecks Sec)
    (m : PolicyManifest Value) : Prop :=
  ∃ config, m.decode decoder = some config ∧ backupConfigErrors checks config = []

theorem PolicyManifest.plain {m : PolicyManifest Value} {mover : Option PolicyMover}
    (h : ∀ p ∈ mover, p.inheritSecurityContextFrom = none) :
    (m.config mover : BackupConfig Sec).Plain m.repository ⟨m.pvc⟩ m.username m.hostname
      m.sourcePathOverride where
  repository := rfl
  repositories := rfl
  hooks := rfl
  sources := rfl
  identity := rfl
  inherited := h
  sections := rfl

theorem resolveIdentityFor_config {render : RenderExpr} {m : PolicyManifest Value}
    {mover : Option PolicyMover} {defaults : Option IdentityDefaults}
    {id : String × String × String} :
    resolveIdentityFor render (m.config mover : BackupConfig Sec).toIdentityPolicy defaults none =
        .ok id ↔
      id = (m.username, m.hostname, m.sourcePathOverride) ∧
        identityCharProblem m.username = none ∧ identityCharProblem m.hostname = none ∧
        (m.sourcePathOverride ≠ "" ∧ ∀ c ∈ m.sourcePathOverride.toList, isAsciiControl c = false) := by
  have hpath : identitySourcePath (m.config mover : BackupConfig Sec).toSnapshotPolicy none =
      .ok (some m.sourcePathOverride) := rfl
  have hnames : resolveNames render (m.config mover : BackupConfig Sec).toIdentityPolicy defaults =
      .ok (m.username, m.hostname) := rfl
  simp only [resolveIdentityFor, hpath, bind_eq_ok, Except.ok.injEq]
  constructor
  · rintro ⟨_, rfl, r, hr, rfl⟩
    obtain ⟨⟨hn, hu, hh⟩, hp, hvalid⟩ := resolveIdentity_eq_ok.mp hr
    obtain ⟨hru, hrh⟩ := Prod.mk.inj (Except.ok.inj (hnames.symm.trans hn))
    rw [validateIdentityComponent_eq_ok] at hu hh
    rw [← hru] at hu
    rw [← hrh] at hh
    refine ⟨by simp [hp, hru, hrh], hu, hh, ?_⟩
    exact validateSourcePath_eq_ok.mp (hvalid _ rfl)
  · rintro ⟨rfl, hu, hh, hp⟩
    refine ⟨_, rfl, ⟨m.username, m.hostname, some m.sourcePathOverride⟩, ?_, rfl⟩
    refine resolveIdentity_eq_ok.mpr ⟨⟨hnames, ?_, ?_⟩, rfl, ?_⟩
    · exact validateIdentityComponent_eq_ok.mpr hu
    · exact validateIdentityComponent_eq_ok.mpr hh
    · rintro _ ⟨⟩
      exact validateSourcePath_eq_ok.mpr hp

/-- What is carried over as the user wrote it is what the operator accepts. -/
structure KopiaSourceSpec.Clean (decoder : ManifestDecoder Value)
    (exceeds : String → String → Bool) (kopia : KopiaSourceSpec Value) : Prop where
  username : ∀ u ∈ kopia.username, u = "" ∨ identityCharProblem u = none
  hostname : ∀ h ∈ kopia.hostname, h = "" ∨ identityCharProblem h = none
  path : ∀ p ∈ kopia.sourcePathOverride, ∀ c ∈ p.toList, isAsciiControl c = false
  retain : ∀ r ∈ kopia.retain, (∀ count ∈ r.counts, count.2.2 = none) ∨
    ∃ count ∈ r.counts, ∃ n ∈ count.2.2, 0 < n
  resources : ∀ v ∈ kopia.moverResources, ∃ r, decoder.resources v = some r ∧
    requestsExceedingLimits exceeds r = none
  securityContext : ∀ v ∈ kopia.moverSecurityContext, decoder.podSecurityContext v = true

theorem translateRetain_keeps {retain : KopiaRetain} :
    (∀ r ∈ translateRetain retain, retentionKeepsNothing r = false) ↔
      (∀ count ∈ retain.counts, count.2.2 = none) ∨
        ∃ count ∈ retain.counts, ∃ n ∈ count.2.2, 0 < n := by
  by_cases hnone : ∀ count ∈ retain.counts, count.2.2 = none
  · have hretain : translateRetain retain = none := if_pos (by simpa using hnone)
    simpa [hretain] using Or.inl hnone
  · obtain ⟨r, hr, hcounts⟩ : ∃ r, translateRetain retain = some r ∧
        r.counts = retain.counts.map (·.2.2) := by
      rw [translateRetain, if_neg (by simpa using hnone)]
      exact ⟨_, rfl, rfl⟩
    simp only [hnone, false_or, hr, Option.mem_def, Option.some.injEq, forall_eq',
      retentionKeepsNothing_eq_false, hcounts, List.mem_map]
    constructor
    · rintro ⟨_, ⟨count, hmem, rfl⟩, n, hn⟩
      exact ⟨count, hmem, n + 1, hn, n.succ_pos⟩
    · rintro ⟨count, hmem, n, hn, hpos⟩
      exact ⟨_, ⟨count, hmem, rfl⟩, n - 1, by rw [hn, Nat.sub_add_cancel hpos]⟩

theorem decodeMover_translated {decoder : ManifestDecoder Value}
    {exceeds : String → String → Bool} {kopia : KopiaSourceSpec Value} {mover : MoverManifest Value}
    (h : translateMover kopia = some mover) :
    (∃ p, decodeMover decoder mover = some p ∧
        ∀ r ∈ p.resources, requestsExceedingLimits exceeds r = none) ↔
      (∀ v ∈ kopia.moverResources, ∃ r, decoder.resources v = some r ∧
        requestsExceedingLimits exceeds r = none) ∧
      ∀ v ∈ kopia.moverSecurityContext, decoder.podSecurityContext v = true := by
  have hparts : mover.resources = kopia.moverResources ∧
      mover.podSecurityContext = kopia.moverSecurityContext := by
    unfold translateMover at h
    split at h
    case h_1 => cases h
    case h_2 => cases h; exact ⟨rfl, rfl⟩
  obtain ⟨hres, hctx⟩ := hparts
  cases hr : kopia.moverResources with
  | none =>
    cases hc : kopia.moverSecurityContext with
    | none => simp [decodeMover, hres, hctx, hr, hc]
    | some c => cases hd : decoder.podSecurityContext c <;> simp [decodeMover, hres, hctx, hr, hc, hd]
  | some v =>
    cases hdv : decoder.resources v with
    | none => simp [decodeMover, hres, hctx, hr, hdv]
    | some r =>
      cases hc : kopia.moverSecurityContext with
      | none => simp [decodeMover, hres, hctx, hr, hc, hdv]
      | some c =>
        cases hd : decoder.podSecurityContext c <;>
          simp [decodeMover, hres, hctx, hr, hc, hd, hdv]

theorem inherit_of_decodeMover {decoder : ManifestDecoder Value} {mover : MoverManifest Value}
    {p : PolicyMover} (h : decodeMover decoder mover = some p) :
    p.inheritSecurityContextFrom = none := by
  unfold decodeMover at h
  split at h
  case h_1 => cases h
  case h_2 => cases h
  case h_3 => cases h; rfl
  case h_4 => cases h; rfl

theorem PolicyManifest.decode_eq_some {decoder : ManifestDecoder Value} {m : PolicyManifest Value}
    {config : BackupConfig Sec} (h : m.decode decoder = some config) :
    ∃ mover : Option PolicyMover, config = m.config mover ∧
      ∀ p ∈ mover, p.inheritSecurityContextFrom = none := by
  unfold PolicyManifest.decode at h
  split at h
  case h_1 =>
    cases h
    exact ⟨none, rfl, nofun⟩
  case h_2 mover _ =>
    obtain ⟨p, hp, rfl⟩ := Option.map_eq_some_iff.mp h
    refine ⟨some p, rfl, ?_⟩
    rintro _ ⟨⟩
    exact inherit_of_decodeMover hp

def KopiaSourceSpec.MoverReads (decoder : ManifestDecoder Value)
    (exceeds : String → String → Bool) (kopia : KopiaSourceSpec Value) : Prop :=
  (∀ v ∈ kopia.moverResources, ∃ r, decoder.resources v = some r ∧
    requestsExceedingLimits exceeds r = none) ∧
  ∀ v ∈ kopia.moverSecurityContext, decoder.podSecurityContext v = true

theorem admitted_translatePolicy {decoder : ManifestDecoder Value} {checks : BackupChecks Sec}
    {name ns pvc : String} {kopia : KopiaSourceSpec Value} {repository : RepositoryRef}
    {fixed : Prop} (hfixed : ∀ mover : Option PolicyMover,
      (∀ p ∈ mover, p.inheritSecurityContextFrom = none) →
      (backupConfigErrors checks ((translatePolicy name ns pvc kopia repository).config mover) = [] ↔
        fixed ∧ ∀ p ∈ mover, ∀ r ∈ p.resources,
          requestsExceedingLimits checks.exceeds r = none)) :
    (translatePolicy name ns pvc kopia repository).Admitted decoder checks ↔
      fixed ∧ kopia.MoverReads decoder checks.exceeds := by
  have hmover : (translatePolicy name ns pvc kopia repository).mover = translateMover kopia := rfl
  unfold PolicyManifest.Admitted PolicyManifest.decode
  rw [hmover]
  cases hm : translateMover kopia with
  | none =>
    have hunset : kopia.moverResources = none ∧ kopia.moverSecurityContext = none := by
      unfold translateMover at hm
      split at hm
      case h_1 hr hc => exact ⟨hr, hc⟩
      case h_2 => cases hm
    simp [hfixed none nofun, KopiaSourceSpec.MoverReads, hunset]
  | some mover =>
    rw [KopiaSourceSpec.MoverReads, ← decodeMover_translated hm]
    constructor
    · rintro ⟨config, hconfig, herrors⟩
      obtain ⟨p, hp, rfl⟩ := Option.map_eq_some_iff.mp hconfig
      obtain ⟨hok, hres⟩ := (hfixed (some p) (by
        rintro _ ⟨⟩
        exact inherit_of_decodeMover hp)).mp herrors
      exact ⟨hok, p, hp, hres p rfl⟩
    · rintro ⟨hok, p, hp, hres⟩
      refine ⟨_, Option.map_eq_some_iff.mpr ⟨p, hp, rfl⟩, (hfixed (some p) ?_).mpr ⟨hok, ?_⟩⟩
      · rintro _ ⟨⟩
        exact inherit_of_decodeMover hp
      · rintro _ ⟨⟩
        exact hres

theorem admitted_iff_clean (decoder : ManifestDecoder Value) (checks : BackupChecks Sec)
    {name ns pvc : String} {kopia : KopiaSourceSpec Value} {repository : RepositoryRef}
    (hname : name.utf8ByteSize ≤ identityMaxLen) (hns : ns.utf8ByteSize ≤ identityMaxLen)
    (hrepository : repository.ns = none) (hpath : kopia.sourcePathOverride ≠ some "") :
    (translatePolicy name ns pvc kopia repository).Admitted decoder checks ↔
      kopia.Clean decoder checks.exceeds := by
  obtain ⟨husername, hhostname⟩ := @forkIdentity_ok name ns kopia.username kopia.hostname hname hns
  have hrepo : validateRepositoryRef repository = none := by
    cases hkind : repository.kind <;> simp [validateRepositoryRef, hkind, hrepository]
  have hsource : (kopia.sourcePath ≠ "" ∧ ∀ c ∈ kopia.sourcePath.toList, isAsciiControl c = false) ↔
      ∀ p ∈ kopia.sourcePathOverride, ∀ c ∈ p.toList, isAsciiControl c = false := by
    cases hp : kopia.sourcePathOverride with
    | none =>
      have hdefault : forkDefaultSourcePath.toList.any isAsciiControl = false := by decide
      rw [List.any_eq_false] at hdefault
      simpa [KopiaSourceSpec.sourcePath, hp, forkDefaultSourcePath] using hdefault
    | some p =>
      have hne : p ≠ "" := fun h => hpath (h ▸ hp)
      simp [KopiaSourceSpec.sourcePath, hp, hne]
  have hretain : (∀ r ∈ kopia.retain.bind translateRetain, retentionKeepsNothing r = false) ↔
      ∀ r ∈ kopia.retain, (∀ count ∈ r.counts, count.2.2 = none) ∨
        ∃ count ∈ r.counts, ∃ n ∈ count.2.2, 0 < n := by
    cases kopia.retain with
    | none => simp
    | some retain => simpa using translateRetain_keeps
  have hfixed : ∀ mover : Option PolicyMover, (∀ p ∈ mover, p.inheritSecurityContextFrom = none) →
      (backupConfigErrors checks ((translatePolicy name ns pvc kopia repository).config mover) = [] ↔
        ((∀ u ∈ kopia.username, u = "" ∨ identityCharProblem u = none) ∧
          (∀ h ∈ kopia.hostname, h = "" ∨ identityCharProblem h = none) ∧
          (∀ p ∈ kopia.sourcePathOverride, ∀ c ∈ p.toList, isAsciiControl c = false) ∧
          ∀ r ∈ kopia.retain, (∀ count ∈ r.counts, count.2.2 = none) ∨
            ∃ count ∈ r.counts, ∃ n ∈ count.2.2, 0 < n) ∧
        ∀ p ∈ mover, ∀ r ∈ p.resources, requestsExceedingLimits checks.exceeds r = none) := by
    intro mover hinherit
    rw [backupConfigErrors_plain (PolicyManifest.plain hinherit), ← husername, ← hhostname,
      ← hsource, ← hretain]
    constructor
    · rintro ⟨-, hu, hh, hp, hres, hkeep⟩
      exact ⟨⟨hu, hh, hp, hkeep⟩, hres⟩
    · rintro ⟨⟨hu, hh, hp, hkeep⟩, hres⟩
      exact ⟨hrepo, hu, hh, hp, hres, hkeep⟩
  rw [admitted_translatePolicy hfixed]
  constructor
  · rintro ⟨⟨hu, hh, hp, hr⟩, hres, hctx⟩
    exact ⟨hu, hh, hp, hr, hres, hctx⟩
  · rintro ⟨hu, hh, hp, hr, hres, hctx⟩
    exact ⟨⟨hu, hh, hp, hr⟩, hres, hctx⟩

/-- A translated policy is admitted exactly when what the user wrote for the
fork is clean; admitted, it records under the identity the fork recorded, and
under another one it never records. -/
theorem translated_source_continues (decoder : ManifestDecoder Value) (checks : BackupChecks Sec)
    (name ns : String) (spec : ReplicationSourceSpec Value) (repository : RepositoryRef)
    (kopia : KopiaSourceSpec Value) (t : Translation Value)
    (hname : name.utf8ByteSize ≤ identityMaxLen) (hns : ns.utf8ByteSize ≤ identityMaxLen)
    (hrepository : repository.ns = none) (hkopia : spec.kopia = some kopia)
    (hpath : kopia.sourcePathOverride ≠ some "")
    (ht : translateSource name ns spec repository = .ok t) :
    let identity := forkIdentity name ns kopia.username kopia.hostname
    let recorded := (identity.1, identity.2, kopia.sourcePathOverride.getD forkDefaultSourcePath)
    (t.policy.Admitted decoder checks ↔ kopia.Clean decoder checks.exceeds) ∧
      ∀ config : BackupConfig Sec, t.policy.decode decoder = some config →
        ∀ (render : RenderExpr) (defaults : Option IdentityDefaults),
          (backupConfigErrors checks config = [] →
            resolveIdentityFor render config.toIdentityPolicy defaults none = .ok recorded) ∧
          ∀ id, resolveIdentityFor render config.toIdentityPolicy defaults none = .ok id →
            id = recorded := by
  obtain ⟨kopia', pvc, hkopia', -, hpolicy⟩ := translateSource_eq_ok ht
  obtain rfl := Option.some.inj (hkopia.symm.trans hkopia')
  rw [hpolicy]
  refine ⟨admitted_iff_clean decoder checks hname hns hrepository hpath, ?_⟩
  intro config hconfig render defaults
  obtain ⟨mover, rfl, hinherit⟩ := PolicyManifest.decode_eq_some hconfig
  constructor
  · intro herrors
    rw [backupConfigErrors_plain (PolicyManifest.plain hinherit)] at herrors
    obtain ⟨-, hu, hh, hp, -, -⟩ := herrors
    exact resolveIdentityFor_config.mpr ⟨rfl, hu, hh, hp⟩
  · intro id hid
    exact (resolveIdentityFor_config.mp hid).1

end Stored

def anyMover : ManifestDecoder String := ⟨fun _ => some {}, fun _ => true⟩

def plainChecks : BackupChecks Empty := ⟨fun _ _ => false, fun _ _ => [], fun _ s => s.elim⟩

def nasRepository : RepositoryRef := { kind := .repository, name := "nas", ns := none }

def volsyncSource (kopia : KopiaSourceSpec String) : ReplicationSourceSpec String :=
  { sourcePvc := some "data", kopia := some kopia }

theorem translated_source_continues_dotted :
    resolveIdentityFor (fun _ _ => .error "no expression")
        ((translatePolicy "app.v2" "media" "data" ({} : KopiaSourceSpec String)
          nasRepository).config none : BackupConfig Empty).toIdentityPolicy
        (some { hostnameExpr := some "cluster" }) none =
      .ok ("appv2", "media", "/data") := by
  have h := translated_source_continues anyMover plainChecks "app.v2" "media" (volsyncSource {})
    nasRepository {} _ (by decide) (by decide) rfl rfl (by simp) rfl
  have hclean : ({} : KopiaSourceSpec String).Clean anyMover plainChecks.exceeds :=
    ⟨nofun, nofun, nofun, nofun, nofun, nofun⟩
  obtain ⟨config, hconfig, herrors⟩ := h.1.mpr hclean
  have hid := (h.2 config hconfig (fun _ _ => .error "no expression")
    (some { hostnameExpr := some "cluster" })).1 herrors
  cases hconfig
  have hrecorded : forkIdentity "app.v2" "media" none none = ("appv2", "media") := by
    decide
  rw [hrecorded] at hid
  exact hid

theorem translated_unclean_refused :
    ∀ kopia ∈ [({ username := some "pg@prod" } : KopiaSourceSpec String),
        { retain := some { latest := some 0 } }],
      ∃ t, translateSource "app" "media" (volsyncSource kopia) nasRepository = .ok t ∧
        t.hasUnmappable = false ∧ ¬ t.policy.Admitted anyMover plainChecks := by
  have hrefused : ∀ kopia ∈ [({ username := some "pg@prod" } : KopiaSourceSpec String),
      { retain := some { latest := some 0 } }],
      ¬ kopia.Clean anyMover plainChecks.exceeds := by
    intro kopia hk hclean
    rcases List.mem_cons.mp hk with rfl | hk
    · rcases hclean.username "pg@prod" rfl with h | h
      · exact absurd h (by decide)
      · exact absurd h (by decide)
    · obtain rfl := List.mem_singleton.mp hk
      rcases hclean.retain _ rfl with h | h
      · exact absurd h (by decide)
      · exact absurd h (by decide)
  intro kopia hk
  refine ⟨_, rfl, ?_, fun h => hrefused kopia hk ?_⟩
  · rcases List.mem_cons.mp hk with rfl | hk
    · decide
    · obtain rfl := List.mem_singleton.mp hk
      decide
  · refine (admitted_iff_clean anyMover plainChecks (by decide) (by decide) rfl ?_).mp h
    rcases List.mem_cons.mp hk with rfl | hk
    · simp
    · obtain rfl := List.mem_singleton.mp hk
      simp

/-- A delimiter in an override, or counts that keep nothing: the translation
has no complaint and admission refuses it. -/
theorem translated_source_refused :
    (∃ t, translateSource "app" "media" (volsyncSource { username := some "pg@prod" })
        nasRepository = .ok t ∧
      t.hasUnmappable = false ∧ ¬ t.policy.Admitted anyMover plainChecks) ∧
    ∃ t, translateSource "app" "media" (volsyncSource { retain := some { latest := some 0 } })
        nasRepository = .ok t ∧
      t.hasUnmappable = false ∧ ¬ t.policy.Admitted anyMover plainChecks :=
  ⟨translated_unclean_refused _ (.head _), translated_unclean_refused _ (.tail _ (.head _))⟩

end Kopiur
