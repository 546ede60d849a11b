import Kopiur.Lib.Settings
import Mathlib.Tactic.Common

/-!
# The kopia policy a backup run sets

What a `SnapshotPolicy` asks of `kopia policy set`, at the scope of the path
and at the scope of the identity, and what a history of such runs leaves.
-/

namespace Kopiur

open Kopiur.Lib (Settings)

/-! ## What the policy asks for -/

structure Compression where
  compressor : Option String
  neverCompress : List String
deriving DecidableEq

structure Files where
  ignoreRules : List String
  ignoreCacheDirs : Bool
  ignoreIdenticalSnapshots : Bool
deriving DecidableEq

structure ErrorHandling where
  ignoreFileErrors : Bool
  ignoreDirErrors : Bool
  ignoreUnknownTypes : Bool
deriving DecidableEq

structure Upload where
  maxParallelSnapshots : Option Int
  maxParallelFileReads : Option Int
deriving DecidableEq

/-- The part of a `SnapshotPolicySpec` that `fromPolicy` reads. -/
structure PolicyKnobs where
  compression : Option Compression
  files : Option Files
  errorHandling : Option ErrorHandling
  upload : Option Upload
  extraArgs : List String
deriving DecidableEq

def defaultIgnoreRules : List String :=
  ["/lost+found", "System Volume Information", "$RECYCLE.BIN", "@eaDir", ".snapshot"]

structure PolicyArgsSpec where
  compression : Option String
  ignore : List String
  neverCompress : List String
  ignoreCacheDirs : Option Bool
  ignoreIdenticalSnapshots : Option Bool
  ignoreFileErrors : Option Bool
  ignoreDirErrors : Option Bool
  ignoreUnknownTypes : Option Bool
  maxParallelSnapshots : Option Nat
  maxParallelFileReads : Option Nat
  extraArgs : List String
deriving DecidableEq

def thenSomeTrue (b : Bool) : Option Bool := if b then some true else none

/-- `n.max(0) as u32` -/
def clampU32 (n : Int) : Nat := (max n 0).toNat % 2 ^ 32

namespace PolicyArgsSpec

def isEmpty (p : PolicyArgsSpec) : Bool :=
  p.compression.isNone && p.ignore.isEmpty && p.neverCompress.isEmpty &&
    p.ignoreCacheDirs.isNone && p.ignoreIdenticalSnapshots.isNone &&
    p.ignoreFileErrors.isNone && p.ignoreDirErrors.isNone && p.ignoreUnknownTypes.isNone &&
    p.maxParallelSnapshots.isNone && p.maxParallelFileReads.isNone && p.extraArgs.isEmpty

def fromPolicy (spec : PolicyKnobs) : PolicyArgsSpec :=
  let (compression, neverCompress) :=
    match spec.compression with
    | some c => (c.compressor, c.neverCompress)
    | none => (none, [])
  let (ignore, ignoreCacheDirs, ignoreIdenticalSnapshots) :=
    match spec.files with
    | some f =>
      (f.ignoreRules, thenSomeTrue f.ignoreCacheDirs, thenSomeTrue f.ignoreIdenticalSnapshots)
    | none => (defaultIgnoreRules, none, none)
  let eh := spec.errorHandling
  let up := spec.upload
  { compression, ignore, neverCompress, ignoreCacheDirs, ignoreIdenticalSnapshots
    ignoreFileErrors := eh.bind fun e => thenSomeTrue e.ignoreFileErrors
    ignoreDirErrors := eh.bind fun e => thenSomeTrue e.ignoreDirErrors
    ignoreUnknownTypes := eh.bind fun e => thenSomeTrue e.ignoreUnknownTypes
    maxParallelSnapshots := (up.bind fun u => u.maxParallelSnapshots).map clampU32
    maxParallelFileReads := (up.bind fun u => u.maxParallelFileReads).map clampU32
    extraArgs := spec.extraArgs }

end PolicyArgsSpec

/-! ## The arguments of `kopia policy set` -/

structure PolicyArgs where
  compression : Option String := none
  splitter : Option String := none
  ignore : List String := []
  neverCompress : List String := []
  ignoreCacheDirs : Option Bool := none
  ignoreIdenticalSnapshots : Option Bool := none
  ignoreFileErrors : Option Bool := none
  ignoreDirErrors : Option Bool := none
  ignoreUnknownTypes : Option Bool := none
  maxParallelSnapshots : Option Nat := none
  maxParallelFileReads : Option Nat := none
  keepLatest : Option Int := none
  keepHourly : Option Int := none
  keepDaily : Option Int := none
  keepWeekly : Option Int := none
  keepMonthly : Option Int := none
  keepAnnual : Option Int := none
  extraArgs : List String := []
deriving DecidableEq

def PolicyArgsSpec.toKopia (p : PolicyArgsSpec) : PolicyArgs where
  compression := p.compression
  splitter := none
  ignore := p.ignore
  neverCompress := p.neverCompress
  ignoreCacheDirs := p.ignoreCacheDirs
  ignoreIdenticalSnapshots := p.ignoreIdenticalSnapshots
  ignoreFileErrors := p.ignoreFileErrors
  ignoreDirErrors := p.ignoreDirErrors
  ignoreUnknownTypes := p.ignoreUnknownTypes
  maxParallelSnapshots := p.maxParallelSnapshots
  maxParallelFileReads := p.maxParallelFileReads
  extraArgs := p.extraArgs

def splitPolicyScopes (policy : PolicyArgs) : PolicyArgs × Option PolicyArgs :=
  ({ policy with maxParallelSnapshots := none },
    policy.maxParallelSnapshots.map fun n => { maxParallelSnapshots := some n })

/-- `KOPIA_KEEP_MAX`, kopia's largest retention count. -/
def kopiaKeepMax : Int := 2147483647

def identityRetentionPolicy (userIdentityPolicy : Option PolicyArgs) : PolicyArgs where
  keepLatest := some kopiaKeepMax
  keepHourly := some kopiaKeepMax
  keepDaily := some kopiaKeepMax
  keepWeekly := some kopiaKeepMax
  keepMonthly := some kopiaKeepMax
  keepAnnual := some kopiaKeepMax
  ignoreIdenticalSnapshots := some false
  maxParallelSnapshots := userIdentityPolicy.bind (·.maxParallelSnapshots)

inductive PolicyKnob
  | compression | splitter
  | ignoreCacheDirs | ignoreIdenticalSnapshots
  | ignoreFileErrors | ignoreDirErrors | ignoreUnknownTypes
  | maxParallelSnapshots | maxParallelFileReads
  | keepLatest | keepHourly | keepDaily | keepWeekly | keepMonthly | keepAnnual
deriving DecidableEq

/-- The lists with an `--add-` flag. -/
inductive PolicyList
  | ignore | neverCompress
deriving DecidableEq

inductive PolicyFlag
  | set (knob : PolicyKnob) (value : String)
  | add (list : PolicyList) (pattern : String)
deriving DecidableEq

def pushValue (knob : PolicyKnob) (value : Option String) : List PolicyFlag :=
  match value with
  | some v => [.set knob v]
  | none => []

def pushValuedTristate (knob : PolicyKnob) (value : Option Bool) : List PolicyFlag :=
  match value with
  | some true => [.set knob "true"]
  | some false => [.set knob "false"]
  | none => []

/-- The flags in the order of the command line; `extraArgs` follow them verbatim. -/
def policySetArgs (policy : PolicyArgs) : List PolicyFlag :=
  pushValue .compression policy.compression ++
  pushValue .splitter policy.splitter ++
  policy.ignore.map (.add .ignore) ++
  policy.neverCompress.map (.add .neverCompress) ++
  pushValuedTristate .ignoreCacheDirs policy.ignoreCacheDirs ++
  pushValuedTristate .ignoreIdenticalSnapshots policy.ignoreIdenticalSnapshots ++
  pushValuedTristate .ignoreFileErrors policy.ignoreFileErrors ++
  pushValuedTristate .ignoreDirErrors policy.ignoreDirErrors ++
  pushValuedTristate .ignoreUnknownTypes policy.ignoreUnknownTypes ++
  pushValue .maxParallelSnapshots (policy.maxParallelSnapshots.map toString) ++
  pushValue .maxParallelFileReads (policy.maxParallelFileReads.map toString) ++
  pushValue .keepLatest (policy.keepLatest.map toString) ++
  pushValue .keepHourly (policy.keepHourly.map toString) ++
  pushValue .keepDaily (policy.keepDaily.map toString) ++
  pushValue .keepWeekly (policy.keepWeekly.map toString) ++
  pushValue .keepMonthly (policy.keepMonthly.map toString) ++
  pushValue .keepAnnual (policy.keepAnnual.map toString)

/-! ## kopia's side -/

/-- What kopia stores at one scope. Its pattern lists are kept without repeats. -/
abbrev KopiaPolicy := Settings PolicyKnob String PolicyList String

def PolicyFlag.mentions : PolicyFlag → KopiaPolicy
  | .set knob value => ⟨fun k => if k = knob then some value else none, fun _ => ∅⟩
  | .add list pattern => ⟨fun _ => none, fun l => if l = list then {pattern} else ∅⟩

/-- The policies of a repository by scope. -/
abbrev PolicyStore := String → KopiaPolicy

def PolicyStore.none : PolicyStore := fun _ => .blank

/-- `extra` is what kopia does with words that are passed through to it. -/
def policySet (extra : List String → KopiaPolicy → KopiaPolicy) (store : PolicyStore)
    (target : String) (policy : PolicyArgs) : PolicyStore :=
  let flagged := ((policySetArgs policy).map PolicyFlag.mentions).foldl .atop (store target)
  Function.update store target <|
    match policy.extraArgs with
    | [] => flagged
    | words => extra words flagged

structure SourceIdentity where
  username : String
  hostname : String
  sourcePath : String
deriving DecidableEq

def SourceIdentity.overrideSource (id : SourceIdentity) : String :=
  id.username ++ "@" ++ id.hostname ++ ":" ++ id.sourcePath

def SourceIdentity.identityScope (id : SourceIdentity) : String :=
  id.username ++ "@" ++ id.hostname

/-- The two `policy set` calls of a run, before it creates the snapshot. -/
def policySteps (extra : List String → KopiaPolicy → KopiaPolicy) (id : SourceIdentity)
    (store : PolicyStore) (policy : PolicyArgsSpec) : PolicyStore :=
  let (store, userIdentityPolicy) :=
    if policy.isEmpty then (store, none)
    else
      let (pathPolicy, splitIdentityPolicy) := splitPolicyScopes policy.toKopia
      (policySet extra store id.overrideSource pathPolicy, splitIdentityPolicy)
  policySet extra store id.identityScope (identityRetentionPolicy userIdentityPolicy)

def policyHistory (extra : List String → KopiaPolicy → KopiaPolicy) (id : SourceIdentity)
    (specs : List PolicyKnobs) : PolicyStore :=
  specs.foldl (fun store spec => policySteps extra id store (.fromPolicy spec)) .none

/-! ## What the calls mention -/

def PolicyArgs.value (policy : PolicyArgs) : PolicyKnob → Option String
  | .compression => policy.compression
  | .splitter => policy.splitter
  | .ignoreCacheDirs => policy.ignoreCacheDirs.map toString
  | .ignoreIdenticalSnapshots => policy.ignoreIdenticalSnapshots.map toString
  | .ignoreFileErrors => policy.ignoreFileErrors.map toString
  | .ignoreDirErrors => policy.ignoreDirErrors.map toString
  | .ignoreUnknownTypes => policy.ignoreUnknownTypes.map toString
  | .maxParallelSnapshots => policy.maxParallelSnapshots.map toString
  | .maxParallelFileReads => policy.maxParallelFileReads.map toString
  | .keepLatest => policy.keepLatest.map toString
  | .keepHourly => policy.keepHourly.map toString
  | .keepDaily => policy.keepDaily.map toString
  | .keepWeekly => policy.keepWeekly.map toString
  | .keepMonthly => policy.keepMonthly.map toString
  | .keepAnnual => policy.keepAnnual.map toString

def PolicyArgs.list (policy : PolicyArgs) : PolicyList → List String
  | .ignore => policy.ignore
  | .neverCompress => policy.neverCompress

def PolicyArgs.mentions (policy : PolicyArgs) : KopiaPolicy :=
  ⟨policy.value, fun l => (policy.list l).toFinset⟩

def mentioned (flags : List PolicyFlag) : KopiaPolicy :=
  (flags.map PolicyFlag.mentions).foldl .atop .blank

theorem mentioned_append (a b : List PolicyFlag) :
    mentioned (a ++ b) = (mentioned a).atop (mentioned b) := by
  simp only [mentioned, List.map_append, List.foldl_append]
  exact Settings.foldl_over _ _

theorem mentioned_pushValue (knob : PolicyKnob) (value : Option String) :
    mentioned (pushValue knob value) =
      ⟨fun k => if k = knob then value else none, fun _ => ∅⟩ := by
  cases value with
  | none => simp [mentioned, pushValue, Settings.blank]
  | some v => simp [mentioned, pushValue, PolicyFlag.mentions]

theorem pushValuedTristate_eq (knob : PolicyKnob) (value : Option Bool) :
    pushValuedTristate knob value = pushValue knob (value.map toString) := by
  cases value with
  | none => rfl
  | some b => cases b <;> rfl

theorem mentioned_adds (list : PolicyList) (patterns : List String) :
    mentioned (patterns.map (.add list)) =
      ⟨fun _ => none, fun l => if l = list then patterns.toFinset else ∅⟩ := by
  induction patterns with
  | nil => simp [mentioned, Settings.blank]
  | cons p ps ih =>
    rw [List.map_cons, ← List.singleton_append, mentioned_append, ih]
    ext l x
    · rfl
    · by_cases h : l = list <;> simp [mentioned, PolicyFlag.mentions, Settings.atop,
        Settings.blank, h]

theorem mentioned_policySetArgs (policy : PolicyArgs) :
    mentioned (policySetArgs policy) = policy.mentions := by
  unfold policySetArgs
  simp only [mentioned_append, pushValuedTristate_eq, mentioned_pushValue, mentioned_adds]
  ext k
  · cases k <;> simp [Settings.atop, PolicyArgs.mentions, PolicyArgs.value]
  · cases k <;> simp [Settings.atop, PolicyArgs.mentions, PolicyArgs.list]

theorem policySet_eq (extra : List String → KopiaPolicy → KopiaPolicy) (store : PolicyStore)
    (target : String) (policy : PolicyArgs) :
    policySet extra store target policy = Function.update store target
      (match policy.extraArgs with
      | [] => (store target).atop policy.mentions
      | words => extra words ((store target).atop policy.mentions)) := by
  have hflagged : ((policySetArgs policy).map PolicyFlag.mentions).foldl .atop (store target) =
      (store target).atop policy.mentions := by
    rw [Settings.foldl_over, ← mentioned, mentioned_policySetArgs]
  cases hextra : policy.extraArgs <;> simp only [policySet, hextra, hflagged]

theorem policySet_plain (extra : List String → KopiaPolicy → KopiaPolicy) (store : PolicyStore)
    (target : String) {policy : PolicyArgs} (hextra : policy.extraArgs = []) :
    policySet extra store target policy =
      Function.update store target ((store target).atop policy.mentions) := by
  simp only [policySet_eq, hextra]

theorem mentions_of_isEmpty {p : PolicyArgsSpec} (h : p.isEmpty = true) :
    (splitPolicyScopes p.toKopia).1.mentions = .blank := by
  simp only [PolicyArgsSpec.isEmpty, Bool.and_eq_true, Option.isNone_iff_eq_none,
    List.isEmpty_iff] at h
  ext k
  · cases k <;> simp [h, splitPolicyScopes, PolicyArgsSpec.toKopia, PolicyArgs.mentions,
      PolicyArgs.value, Settings.blank]
  · cases k <;> simp [h, splitPolicyScopes, PolicyArgsSpec.toKopia, PolicyArgs.mentions,
      PolicyArgs.list, Settings.blank]

theorem scopes_apart (id : SourceIdentity) : id.overrideSource ≠ id.identityScope := by
  intro h
  have hlen := congrArg String.length h
  simp only [SourceIdentity.overrideSource, SourceIdentity.identityScope, String.length_append]
    at hlen
  have : ":".length = 1 := by decide
  omega

namespace PolicyArgsSpec

def pathMentions (p : PolicyArgsSpec) : KopiaPolicy :=
  (splitPolicyScopes p.toKopia).1.mentions

def identityMentions (p : PolicyArgsSpec) : KopiaPolicy :=
  (identityRetentionPolicy (splitPolicyScopes p.toKopia).2).mentions

def mentionsAt (p : PolicyArgsSpec) (id : SourceIdentity) (target : String) : KopiaPolicy :=
  if target = id.overrideSource then p.pathMentions
  else if target = id.identityScope then p.identityMentions
  else .blank

end PolicyArgsSpec

theorem policySteps_apply (extra : List String → KopiaPolicy → KopiaPolicy) (id : SourceIdentity)
    (store : PolicyStore) {p : PolicyArgsSpec} (hextra : p.extraArgs = []) (target : String) :
    policySteps extra id store p target = (store target).atop (p.mentionsAt id target) := by
  have hpath : (splitPolicyScopes p.toKopia).1.extraArgs = [] := hextra
  have hne := scopes_apart id
  cases he : p.isEmpty with
  | true =>
    -- The skipped call would have mentioned nothing.
    have hblank : p.pathMentions = .blank := mentions_of_isEmpty he
    have hnone : (splitPolicyScopes p.toKopia).2 = none := by
      simp only [PolicyArgsSpec.isEmpty, Bool.and_eq_true, Option.isNone_iff_eq_none] at he
      simp [splitPolicyScopes, PolicyArgsSpec.toKopia, he]
    simp only [policySteps, he, if_true]
    rw [policySet_plain extra store _ rfl, PolicyArgsSpec.mentionsAt, hblank,
      PolicyArgsSpec.identityMentions, hnone]
    by_cases ht : target = id.identityScope
    · simp [ht, hne.symm]
    · simp [ht]
  | false =>
    simp only [policySteps, he, Bool.false_eq_true, if_false]
    rw [policySet_plain extra _ _ rfl, policySet_plain extra store _ hpath,
      Function.update_of_ne hne.symm, PolicyArgsSpec.mentionsAt]
    by_cases ht : target = id.identityScope
    · simp [ht, hne.symm, PolicyArgsSpec.identityMentions]
    · by_cases ht' : target = id.overrideSource
      · simp [ht', hne, PolicyArgsSpec.pathMentions]
      · simp [ht, ht']

/-! ## What a history leaves -/

theorem policyHistory_apply (extra : List String → KopiaPolicy → KopiaPolicy)
    (id : SourceIdentity) {specs : List PolicyKnobs} (hextra : ∀ p ∈ specs, p.extraArgs = [])
    (target : String) :
    policyHistory extra id specs target =
      (specs.map fun p => (PolicyArgsSpec.fromPolicy p).mentionsAt id target).foldl
        .atop .blank := by
  induction specs using List.reverseRecOn with
  | nil => rfl
  | append_singleton specs p ih =>
    have hlast : (PolicyArgsSpec.fromPolicy p).extraArgs = [] := hextra p (by simp)
    have ih := ih fun q hq => hextra q (by simp [hq])
    rw [policyHistory, List.foldl_append, List.foldl_cons, List.foldl_nil, ← policyHistory,
      policySteps_apply extra id _ hlast, ih]
    simp

namespace PolicyKnobs

def compressor (p : PolicyKnobs) : Option String := p.compression.bind (·.compressor)

def neverCompress (p : PolicyKnobs) : List String :=
  (p.compression.map (·.neverCompress)).getD []

def ignoreRules (p : PolicyKnobs) : List String :=
  (p.files.map (·.ignoreRules)).getD defaultIgnoreRules

def file (p : PolicyKnobs) (flag : Files → Bool) : Bool := p.files.any flag

def tolerates (p : PolicyKnobs) (flag : ErrorHandling → Bool) : Bool := p.errorHandling.any flag

def parallel (p : PolicyKnobs) (knob : Upload → Option Int) : Option Int := p.upload.bind knob

/-- Nothing that `p` asks for is left out of `q`. -/
structure KeptBy (p q : PolicyKnobs) : Prop where
  compressor : p.compressor.isSome → q.compressor.isSome
  neverCompress : p.neverCompress ⊆ q.neverCompress
  ignoreRules : p.ignoreRules ⊆ q.ignoreRules
  ignoreCacheDirs : p.file (·.ignoreCacheDirs) → q.file (·.ignoreCacheDirs)
  ignoreIdenticalSnapshots :
    p.file (·.ignoreIdenticalSnapshots) → q.file (·.ignoreIdenticalSnapshots)
  ignoreFileErrors : p.tolerates (·.ignoreFileErrors) → q.tolerates (·.ignoreFileErrors)
  ignoreDirErrors : p.tolerates (·.ignoreDirErrors) → q.tolerates (·.ignoreDirErrors)
  ignoreUnknownTypes : p.tolerates (·.ignoreUnknownTypes) → q.tolerates (·.ignoreUnknownTypes)
  maxParallelSnapshots :
    (p.parallel (·.maxParallelSnapshots)).isSome → (q.parallel (·.maxParallelSnapshots)).isSome
  maxParallelFileReads :
    (p.parallel (·.maxParallelFileReads)).isSome → (q.parallel (·.maxParallelFileReads)).isSome

end PolicyKnobs

@[simp]
theorem isSome_thenSomeTrue (b : Bool) : (thenSomeTrue b).isSome = b := by
  cases b <;> rfl

section fromPolicy

variable (p : PolicyKnobs)

@[simp]
theorem fromPolicy_compression :
    (PolicyArgsSpec.fromPolicy p).compression = p.compressor := by
  unfold PolicyArgsSpec.fromPolicy PolicyKnobs.compressor
  cases p.compression <;> rfl

@[simp]
theorem fromPolicy_neverCompress :
    (PolicyArgsSpec.fromPolicy p).neverCompress = p.neverCompress := by
  unfold PolicyArgsSpec.fromPolicy PolicyKnobs.neverCompress
  cases p.compression <;> rfl

@[simp]
theorem fromPolicy_ignore : (PolicyArgsSpec.fromPolicy p).ignore = p.ignoreRules := by
  unfold PolicyArgsSpec.fromPolicy PolicyKnobs.ignoreRules
  cases p.files <;> rfl

@[simp]
theorem fromPolicy_ignoreCacheDirs :
    (PolicyArgsSpec.fromPolicy p).ignoreCacheDirs.isSome = p.file (·.ignoreCacheDirs) := by
  unfold PolicyArgsSpec.fromPolicy PolicyKnobs.file
  cases p.files <;> simp

@[simp]
theorem fromPolicy_ignoreIdenticalSnapshots :
    (PolicyArgsSpec.fromPolicy p).ignoreIdenticalSnapshots.isSome =
      p.file (·.ignoreIdenticalSnapshots) := by
  unfold PolicyArgsSpec.fromPolicy PolicyKnobs.file
  cases p.files <;> simp

theorem isSome_bind_thenSomeTrue (flag : ErrorHandling → Bool) :
    (p.errorHandling.bind fun e => thenSomeTrue (flag e)).isSome = p.tolerates flag := by
  unfold PolicyKnobs.tolerates
  cases p.errorHandling <;> simp

/-- The scalars a run sets at the scope of the path. -/
def PolicyKnobs.asks (p : PolicyKnobs) : PolicyKnob → Bool
  | .compression => p.compressor.isSome
  | .ignoreCacheDirs => p.file (·.ignoreCacheDirs)
  | .ignoreIdenticalSnapshots => p.file (·.ignoreIdenticalSnapshots)
  | .ignoreFileErrors => p.tolerates (·.ignoreFileErrors)
  | .ignoreDirErrors => p.tolerates (·.ignoreDirErrors)
  | .ignoreUnknownTypes => p.tolerates (·.ignoreUnknownTypes)
  | .maxParallelFileReads => (p.parallel (·.maxParallelFileReads)).isSome
  | _ => false

theorem pathMentions_scalar (knob : PolicyKnob) :
    ((PolicyArgsSpec.fromPolicy p).pathMentions.scalar knob).isSome = p.asks knob := by
  cases knob <;>
    simp [PolicyArgsSpec.pathMentions, PolicyArgs.mentions, PolicyArgs.value, splitPolicyScopes,
      PolicyArgsSpec.toKopia, PolicyKnobs.asks]
  case ignoreFileErrors => exact isSome_bind_thenSomeTrue p _
  case ignoreDirErrors => exact isSome_bind_thenSomeTrue p _
  case ignoreUnknownTypes => exact isSome_bind_thenSomeTrue p _
  case maxParallelFileReads => exact Option.isSome_map

theorem pathMentions_patterns (list : PolicyList) :
    (PolicyArgsSpec.fromPolicy p).pathMentions.patterns list =
      match list with
      | .ignore => p.ignoreRules.toFinset
      | .neverCompress => p.neverCompress.toFinset := by
  cases list <;>
    simp [PolicyArgsSpec.pathMentions, PolicyArgs.mentions, PolicyArgs.list, splitPolicyScopes,
      PolicyArgsSpec.toKopia]

theorem identity_maxParallelSnapshots (policy : PolicyArgs) :
    (identityRetentionPolicy (splitPolicyScopes policy).2).maxParallelSnapshots =
      policy.maxParallelSnapshots := by
  cases h : policy.maxParallelSnapshots <;> simp [identityRetentionPolicy, splitPolicyScopes, h]

theorem identityMentions_scalar (knob : PolicyKnob) :
    ((PolicyArgsSpec.fromPolicy p).identityMentions.scalar knob).isSome =
      match knob with
      | .keepLatest | .keepHourly | .keepDaily | .keepWeekly | .keepMonthly | .keepAnnual
      | .ignoreIdenticalSnapshots => true
      | .maxParallelSnapshots => (p.parallel (·.maxParallelSnapshots)).isSome
      | _ => false := by
  unfold PolicyArgsSpec.identityMentions
  cases knob
  case maxParallelSnapshots =>
    simp only [PolicyArgs.mentions, PolicyArgs.value, identity_maxParallelSnapshots,
      PolicyArgsSpec.toKopia, Option.isSome_map]
    exact Option.isSome_map
  all_goals rfl

theorem identityMentions_patterns (list : PolicyList) :
    (PolicyArgsSpec.fromPolicy p).identityMentions.patterns list = ∅ := by
  cases list <;> rfl

end fromPolicy

theorem mentions_within {p q : PolicyKnobs} {id : SourceIdentity} :
    (∀ target, ((PolicyArgsSpec.fromPolicy p).mentionsAt id target).Within
      ((PolicyArgsSpec.fromPolicy q).mentionsAt id target)) ↔ p.KeptBy q := by
  constructor
  · intro h
    have hpath := h id.overrideSource
    have hid := h id.identityScope
    simp only [PolicyArgsSpec.mentionsAt, if_true, if_neg (scopes_apart id).symm] at hpath hid
    have hscalar : ∀ k, p.asks k = true → q.asks k = true := fun k hk =>
      pathMentions_scalar q k ▸ hpath.scalar k (pathMentions_scalar p k ▸ hk)
    have hlist := hpath.patterns
    simp only [pathMentions_patterns] at hlist
    have hsnap := hid.scalar .maxParallelSnapshots
    simp only [identityMentions_scalar] at hsnap
    exact {
      compressor := hscalar .compression
      neverCompress := fun x hx => by simpa using hlist .neverCompress (List.mem_toFinset.mpr hx)
      ignoreRules := fun x hx => by simpa using hlist .ignore (List.mem_toFinset.mpr hx)
      ignoreCacheDirs := hscalar .ignoreCacheDirs
      ignoreIdenticalSnapshots := hscalar .ignoreIdenticalSnapshots
      ignoreFileErrors := hscalar .ignoreFileErrors
      ignoreDirErrors := hscalar .ignoreDirErrors
      ignoreUnknownTypes := hscalar .ignoreUnknownTypes
      maxParallelSnapshots := hsnap
      maxParallelFileReads := hscalar .maxParallelFileReads }
  · intro h target
    unfold PolicyArgsSpec.mentionsAt
    split
    · constructor
      · intro k
        rw [pathMentions_scalar, pathMentions_scalar]
        cases k
        case compression => exact h.compressor
        case ignoreCacheDirs => exact h.ignoreCacheDirs
        case ignoreIdenticalSnapshots => exact h.ignoreIdenticalSnapshots
        case ignoreFileErrors => exact h.ignoreFileErrors
        case ignoreDirErrors => exact h.ignoreDirErrors
        case ignoreUnknownTypes => exact h.ignoreUnknownTypes
        case maxParallelFileReads => exact h.maxParallelFileReads
        all_goals exact fun hk => hk
      · intro l
        rw [pathMentions_patterns, pathMentions_patterns]
        cases l with
        | ignore => exact fun x hx => by simpa using h.ignoreRules (by simpa using hx)
        | neverCompress => exact fun x hx => by simpa using h.neverCompress (by simpa using hx)
    · split
      · constructor
        · intro k
          rw [identityMentions_scalar, identityMentions_scalar]
          cases k
          case maxParallelSnapshots => exact h.maxParallelSnapshots
          all_goals exact fun hk => hk
        · intro l
          rw [identityMentions_patterns]
          exact Finset.empty_subset _
      · exact Settings.blank_within _

/-- The repository ends up as the last spec alone would have left it exactly
if nothing that an earlier spec asked for was dropped since. -/
theorem policyHistory_eq_last_iff (extra : List String → KopiaPolicy → KopiaPolicy)
    (id : SourceIdentity) (earlier : List PolicyKnobs) (last : PolicyKnobs)
    (hextra : ∀ p ∈ last :: earlier, p.extraArgs = []) :
    policyHistory extra id (earlier ++ [last]) = policyHistory extra id [last] ↔
      ∀ p ∈ earlier, p.KeptBy last := by
  have hall : ∀ p ∈ earlier ++ [last], p.extraArgs = [] := fun p hp =>
    hextra p (by simpa [or_comm] using hp)
  have hone : ∀ p ∈ [last], p.extraArgs = [] := fun p hp => hextra p (by simp_all)
  calc policyHistory extra id (earlier ++ [last]) = policyHistory extra id [last]
      ↔ ∀ target p, p ∈ earlier → ((PolicyArgsSpec.fromPolicy p).mentionsAt id target).Within
          ((PolicyArgsSpec.fromPolicy last).mentionsAt id target) := by
        rw [funext_iff]
        refine forall_congr' fun target => ?_
        rw [policyHistory_apply extra id hall, policyHistory_apply extra id hone, List.map_append]
        simpa using Settings.foldl_over_eq_last
          (earlier.map fun p => (PolicyArgsSpec.fromPolicy p).mentionsAt id target)
          ((PolicyArgsSpec.fromPolicy last).mentionsAt id target)
    _ ↔ ∀ p ∈ earlier, p.KeptBy last :=
        ⟨fun h p hp => mentions_within.mp fun target => h target p hp,
          fun h target p hp => mentions_within.mpr (h p hp) target⟩

section histories

def webData : SourceIdentity := ⟨"web", "prod", "/data"⟩

/-- Temporary files are left out and unreadable ones tolerated. -/
def lenient : PolicyKnobs where
  compression := none
  files := some ⟨["*.tmp"], false, false⟩
  errorHandling := some ⟨true, false, false⟩
  upload := none
  extraArgs := []

/-- Every file counts, and no error is tolerated. -/
def strict : PolicyKnobs where
  compression := none
  files := some ⟨[], false, false⟩
  errorHandling := none
  upload := none
  extraArgs := []

theorem policyHistory_eq_last_iff_relaxed :
    policyHistory (fun _ s => s) webData ([strict] ++ [lenient]) =
      policyHistory (fun _ s => s) webData [lenient] := by
  refine (policyHistory_eq_last_iff (fun _ s => s) webData [strict] lenient (by decide)).mpr ?_
  intro p hp
  obtain rfl := List.mem_singleton.mp hp
  constructor <;> decide

theorem policyHistory_keeps_dropped :
    let edited := policyHistory (fun _ s => s) webData [lenient, strict] webData.overrideSource
    let fresh := policyHistory (fun _ s => s) webData [strict] webData.overrideSource
    (edited.scalar .ignoreFileErrors = some "true" ∧ fresh.scalar .ignoreFileErrors = none) ∧
      ("*.tmp" ∈ edited.patterns .ignore ∧ "*.tmp" ∉ fresh.patterns .ignore) ∧
      policyHistory (fun _ s => s) webData [lenient, strict] ≠
        policyHistory (fun _ s => s) webData [strict] := by
  intro edited fresh
  have herrors : edited.scalar .ignoreFileErrors = some "true" ∧
      fresh.scalar .ignoreFileErrors = none := by decide
  refine ⟨herrors, by decide, fun h => ?_⟩
  have hsame : edited = fresh := congrFun h webData.overrideSource
  rw [hsame, herrors.2] at herrors
  cases herrors.1

end histories

end Kopiur
