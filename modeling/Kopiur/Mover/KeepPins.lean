import Kopiur.Lib.Runs
import Kopiur.Mover.PolicySteps

/-!
# kopia's own retention

kopia expires manifests after every create by the keep counts in effect for the
source. A backup run pins all six at the scope of the identity; a count at the
scope of the path comes before the pin.
-/

namespace Kopiur

open Lib

/-- What is left to kopia: the effect of words that are passed through to
`policy set`, and which manifests of a source the keep counts in effect expire,
given newest first. -/
structure KopiaRetention where
  extra : List String → KopiaPolicy → KopiaPolicy
  expired : (PolicyKnob → Option String) → List String → List String

def KopiaRetention.KeepsLatest (kopia : KopiaRetention) : Prop :=
  ∀ keeps (n : Nat) manifests, keeps .keepLatest = some (toString n) →
    ∀ m ∈ kopia.expired keeps manifests, m ∉ manifests.take n

def keepKnobs : List PolicyKnob :=
  [.keepLatest, .keepHourly, .keepDaily, .keepWeekly, .keepMonthly, .keepAnnual]

def SourceIdentity.hostScope (id : SourceIdentity) : String := "@" ++ id.hostname

def globalScope : String := "(global)"

def effectiveScalar (store : PolicyStore) (id : SourceIdentity) (knob : PolicyKnob) :
    Option String :=
  [id.overrideSource, id.identityScope, id.hostScope, globalScope].findSome? fun target =>
    (store target).scalar knob

inductive PolicyCopyMode
  | none
  | copy
  | copyOverwrite
deriving DecidableEq

inductive BackupReach
  | nothing
  | pathSet
  | identitySet
  | created (manifest : String)
deriving DecidableEq

inductive MoverRun
  | backup (id : SourceIdentity) (policy : PolicyKnobs) (reach : BackupReach)
  -- A seed or a snapshot replication, with the policies kopia writes if asked to copy any.
  | migrate (mode : PolicyCopyMode) (copied : List (String × KopiaPolicy))

/-- One create: the counts in effect, the manifests it finds and what it expires. -/
structure KopiaCreate where
  id : SourceIdentity
  keeps : PolicyKnob → Option String
  manifests : List String
  expired : List String

structure RepositoryState where
  store : PolicyStore
  manifests : SourceIdentity → List String
  creates : List KopiaCreate

namespace RepositoryState

/-- The first `policy set` of a backup run, at the scope of the path. -/
def pathStep (extra : List String → KopiaPolicy → KopiaPolicy) (id : SourceIdentity)
    (store : PolicyStore) (policy : PolicyArgsSpec) : PolicyStore :=
  if policy.isEmpty then store
  else policySet extra store id.overrideSource (splitPolicyScopes policy.toKopia).1

def migrateStep (store : PolicyStore) (mode : PolicyCopyMode)
    (copied : List (String × KopiaPolicy)) : PolicyStore :=
  match mode with
  | .none => store
  | .copy | .copyOverwrite => copied.foldl (fun store c => Function.update store c.1 c.2) store

def create (kopia : KopiaRetention) (s : RepositoryState) (id : SourceIdentity)
    (manifest : String) : RepositoryState :=
  let keeps := effectiveScalar s.store id
  let manifests := manifest :: s.manifests id
  let expired := kopia.expired keeps manifests
  { store := s.store
    manifests := Function.update s.manifests id (manifests.filter fun m => decide (m ∉ expired))
    creates := s.creates ++ [⟨id, keeps, manifests, expired⟩] }

def step (kopia : KopiaRetention) (s : RepositoryState) : MoverRun → Option RepositoryState
  | .backup id policy reach =>
    let args := PolicyArgsSpec.fromPolicy policy
    match reach with
    | .nothing => some s
    | .pathSet => some { s with store := pathStep kopia.extra id s.store args }
    | .identitySet => some { s with store := policySteps kopia.extra id s.store args }
    | .created manifest =>
      some (create kopia { s with store := policySteps kopia.extra id s.store args } id manifest)
  | .migrate mode copied => some { s with store := migrateStep s.store mode copied }

end RepositoryState

def keepMaxText : String := toString kopiaKeepMax

def KeepsInert (policy : KopiaPolicy) : Prop :=
  ∀ knob ∈ keepKnobs, ∀ v ∈ policy.scalar knob, v = keepMaxText

def PathsInert (store : PolicyStore) : Prop :=
  ∀ id : SourceIdentity, KeepsInert (store id.overrideSource)

/-- What a run may do: pass words through that set no keep count, and copy no
policy of a path that has one. -/
def KeepsOut (kopia : KopiaRetention) : MoverRun → Prop
  | .backup _ policy _ =>
    policy.extraArgs = [] ∨ ∀ s, KeepsInert s → KeepsInert (kopia.extra policy.extraArgs s)
  | .migrate mode copied =>
    mode = .none ∨ ∀ c ∈ copied, (∃ id : SourceIdentity, c.1 = id.overrideSource) → KeepsInert c.2

theorem KeepsInert.atop {s t : KopiaPolicy} (hs : KeepsInert s) (ht : KeepsInert t) :
    KeepsInert (s.atop t) := by
  intro knob hknob v hv
  simp only [Settings.atop, Option.mem_def, Option.or_eq_some_iff] at hv
  rcases hv with hv | ⟨-, hv⟩
  · exact ht knob hknob v hv
  · exact hs knob hknob v hv

theorem pathPolicy_inert (p : PolicyArgsSpec) :
    KeepsInert (splitPolicyScopes p.toKopia).1.mentions := by
  intro knob hknob v hv
  simp only [keepKnobs, List.mem_cons, List.not_mem_nil, or_false] at hknob
  rcases hknob with rfl | rfl | rfl | rfl | rfl | rfl <;> cases hv

theorem identityPolicy_pinned (user : Option PolicyArgs) {knob : PolicyKnob}
    (hknob : knob ∈ keepKnobs) :
    (identityRetentionPolicy user).mentions.scalar knob = some keepMaxText := by
  simp only [keepKnobs, List.mem_cons, List.not_mem_nil, or_false] at hknob
  rcases hknob with rfl | rfl | rfl | rfl | rfl | rfl <;> rfl

theorem PathsInert.update {store : PolicyStore} (h : PathsInert store) {target : String}
    {policy : KopiaPolicy} (hpolicy : (∃ id : SourceIdentity, target = id.overrideSource) →
      KeepsInert policy) : PathsInert (Function.update store target policy) := by
  intro id
  rcases eq_or_ne id.overrideSource target with heq | hne
  · rw [heq, Function.update_self]
    exact hpolicy ⟨id, heq.symm⟩
  · rw [Function.update_of_ne hne]
    exact h id

namespace RepositoryState

variable {kopia : KopiaRetention} {store : PolicyStore} {id : SourceIdentity}

theorem pathStep_inert {policy : PolicyKnobs} {reach : BackupReach} (h : PathsInert store)
    (hout : KeepsOut kopia (.backup id policy reach)) :
    PathsInert (pathStep kopia.extra id store (.fromPolicy policy)) := by
  unfold pathStep
  split
  · exact h
  · rw [policySet_eq]
    refine h.update fun _ => ?_
    have hwords : (splitPolicyScopes (PolicyArgsSpec.fromPolicy policy).toKopia).1.extraArgs =
        policy.extraArgs := rfl
    have hplain := (h id).atop (pathPolicy_inert (.fromPolicy policy))
    rw [hwords]
    split
    · exact hplain
    · rcases hout with hnone | hextra
      · contradiction
      · exact hextra _ hplain

theorem policySteps_eq (extra : List String → KopiaPolicy → KopiaPolicy) (id : SourceIdentity)
    (store : PolicyStore) (p : PolicyArgsSpec) :
    ∃ user, policySteps extra id store p =
      Function.update (pathStep extra id store p) id.identityScope
        ((pathStep extra id store p id.identityScope).atop (identityRetentionPolicy user).mentions) := by
  unfold policySteps pathStep
  cases p.isEmpty with
  | true => exact ⟨none, policySet_plain extra _ _ rfl⟩
  | false => exact ⟨_, policySet_plain extra _ _ rfl⟩

theorem policySteps_inert {policy : PolicyKnobs} {reach : BackupReach} (h : PathsInert store)
    (hout : KeepsOut kopia (.backup id policy reach)) :
    PathsInert (policySteps kopia.extra id store (.fromPolicy policy)) := by
  obtain ⟨user, heq⟩ := policySteps_eq kopia.extra id store (.fromPolicy policy)
  have hpath := pathStep_inert h hout
  rw [heq]
  refine hpath.update ?_
  rintro ⟨id', hid⟩
  -- The scope of one identity may read like the path of another.
  rw [hid]
  refine (hpath id').atop fun knob hknob v hv => ?_
  rw [identityPolicy_pinned user hknob, Option.mem_some_iff] at hv
  exact hv.symm

/-- After the policy steps of a run the counts in effect are the pinned ones, as
long as the path has none of its own. -/
theorem effective_pinned {p : PolicyArgsSpec} {extra : List String → KopiaPolicy → KopiaPolicy}
    (h : KeepsInert (policySteps extra id store p id.overrideSource)) {knob : PolicyKnob}
    (hknob : knob ∈ keepKnobs) :
    effectiveScalar (policySteps extra id store p) id knob = some keepMaxText := by
  obtain ⟨user, heq⟩ := policySteps_eq extra id store p
  have hidentity : (policySteps extra id store p id.identityScope).scalar knob =
      some keepMaxText := by
    rw [heq, Function.update_self]
    change ((identityRetentionPolicy user).mentions.scalar knob).or _ = _
    rw [identityPolicy_pinned user hknob]
    rfl
  unfold effectiveScalar
  cases hpath : (policySteps extra id store p id.overrideSource).scalar knob with
  | some v =>
    rw [List.findSome?_cons, hpath]
    exact congrArg some (h knob hknob v hpath)
  | none => rw [List.findSome?_cons, hpath, List.findSome?_cons, hidentity]

theorem migrateStep_inert {mode : PolicyCopyMode} {copied : List (String × KopiaPolicy)}
    (h : PathsInert store) (hout : KeepsOut kopia (.migrate mode copied)) :
    PathsInert (migrateStep store mode copied) := by
  have hfold : (∀ c ∈ copied, (∃ id : SourceIdentity, c.1 = id.overrideSource) →
      KeepsInert c.2) → PathsInert (copied.foldl (fun store c => Function.update store c.1 c.2)
        store) := by
    intro hall
    clear hout
    induction copied generalizing store with
    | nil => exact h
    | cons c rest ih =>
      exact ih (h.update (hall c List.mem_cons_self)) fun d hd => hall d (List.mem_cons_of_mem _ hd)
  rcases hout with rfl | hall
  · exact h
  · cases mode with
    | none => exact h
    | copy => exact hfold hall
    | copyOverwrite => exact hfold hall

/-- The six counts are pinned, and nothing is expired as long as there are no
more manifests than the pin. -/
def Harmless (c : KopiaCreate) : Prop :=
  (∀ knob ∈ keepKnobs, c.keeps knob = some keepMaxText) ∧
    ((c.manifests.length : Int) ≤ kopiaKeepMax → ∀ m ∈ c.manifests, m ∉ c.expired)

structure KeepInv (s : RepositoryState) : Prop where
  paths : PathsInert s.store
  creates : ∀ c ∈ s.creates, Harmless c

theorem KeepInv.step {s s' : RepositoryState} (h : KeepInv s) (hlatest : kopia.KeepsLatest)
    {run : MoverRun} (hout : KeepsOut kopia run) (hstep : RepositoryState.step kopia s run = some s') :
    KeepInv s' := by
  cases run with
  | migrate mode copied =>
    cases hstep
    exact ⟨migrateStep_inert h.paths hout, h.creates⟩
  | backup id policy reach =>
    have hsteps := policySteps_inert h.paths hout
    cases reach with
    | nothing =>
      cases hstep
      exact h
    | pathSet =>
      cases hstep
      exact ⟨pathStep_inert h.paths hout, h.creates⟩
    | identitySet =>
      cases hstep
      exact ⟨hsteps, h.creates⟩
    | created manifest =>
      cases hstep
      refine ⟨hsteps, fun c hc => ?_⟩
      rcases List.mem_append.mp hc with hc | hc
      · exact h.creates c hc
      · obtain rfl := List.mem_singleton.mp hc
        have hpinned : ∀ knob ∈ keepKnobs, effectiveScalar (policySteps kopia.extra id s.store
            (.fromPolicy policy)) id knob = some keepMaxText :=
          fun knob hknob => effective_pinned (hsteps id) hknob
        refine ⟨hpinned, fun hfew m hm hexpired => ?_⟩
        have hlen : (manifest :: s.manifests id).length ≤ 2147483647 := by
          change (((manifest :: s.manifests id).length : Nat) : Int) ≤ 2147483647 at hfew
          omega
        refine hlatest _ 2147483647 _ (hpinned .keepLatest (by decide)) m hexpired ?_
        exact (List.take_of_length_le hlen).symm ▸ hm

end RepositoryState

end Kopiur
