import Kopiur.Api.Maintenance
import Kopiur.Lib.Runs

/-!
# Who owns the maintenance of a shared repository

Two places set the owner kopia records: a bootstrap re-stamps a stale owner when
it connects, a maintenance run claims the lease. Both read the owner, decide and set
it in a call of its own, which compares nothing. Operators of several clusters do
both on one repository.
-/

namespace Kopiur

open Lib

inductive RestampPolicy
  | anyStale
  | ownFormatsOnly
deriving DecidableEq

def maintenanceRestampTarget (created seeded : Bool) (desired : Option String)
    (policy : RestampPolicy) (aliases : List String) (current : String) : Option String :=
  match desired with
  | none => none
  | some owner =>
    if created || current == owner then none
    else if seeded then some owner
    else
      match policy with
      | .anyStale => some owner
      | .ownFormatsOnly =>
        if current.isEmpty || aliases.any (· == current) then some owner else none

/-- The owner to stamp, the policy and the owners that count as its own. -/
def bootstrapMaintenanceOwnerPlan (kind : RepositoryKind) (ns name : String)
    (cluster : Option String) (suppress : Bool) : Option String × RestampPolicy × List String :=
  if suppress then (none, .anyStale, [])
  else
    let owner := kopiaOwnerForLease (managedLease kind ns name cluster)
    match cluster with
    | none => (some owner, .anyStale, [])
    | some _ => (some owner, .ownFormatsOnly, [kopiaOwnerForLease (managedLease kind ns name none)])

structure Ownership where
  owner : String
  ownerAliases : List String := []
  takeoverPolicy : TakeoverPolicy := .never
deriving DecidableEq

/-- The ownership of the `Maintenance` that is projected from a repository. -/
def buildManagedMaintenance (kind : RepositoryKind) (name placementNs : String)
    (takeover : Option TakeoverPolicy) (cluster : Option String) : Ownership where
  owner := managedLease kind placementNs name cluster
  ownerAliases := managedOwnerAliases kind placementNs name cluster
  takeoverPolicy := takeover.getD .never

/-- The owner a run sets once it has read `current`. -/
def maintenanceClaim (ownership : Ownership) (current : String) : Option String :=
  match leaseAction ownership.takeoverPolicy
      (leaseHeldByOther current ownership.owner ownership.ownerAliases) with
  | .claim | .takeover => some (kopiaOwnerForLease ownership.owner)
  | .yield | .prompt => none

/-- An operator's repository object. A Repository is bootstrapped and
maintained in its own namespace. -/
structure Operator extends ClusterObject where
  jobNs : String
  placementNs : String
  in_ns : kind = .repository → jobNs = ns ∧ placementNs = ns

namespace Operator

def plan (x : Operator) (suppress : Bool) : Option String × RestampPolicy × List String :=
  bootstrapMaintenanceOwnerPlan x.kind x.jobNs x.name (some x.cluster) suppress

/-- The managed Maintenance under `takeoverPolicy: Never`. -/
def ownership (x : Operator) : Ownership :=
  buildManagedMaintenance x.kind x.name x.placementNs (some .never) (some x.cluster)

/-- The owner a bootstrap that neither creates nor seeds sets once it has read
`current`. -/
def restamp (x : Operator) (suppress : Bool) (current : String) : Option String :=
  let (desired, policy, aliases) := x.plan suppress
  maintenanceRestampTarget false false desired policy aliases current

end Operator

/-- A set that is decided and has not come about. -/
structure PendingStamp where
  operator : Operator
  read : String
  target : String

structure OwnerWorld where
  recorded : String
  pending : List PendingStamp := []

inductive OwnerEvent
  -- the owner is read
  | connect (x : Operator) (suppress : Bool)
  | maintain (x : Operator)
  -- the owner is set
  | stamp (i : Nat)
  -- the set fails, or its process ends before
  | abandon (i : Nat)

namespace OwnerWorld

def decided (w : OwnerWorld) (operator : Operator) (target : Option String) : OwnerWorld :=
  { w with
    pending := w.pending ++
      (target.map fun target => { operator, read := w.recorded, target }).toList }

def step (w : OwnerWorld) : OwnerEvent → Option OwnerWorld
  | .connect x suppress => some (w.decided x (x.restamp suppress w.recorded))
  | .maintain x => some (w.decided x (maintenanceClaim x.ownership w.recorded))
  | .stamp i => w.pending[i]?.map fun p => { recorded := p.target, pending := w.pending.eraseIdx i }
  | .abandon i => w.pending[i]?.map fun _ => { w with pending := w.pending.eraseIdx i }

def actor (w : OwnerWorld) : OwnerEvent → Option Operator
  | .connect x _ | .maintain x => some x
  | .stamp i | .abandon i => w.pending[i]?.map PendingStamp.operator

/-- The operators are the only ones that act. -/
def ActedBy (operators : List Operator) (w : OwnerWorld) (e : OwnerEvent) : Prop :=
  ∀ x ∈ w.actor e, x ∈ operators

/-- Who sets the owner finds what it has read, or its own stamp. -/
def Current (w : OwnerWorld) : OwnerEvent → Prop
  | .stamp i => ∀ p ∈ w.pending[i]?, w.recorded = p.read ∨ w.recorded = p.operator.owner
  | .connect .. | .maintain _ | .abandon _ => True

end OwnerWorld

namespace Operator

variable (x : Operator)

theorem managedLease_ns {ns : String} (h : x.kind = .repository → ns = x.ns)
    (cluster : Option String) :
    managedLease x.kind ns x.name cluster = managedLease x.kind x.ns x.name cluster := by
  cases hkind : x.kind with
  | repository => rw [h hkind]
  | clusterRepository => cases cluster <;> rfl

theorem plan_eq : x.plan false =
    (some x.owner, .ownFormatsOnly, x.aliases.map kopiaOwnerForLease) := by
  have hns := x.managedLease_ns fun hkind => (x.in_ns hkind).1
  simp [plan, bootstrapMaintenanceOwnerPlan, hns, ClusterObject.owner, ClusterObject.lease,
    ClusterObject.aliases, managedOwnerAliases]

theorem ownership_eq : x.ownership = ⟨x.lease, x.aliases, .never⟩ := by
  have hns := x.managedLease_ns fun hkind => (x.in_ns hkind).2
  simp [ownership, buildManagedMaintenance, hns, ClusterObject.lease, ClusterObject.aliases,
    managedOwnerAliases]

theorem owner_ne_empty : x.owner.isEmpty = false := by
  rw [Bool.eq_false_iff, ne_eq, String.isEmpty_iff, ← String.toList_inj, x.owner_toList]
  simp

theorem restamp_target {suppress : Bool} {current target : String}
    (h : x.restamp suppress current = some target) : target = x.owner := by
  cases suppress with
  | true => cases h
  | false =>
    simp only [restamp, plan_eq, maintenanceRestampTarget] at h
    split at h
    · cases h
    · split at h
      · contradiction
      · split at h
        · exact (Option.some.inj h).symm
        · cases h

theorem restamp_owner (y : Operator) (suppress : Bool) : x.restamp suppress y.owner = none := by
  cases suppress with
  | true => rfl
  | false =>
    have haliases : ((x.aliases.map kopiaOwnerForLease).any (· == y.owner)) = false := by
      simp only [List.any_map, List.any_eq_false, Function.comp_apply, beq_iff_eq]
      exact fun a ha h => x.owner_ne_alias y.toClusterObject ha h.symm
    simp only [restamp, plan_eq, maintenanceRestampTarget, haliases, y.owner_ne_empty]
    split <;> rfl

theorem claim_target {current target : String}
    (h : maintenanceClaim x.ownership current = some target) : target = x.owner := by
  simp only [maintenanceClaim, ownership_eq] at h
  split at h
  · exact (Option.some.inj h).symm
  · exact (Option.some.inj h).symm
  · cases h
  · cases h

theorem claim_owner {y : Operator} {target : String}
    (h : maintenanceClaim x.ownership y.owner = some target) : x.owner = y.owner := by
  simp only [maintenanceClaim, ownership_eq] at h
  cases hheld : leaseHeldByOther y.owner x.lease x.aliases with
  | true =>
    rw [hheld] at h
    cases h
  | false =>
    by_contra hne
    rw [(x.leaseHeldByOther_owner y.toClusterObject).mpr hne] at hheld
    cases hheld

theorem plan_not_held {suppress : Bool} {owner : String} (h : (x.plan suppress).1 = some owner) :
    leaseHeldByOther owner x.ownership.owner x.ownership.ownerAliases = false := by
  cases suppress with
  | true => cases h
  | false =>
    rw [plan_eq] at h
    cases h
    have hown := x.leaseHeldByOther_owner x.toClusterObject
    simpa [ownership_eq] using hown

end Operator

namespace OwnerWorld

variable {operators : List Operator} {w w' : OwnerWorld} {e : OwnerEvent}

/-- What is known of a set until it comes about. -/
structure Due (operators : List Operator) (w : OwnerWorld) (p : PendingStamp) : Prop where
  mem : p.operator ∈ operators
  target : p.target = p.operator.owner
  free : ∀ y : Operator, p.read = y.owner → p.operator.owner = y.owner
  recorded : w.recorded = p.read ∨ ∃ z ∈ operators, w.recorded = z.owner

theorem step_cases (h : w.step e = some w') :
    (∃ x target, w.actor e = some x ∧ w' = w.decided x target ∧ w.Current e ∧
      ∀ t ∈ target, t = x.owner ∧ ∀ y : Operator, w.recorded = y.owner → x.owner = y.owner) ∨
    (∃ i p, w.pending[i]? = some p ∧ w.actor e = some p.operator ∧
      (w.Current e ↔ w.recorded = p.read ∨ w.recorded = p.operator.owner) ∧
      w' = { recorded := p.target, pending := w.pending.eraseIdx i }) ∨
    ∃ i, w.Current e ∧ w' = { w with pending := w.pending.eraseIdx i } := by
  cases e with
  | connect x suppress =>
    refine .inl ⟨x, _, rfl, (Option.some.inj h).symm, trivial, fun t ht => ?_⟩
    refine ⟨x.restamp_target ht, fun y hy => ?_⟩
    rw [hy, x.restamp_owner] at ht
    cases ht
  | maintain x =>
    refine .inl ⟨x, _, rfl, (Option.some.inj h).symm, trivial, fun t ht => ?_⟩
    exact ⟨x.claim_target ht, fun y hy => x.claim_owner (hy ▸ ht)⟩
  | stamp i =>
    obtain ⟨p, hp, rfl⟩ := Option.map_eq_some_iff.mp h
    refine .inr (.inl ⟨i, p, hp, by simp [actor, hp], ?_, rfl⟩)
    simp [Current, hp]
  | abandon i =>
    obtain ⟨p, hp, rfl⟩ := Option.map_eq_some_iff.mp h
    exact .inr (.inr ⟨i, trivial, rfl⟩)

theorem due_step (hdue : ∀ p ∈ w.pending, w.Due operators p) (hby : w.ActedBy operators e)
    (h : w.step e = some w') : ∀ p ∈ w'.pending, w'.Due operators p := by
  rcases step_cases h with ⟨x, target, hx, rfl, -, htarget⟩ | ⟨i, p, hp, hx, -, rfl⟩ |
    ⟨i, -, rfl⟩
  · intro p hp
    rcases List.mem_append.mp hp with hp | hp
    · exact ⟨(hdue p hp).mem, (hdue p hp).target, (hdue p hp).free, (hdue p hp).recorded⟩
    · obtain ⟨t, ht, rfl⟩ := Option.map_eq_some_iff.mp (Option.mem_toList.mp hp)
      exact ⟨hby x hx, (htarget t ht).1, (htarget t ht).2, .inl rfl⟩
  · have hset := hdue p (List.mem_of_getElem? hp)
    intro q hq
    have hq := hdue q (List.mem_of_mem_eraseIdx hq)
    exact ⟨hq.mem, hq.target, hq.free, .inr ⟨p.operator, hset.mem, hset.target⟩⟩
  · intro q hq
    have hq := hdue q (List.mem_of_mem_eraseIdx hq)
    exact ⟨hq.mem, hq.target, hq.free, hq.recorded⟩

theorem step_keeps (hdue : ∀ p ∈ w.pending, w.Due operators p) {y : Operator}
    (hy : w.recorded = y.owner) (hcurrent : w.Current e) (h : w.step e = some w') :
    w'.recorded = y.owner := by
  rcases step_cases h with ⟨x, target, -, rfl, -⟩ | ⟨i, p, hp, -, hiff, rfl⟩ | ⟨i, -, rfl⟩
  · exact hy
  · have hset := hdue p (List.mem_of_getElem? hp)
    rcases hiff.mp hcurrent with hread | hown
    · exact hset.target.trans (hset.free y (hread.symm.trans hy))
    · exact hset.target.trans (hown.symm.trans hy)
  · exact hy

theorem current_of_keeps (hdue : ∀ p ∈ w.pending, w.Due operators p)
    (hkeeps : ∀ y ∈ operators, w.recorded = y.owner → w'.recorded = y.owner)
    (h : w.step e = some w') : w.Current e := by
  rcases step_cases h with ⟨-, -, -, -, hcurrent, -⟩ | ⟨i, p, hp, -, hiff, rfl⟩ | ⟨-, hcurrent, -⟩
  · exact hcurrent
  · refine hiff.mpr ?_
    have hset := hdue p (List.mem_of_getElem? hp)
    rcases hset.recorded with hread | ⟨z, hz, hrecorded⟩
    · exact .inl hread
    · have hkept : p.target = z.owner := hkeeps z hz hrecorded
      exact .inr (hrecorded.trans (hkept.symm.trans hset.target))
  · exact hcurrent

end OwnerWorld

/-- Operators that have their cluster set take the maintenance from one another
exactly when one sets the owner after another has set it and before it reads again.
A step only ever records the owner of its operator, and what a bootstrap stamps its
own Maintenance takes for its own. -/
theorem ownership_ping_pong_iff (operators : List Operator) (owner : String) {w : OwnerWorld}
    (hrun : Reaches OwnerWorld.step (OwnerWorld.ActedBy operators) { recorded := owner } w) :
    (∀ y ∈ operators, w.recorded = y.owner → ∀ w',
      Reaches OwnerWorld.step (fun v e => v.ActedBy operators e ∧ v.Current e) w w' →
        w'.recorded = y.owner) ∧
    (∀ e w', w.ActedBy operators e → w.step e = some w' →
      ((∀ y ∈ operators, w.recorded = y.owner → w'.recorded = y.owner) ↔ w.Current e) ∧
        (w'.recorded = w.recorded ∨ ∃ x, w.actor e = some x ∧ w'.recorded = x.owner)) ∧
    ∀ x ∈ operators, ∀ suppress owner, (x.plan suppress).1 = some owner →
      leaseHeldByOther owner x.ownership.owner x.ownership.ownerAliases = false := by
  have hdue : ∀ p ∈ w.pending, w.Due operators p :=
    hrun.invariant (fun v => ∀ p ∈ v.pending, v.Due operators p) (fun _ hp => nomatch hp)
      fun _ _ _ hdue hby hstep => OwnerWorld.due_step hdue hby hstep
  refine ⟨fun y _ hy w' hrest => ?_, fun e w' _ hstep => ⟨⟨?_, ?_⟩, ?_⟩,
    fun x _ _ _ => x.plan_not_held⟩
  · have hkept := hrest.invariant
      (fun v => (∀ p ∈ v.pending, v.Due operators p) ∧ v.recorded = y.owner) ⟨hdue, hy⟩
      fun v e u hv hok hstep =>
        ⟨OwnerWorld.due_step hv.1 hok.1 hstep, OwnerWorld.step_keeps hv.1 hv.2 hok.2 hstep⟩
    exact hkept.2
  · exact fun hkeeps => OwnerWorld.current_of_keeps hdue hkeeps hstep
  · exact fun hcurrent y _ hy => OwnerWorld.step_keeps hdue hy hcurrent hstep
  · rcases OwnerWorld.step_cases hstep with ⟨x, _, -, rfl, -⟩ | ⟨i, p, hp, hx, -, rfl⟩ | ⟨_, -, rfl⟩
    · exact .inl rfl
    · exact .inr ⟨p.operator, hx, (hdue p (List.mem_of_getElem? hp)).target⟩
    · exact .inl rfl

/-- The repository "nas" of two clusters. -/
def nasOf (cluster : String) (valid : validateClusterName cluster = .ok () := by decide) :
    Operator where
  cluster
  kind := .repository
  ns := "media"
  name := "nas"
  cluster_valid := valid
  ns_valid _ := by decide
  ns_empty h := nomatch h
  name_valid := by decide
  jobNs := "media"
  placementNs := "media"
  in_ns _ := ⟨rfl, rfl⟩

theorem step_maintain_unowned (x : Operator) (pending : List PendingStamp) :
    OwnerWorld.step ⟨"", pending⟩ (.maintain x) =
      some ⟨"", pending ++ [⟨x, "", x.owner⟩]⟩ := by
  have hclaim : maintenanceClaim x.ownership "" = some x.owner := by
    rw [x.ownership_eq]
    rfl
  rw [OwnerWorld.step, hclaim]
  rfl

/-- Two runs of one operator take a repository that no one owns, and another operator
leaves it alone. -/
theorem ownership_ping_pong_iff_claimed :
    ∃ w v w', Reaches OwnerWorld.step (OwnerWorld.ActedBy [nasOf "east", nasOf "west"])
        { recorded := "" } w ∧
      w.step (.connect (nasOf "west") false) = some v ∧ v.step (.stamp 0) = some w' ∧
      w'.recorded = (nasOf "east").owner := by
  have hrun : Reaches OwnerWorld.step (OwnerWorld.ActedBy [nasOf "east", nasOf "west"])
      { recorded := "" }
      { recorded := (nasOf "east").owner, pending := [⟨nasOf "east", "", (nasOf "east").owner⟩] } := by
    refine .tail (.tail (.tail .refl ?_ (step_maintain_unowned (nasOf "east") [])) ?_
      (step_maintain_unowned (nasOf "east") _)) (a := .stamp 0) ?_ rfl
    all_goals exact fun x hx => Option.some.inj hx ▸ List.mem_cons_self
  refine ⟨_, _, _, hrun, rfl, rfl, ?_⟩
  refine (ownership_ping_pong_iff _ _ hrun).1 (nasOf "east") List.mem_cons_self rfl _ ?_
  refine .tail (.tail .refl (a := .connect (nasOf "west") false) ⟨fun x hx => ?_, trivial⟩ rfl)
    (a := .stamp 0) ⟨fun x hx => ?_, fun p hp => ?_⟩ rfl
  · exact Option.some.inj hx ▸ List.mem_cons_of_mem _ List.mem_cons_self
  · exact Option.some.inj hx ▸ List.mem_cons_self
  · exact Option.some.inj hp ▸ .inr rfl

/-- Runs of two clusters find no owner, and the second to set one takes the maintenance
from the first. -/
theorem ownership_taken_over :
    ∃ east west w w', Reaches OwnerWorld.step (OwnerWorld.ActedBy [east, west])
        { recorded := "" } w ∧ w.recorded = east.owner ∧
      w.ActedBy [east, west] (.stamp 0) ∧ w.step (.stamp 0) = some w' ∧
      w'.recorded = west.owner ∧ west.owner ≠ east.owner := by
  refine ⟨nasOf "east", nasOf "west", _, _, .tail (.tail (.tail .refl ?_
    (step_maintain_unowned (nasOf "east") [])) ?_ (step_maintain_unowned (nasOf "west") _))
    (a := .stamp 0) ?_ rfl, rfl, ?_, rfl, rfl, by decide⟩
  · exact fun x hx => Option.some.inj hx ▸ List.mem_cons_self
  · exact fun x hx => Option.some.inj hx ▸ List.mem_cons_of_mem _ List.mem_cons_self
  · exact fun x hx => Option.some.inj hx ▸ List.mem_cons_self
  · exact fun x hx => Option.some.inj hx ▸ List.mem_cons_of_mem _ List.mem_cons_self

end Kopiur
