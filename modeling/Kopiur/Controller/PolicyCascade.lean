import Mathlib.Data.List.Nodup
import Mathlib.Data.List.Perm.Subperm
import Kopiur.Controller.Plan
import Kopiur.Lib.Lists

/-!
# Deleting a policy

A policy that is being deleted cascades onto the snapshots it produced before
its finalizer is released. Each pass plans from a fresh LIST and acts on one
batch; a pass may stop after any of its calls, and others may delete snapshots
in between.
-/

namespace Kopiur

open Lib

inductive PolicyDeletePolicy
  | retain
  | delete
deriving DecidableEq

structure PolicyCascadePlan where
  stampAndDelete : List String := []
  stampOnly : List String := []
  deleteOnly : List String := []
deriving DecidableEq

/-- Snapshots the operator did not produce, or cannot classify, are left
alone. -/
def cascadeEligible (child : Snapshot) : Bool :=
  match resolveOrigin child with
  | some .discovered | some .replicated | none => false
  | some .adopted | some .scheduled | some .manual => true

def classifyPolicyCascadeChild (child : Snapshot) (mode : PolicyDeletePolicy)
    (plan : PolicyCascadePlan) : PolicyCascadePlan :=
  let name := child.metadata.nameAny
  match child.metadata.deletionTimestamp.isSome, mode with
  | false, .retain => { plan with stampAndDelete := plan.stampAndDelete ++ [name] }
  | false, .delete => { plan with deleteOnly := plan.deleteOnly ++ [name] }
  | true, .retain =>
    if (prunedBy child.metadata.annotations).isNone then
      { plan with stampOnly := plan.stampOnly ++ [name] }
    else plan
  | true, .delete => plan

def planPolicyCascade (children : List Snapshot) (mode : PolicyDeletePolicy) : PolicyCascadePlan :=
  children.foldl
    (fun plan child =>
      if cascadeEligible child then classifyPolicyCascadeChild child mode plan else plan) {}

def policyCascadeBatch : Nat := 50

/-- The prefix of each set that one pass acts on. -/
def slicePolicyCascadeBatch (plan : PolicyCascadePlan) (cap : Nat) : PolicyCascadePlan :=
  let sdTake := min plan.stampAndDelete.length cap
  let soTake := min plan.stampOnly.length (cap - sdTake)
  let doTake := min plan.deleteOnly.length (cap - sdTake - soTake)
  { stampAndDelete := plan.stampAndDelete.take sdTake
    stampOnly := plan.stampOnly.take soTake
    deleteOnly := plan.deleteOnly.take doTake }

inductive CascadeCall
  | stamp (name : String)
  | delete (name : String)
deriving DecidableEq

def CascadeCall.name : CascadeCall → String
  | .stamp name | .delete name => name

/-- What a call does to one snapshot; a call for a name that is gone does
nothing. -/
def CascadeCall.act (now : DateTime) (call : CascadeCall) (b : Snapshot) : Option Snapshot :=
  if b.metadata.nameAny = call.name then
    match call with
    | .stamp _ => some (stampPrunedBy .policyCascade b)
    | .delete _ => deleteObject now b
  else some b

def PolicyCascadePlan.calls (batch : PolicyCascadePlan) : List CascadeCall :=
  batch.stampAndDelete.flatMap (fun n => [.stamp n, .delete n]) ++
    batch.stampOnly.map CascadeCall.stamp ++ batch.deleteOnly.map CascadeCall.delete

inductive Interference
  | delete (name : String)
  -- The snapshot's own finalizer is done.
  | settle (name : String)
deriving DecidableEq

def Interference.act (now : DateTime) : Interference → Snapshot → Option Snapshot
  | .delete name, b => if b.metadata.nameAny = name then deleteObject now b else some b
  | .settle name, b =>
    if b.metadata.nameAny = name ∧ b.metadata.deletionTimestamp.isSome then none else some b

inductive ChildOp
  | call (c : CascadeCall)
  | other (i : Interference)
deriving DecidableEq

def ChildOp.act (now : DateTime) : ChildOp → Snapshot → Option Snapshot
  | .call c => c.act now
  | .other i => i.act now

def applyOps (now : DateTime) : List ChildOp → Snapshot → Option Snapshot
  | [], b => some b
  | op :: rest, b => (op.act now b).bind (applyOps now rest)

structure CascadeState where
  children : List Snapshot
  finalizer : Bool := true
deriving DecidableEq

def PolicyCascadePlan.isEmpty (plan : PolicyCascadePlan) : Bool :=
  plan.stampAndDelete.isEmpty && plan.stampOnly.isEmpty && plan.deleteOnly.isEmpty

def CascadeState.batch (mode : PolicyDeletePolicy) (s : CascadeState) : PolicyCascadePlan :=
  slicePolicyCascadeBatch (planPolicyCascade s.children mode) policyCascadeBatch

/-- The calls a pass gets to make, each after what others do meanwhile. It
stops early when there are fewer of these than calls. -/
def passOps (batch : PolicyCascadePlan) (meanwhile : List (List Interference)) : List ChildOp :=
  (batch.calls.zip meanwhile).flatMap fun p => p.2.map .other ++ [.call p.1]

/-- One reconcile of the policy that is being deleted. -/
def handlePolicyDeletion (mode : PolicyDeletePolicy) (s : CascadeState) (now : DateTime)
    (meanwhile : List (List Interference)) : CascadeState :=
  if !s.finalizer then s
  else if (planPolicyCascade s.children mode).isEmpty then { s with finalizer := false }
  else
    { s with children := s.children.filterMap (applyOps now (passOps (s.batch mode) meanwhile)) }

inductive CascadeAction
  | pass (now : DateTime) (meanwhile : List (List Interference))
  | interfere (now : DateTime) (i : Interference)

def CascadeState.act (mode : PolicyDeletePolicy) (s : CascadeState) : CascadeAction → CascadeState
  | .pass now meanwhile => handlePolicyDeletion mode s now meanwhile
  | .interfere now i => { s with children := s.children.filterMap (i.act now) }

def CascadeState.acts (mode : PolicyDeletePolicy) (s : CascadeState) (actions : List CascadeAction) :
    CascadeState :=
  actions.foldl (CascadeState.act mode) s

def CascadeState.completes (mode : PolicyDeletePolicy) (s : CascadeState) : CascadeAction → Bool
  | .pass _ meanwhile => decide ((s.batch mode).calls.length ≤ meanwhile.length)
  | .interfere _ _ => false

def CascadeState.completed (mode : PolicyDeletePolicy) : CascadeState → List CascadeAction → Nat
  | _, [] => 0
  | s, a :: rest => (if s.completes mode a then 1 else 0) + (s.act mode a).completed mode rest

-- One snapshot

/-- What may become of a snapshot: its name and origin stay, a deletion is not
taken back, and the stamp only becomes the cascade's own. -/
structure Later (b b' : Snapshot) : Prop where
  name : b'.metadata.nameAny = b.metadata.nameAny
  origin : resolveOrigin b' = resolveOrigin b
  terminating : b.metadata.deletionTimestamp.isSome → b'.metadata.deletionTimestamp.isSome
  stamp : b'.metadata.annotations = b.metadata.annotations ∨
    prunedBy b'.metadata.annotations = some .policyCascade

theorem Later.refl (b : Snapshot) : Later b b := ⟨rfl, rfl, id, .inl rfl⟩

variable {b : Snapshot}

theorem Later.trans {a c : Snapshot} (h : Later a b) (h' : Later b c) : Later a c where
  name := h'.name.trans h.name
  origin := h'.origin.trans h.origin
  terminating := h'.terminating ∘ h.terminating
  stamp := by
    rcases h'.stamp with heq | hs
    · rcases h.stamp with heq' | hs
      · exact .inl (heq.trans heq')
      · exact .inr (heq ▸ hs)
    · exact .inr hs

variable {b' : Snapshot}

theorem Later.stamped (h : Later b b')
    (hs : prunedBy b.metadata.annotations = some .policyCascade) :
    prunedBy b'.metadata.annotations = some .policyCascade := by
  rcases h.stamp with heq | hs'
  · rw [heq, hs]
  · exact hs'

theorem Later.prunedBy_isSome (h : Later b b') (hs : (prunedBy b.metadata.annotations).isSome) :
    (prunedBy b'.metadata.annotations).isSome := by
  rcases h.stamp with heq | hs'
  · rwa [heq]
  · simp [hs']

theorem prunedBy_stampPrunedBy (p : PrunedBy) (b : Snapshot) :
    prunedBy (stampPrunedBy p b).metadata.annotations = some p := by
  cases p <;> simp [prunedBy, stampPrunedBy, PrunedBy.annotationValue, PrunedBy.parse]

theorem stampPrunedBy_later (b : Snapshot) : Later b (stampPrunedBy .policyCascade b) :=
  ⟨rfl, rfl, id, .inr (prunedBy_stampPrunedBy _ b)⟩

variable {now : DateTime}

theorem deleteObject_later (h : deleteObject now b = some b') :
    Later b b' ∧ b'.metadata.deletionTimestamp.isSome := by
  unfold deleteObject at h
  split at h
  case isTrue hterm =>
    cases h
    exact ⟨.refl b, hterm⟩
  case isFalse =>
    split at h
    case isTrue => cases h
    case isFalse =>
      cases h
      exact ⟨⟨rfl, rfl, fun _ => rfl, .inl rfl⟩, rfl⟩

theorem ChildOp.act_later {op : ChildOp} (h : op.act now b = some b') : Later b b' := by
  cases op with
  | call c =>
    simp only [ChildOp.act, CascadeCall.act] at h
    split at h
    case isTrue =>
      cases c with
      | stamp => exact Option.some.inj h ▸ stampPrunedBy_later b
      | delete => exact (deleteObject_later h).1
    case isFalse => exact Option.some.inj h ▸ .refl b
  | other i =>
    cases i with
    | delete n =>
      simp only [ChildOp.act, Interference.act] at h
      split at h
      case isTrue => exact (deleteObject_later h).1
      case isFalse => exact Option.some.inj h ▸ .refl b
    | settle n =>
      simp only [ChildOp.act, Interference.act] at h
      split at h
      case isTrue => cases h
      case isFalse => exact Option.some.inj h ▸ .refl b

theorem applyOps_later {ops : List ChildOp} (h : applyOps now ops b = some b') : Later b b' := by
  induction ops generalizing b with
  | nil => exact Option.some.inj h ▸ .refl b
  | cons op rest ih =>
    obtain ⟨mid, hop, hrest⟩ := Option.bind_eq_some_iff.mp h
    exact (ChildOp.act_later hop).trans (ih hrest)

theorem applyOps_of_mem {ops : List ChildOp} {op : ChildOp} (hop : op ∈ ops)
    (h : applyOps now ops b = some b') :
    ∃ x y, Later b x ∧ op.act now x = some y ∧ Later y b' := by
  induction ops generalizing b with
  | nil => cases hop
  | cons first rest ih =>
    obtain ⟨mid, hfirst, hrest⟩ := Option.bind_eq_some_iff.mp h
    rcases List.mem_cons.mp hop with rfl | hop
    · exact ⟨b, mid, .refl b, hfirst, applyOps_later hrest⟩
    · obtain ⟨x, y, hx, hact, hy⟩ := ih hop hrest
      exact ⟨x, y, (ChildOp.act_later hfirst).trans hx, hact, hy⟩

theorem applyOps_stamped {ops : List ChildOp} (hop : .call (.stamp b.metadata.nameAny) ∈ ops)
    (h : applyOps now ops b = some b') :
    prunedBy b'.metadata.annotations = some .policyCascade := by
  obtain ⟨x, y, hx, hact, hy⟩ := applyOps_of_mem hop h
  rw [ChildOp.act, CascadeCall.act, CascadeCall.name, if_pos hx.name, Option.some.injEq] at hact
  exact hy.stamped (hact ▸ prunedBy_stampPrunedBy _ x)

theorem applyOps_deleted {ops : List ChildOp} (hop : .call (.delete b.metadata.nameAny) ∈ ops)
    (h : applyOps now ops b = some b') :
    b'.metadata.deletionTimestamp.isSome := by
  obtain ⟨x, y, hx, hact, hy⟩ := applyOps_of_mem hop h
  rw [ChildOp.act, CascadeCall.act, CascadeCall.name, if_pos hx.name] at hact
  exact hy.terminating (deleteObject_later hact).2

theorem deleteObject_annotations (h : deleteObject now b = some b') :
    b'.metadata.annotations = b.metadata.annotations := by
  unfold deleteObject at h
  split at h
  case isTrue => rw [Option.some.inj h]
  case isFalse =>
    split at h
    case isTrue => cases h
    case isFalse => rw [← Option.some.inj h]

theorem ChildOp.act_annotations {op : ChildOp} (hop : ∀ n, op ≠ .call (.stamp n))
    (h : op.act now b = some b') :
    b'.metadata.annotations = b.metadata.annotations := by
  cases op with
  | call c =>
    cases c with
    | stamp n => exact absurd rfl (hop n)
    | delete n =>
      simp only [ChildOp.act, CascadeCall.act] at h
      split at h
      case isTrue => exact deleteObject_annotations h
      case isFalse => rw [Option.some.inj h]
  | other i =>
    cases i with
    | delete n =>
      simp only [ChildOp.act, Interference.act] at h
      split at h
      case isTrue => exact deleteObject_annotations h
      case isFalse => rw [Option.some.inj h]
    | settle n =>
      simp only [ChildOp.act, Interference.act] at h
      split at h
      case isTrue => cases h
      case isFalse => rw [Option.some.inj h]

theorem applyOps_annotations {ops : List ChildOp} (hops : ∀ n, .call (.stamp n) ∉ ops)
    (h : applyOps now ops b = some b') :
    b'.metadata.annotations = b.metadata.annotations := by
  induction ops generalizing b with
  | nil => rw [Option.some.inj h]
  | cons op rest ih =>
    obtain ⟨mid, hop, hrest⟩ := Option.bind_eq_some_iff.mp h
    have hmid : mid.metadata.annotations = b.metadata.annotations :=
      ChildOp.act_annotations (fun n heq => hops n (heq ▸ List.mem_cons_self)) hop
    rw [ih (fun n hn => hops n (List.mem_cons_of_mem _ hn)) hrest, hmid]

def stampsAndDeletes (mode : PolicyDeletePolicy) (b : Snapshot) : Bool :=
  decide (mode = .retain) && cascadeEligible b && !b.metadata.deletionTimestamp.isSome

def stampsOnly (mode : PolicyDeletePolicy) (b : Snapshot) : Bool :=
  decide (mode = .retain) && cascadeEligible b && b.metadata.deletionTimestamp.isSome &&
    (prunedBy b.metadata.annotations).isNone

def deletesOnly (mode : PolicyDeletePolicy) (b : Snapshot) : Bool :=
  decide (mode = .delete) && cascadeEligible b && !b.metadata.deletionTimestamp.isSome

def needsWork (mode : PolicyDeletePolicy) (b : Snapshot) : Bool :=
  stampsAndDeletes mode b || stampsOnly mode b || deletesOnly mode b

def namesOf (p : Snapshot → Bool) (children : List Snapshot) : List String :=
  (children.filter p).map fun b => b.metadata.nameAny

theorem mem_namesOf {p : Snapshot → Bool} {children : List Snapshot} {n : String} :
    n ∈ namesOf p children ↔ ∃ b ∈ children, p b = true ∧ b.metadata.nameAny = n := by
  simp [namesOf, and_assoc]

theorem planPolicyCascade_eq (children : List Snapshot) (mode : PolicyDeletePolicy) :
    planPolicyCascade children mode =
      { stampAndDelete := namesOf (stampsAndDeletes mode) children
        stampOnly := namesOf (stampsOnly mode) children
        deleteOnly := namesOf (deletesOnly mode) children } := by
  -- Each child is appended to the one list it belongs to.
  have hfold : ∀ plan : PolicyCascadePlan,
      children.foldl (fun plan child =>
        if cascadeEligible child then classifyPolicyCascadeChild child mode plan else plan) plan =
      { stampAndDelete := plan.stampAndDelete ++ namesOf (stampsAndDeletes mode) children
        stampOnly := plan.stampOnly ++ namesOf (stampsOnly mode) children
        deleteOnly := plan.deleteOnly ++ namesOf (deletesOnly mode) children } := by
    induction children with
    | nil => simp [namesOf]
    | cons b rest ih =>
      intro plan
      rw [List.foldl_cons, ih]
      cases heligible : cascadeEligible b with
      | false =>
        simp [namesOf, stampsAndDeletes, stampsOnly, deletesOnly, heligible]
      | true =>
        cases hterm : b.metadata.deletionTimestamp.isSome <;> cases mode <;>
          cases hstamp : (prunedBy b.metadata.annotations).isNone <;>
          simp [namesOf, stampsAndDeletes, stampsOnly, deletesOnly, classifyPolicyCascadeChild,
            heligible, hterm, hstamp]
  simpa [planPolicyCascade] using hfold {}

def PolicyCascadePlan.names (plan : PolicyCascadePlan) : List String :=
  plan.stampAndDelete ++ plan.stampOnly ++ plan.deleteOnly

theorem slice_eq (plan : PolicyCascadePlan) (cap : Nat) :
    slicePolicyCascadeBatch plan cap =
      { stampAndDelete := plan.stampAndDelete.take cap
        stampOnly := plan.stampOnly.take (cap - plan.stampAndDelete.length)
        deleteOnly := plan.deleteOnly.take
          (cap - plan.stampAndDelete.length - plan.stampOnly.length) } := by
  have htake : ∀ (l : List String) (n : Nat), l.take (min l.length n) = l.take n := by
    intro l n
    rw [Nat.min_comm, ← List.take_eq_take_min]
  have hsub : ∀ a n : Nat, n - min a n = n - a := by omega
  simp only [slicePolicyCascadeBatch, htake, hsub]

theorem slice_names (plan : PolicyCascadePlan) (cap : Nat) :
    (slicePolicyCascadeBatch plan cap).names = plan.names.take cap := by
  rw [slice_eq]
  simp only [PolicyCascadePlan.names, List.take_append, List.length_append]
  rw [Nat.sub_add_eq]

theorem batch_names (mode : PolicyDeletePolicy) (s : CascadeState) :
    (s.batch mode).names = (planPolicyCascade s.children mode).names.take policyCascadeBatch :=
  slice_names _ _

theorem plan_names_perm (children : List Snapshot) (mode : PolicyDeletePolicy) :
    (planPolicyCascade children mode).names.Perm (namesOf (needsWork mode) children) := by
  have hfirst := filter_or_perm (l := children) (p := stampsAndDeletes mode) (q := stampsOnly mode)
    fun b _ h => by
      simp only [stampsAndDeletes, Bool.and_eq_true, Bool.not_eq_true'] at h
      simp [stampsOnly, h.2]
  have hall := filter_or_perm (l := children)
    (p := fun b => stampsAndDeletes mode b || stampsOnly mode b) (q := deletesOnly mode)
    fun b _ h => by cases mode <;> simp_all [stampsAndDeletes, stampsOnly, deletesOnly]
  have hnames := ((hfirst.append_right _).trans hall).map fun b => b.metadata.nameAny
  rw [List.map_append, List.map_append] at hnames
  rw [planPolicyCascade_eq]
  exact hnames

def cascadeWork (mode : PolicyDeletePolicy) (children : List Snapshot) : Nat :=
  (children.filter (needsWork mode)).length

theorem plan_isEmpty_iff {children : List Snapshot} {mode : PolicyDeletePolicy} :
    (planPolicyCascade children mode).isEmpty = true ↔ cascadeWork mode children = 0 := by
  have hlen := (plan_names_perm children mode).length_eq
  rw [namesOf, List.length_map] at hlen
  rw [cascadeWork, ← hlen]
  simp [PolicyCascadePlan.isEmpty, PolicyCascadePlan.names, and_assoc]

theorem needsWork_iff {mode : PolicyDeletePolicy} :
    needsWork mode b = true ↔ cascadeEligible b = true ∧
      (b.metadata.deletionTimestamp.isSome = true →
        mode = .retain ∧ (prunedBy b.metadata.annotations).isSome = false) := by
  cases mode <;> cases ht : b.metadata.deletionTimestamp <;>
    cases hs : prunedBy b.metadata.annotations <;>
    simp [needsWork, stampsAndDeletes, stampsOnly, deletesOnly, ht, hs]

theorem Later.needsWork (h : Later b b') {mode : PolicyDeletePolicy}
    (hwork : needsWork mode b' = true) : Kopiur.needsWork mode b = true := by
  rw [needsWork_iff] at hwork ⊢
  obtain ⟨heligible, hstate⟩ := hwork
  refine ⟨by simpa [cascadeEligible, h.origin] using heligible, fun hterm => ?_⟩
  obtain ⟨hmode, hstamp⟩ := hstate (h.terminating hterm)
  refine ⟨hmode, ?_⟩
  cases hs : (prunedBy b.metadata.annotations).isSome with
  | false => rfl
  | true => simp [h.prunedBy_isSome hs] at hstamp

-- What a pass does

variable {meanwhile : List (List Interference)}

theorem mem_passOps_of_call {batch : PolicyCascadePlan} {c : CascadeCall}
    (h : .call c ∈ passOps batch meanwhile) : c ∈ batch.calls := by
  simp only [passOps, List.mem_flatMap, List.mem_append, List.mem_map, reduceCtorEq, and_false,
    exists_false, List.mem_singleton, false_or] at h
  obtain ⟨p, hp, heq⟩ := h
  cases heq
  exact (List.of_mem_zip hp).1

theorem call_mem_passOps {batch : PolicyCascadePlan} (hlen : batch.calls.length ≤ meanwhile.length)
    {c : CascadeCall} (hc : c ∈ batch.calls) :
    .call c ∈ passOps batch meanwhile := by
  rw [← List.map_fst_zip hlen] at hc
  obtain ⟨p, hp, rfl⟩ := List.mem_map.mp hc
  exact List.mem_flatMap.mpr ⟨p, hp, by simp⟩

theorem calls_of_name {batch : PolicyCascadePlan} {c : CascadeCall} (h : c ∈ batch.calls) :
    c.name ∈ batch.names := by
  simp only [PolicyCascadePlan.calls, List.mem_append, List.mem_flatMap, List.mem_map] at h
  rcases h with (⟨n, hn, hc⟩ | ⟨n, hn, rfl⟩) | ⟨n, hn, rfl⟩
  · simp only [List.mem_cons, List.not_mem_nil, or_false] at hc
    rcases hc with rfl | rfl <;> simp [PolicyCascadePlan.names, CascadeCall.name, hn]
  · simp [PolicyCascadePlan.names, CascadeCall.name, hn]
  · simp [PolicyCascadePlan.names, CascadeCall.name, hn]

section Pass

variable {mode : PolicyDeletePolicy} {s : CascadeState}

theorem mem_batch_stampAndDelete {n : String} (h : n ∈ (s.batch mode).stampAndDelete) :
    ∃ b ∈ s.children, stampsAndDeletes mode b = true ∧ b.metadata.nameAny = n := by
  rw [CascadeState.batch, slice_eq, planPolicyCascade_eq] at h
  exact mem_namesOf.mp (List.mem_of_mem_take h)

theorem mem_batch_stampOnly {n : String} (h : n ∈ (s.batch mode).stampOnly) :
    ∃ b ∈ s.children, stampsOnly mode b = true ∧ b.metadata.nameAny = n := by
  rw [CascadeState.batch, slice_eq, planPolicyCascade_eq] at h
  exact mem_namesOf.mp (List.mem_of_mem_take h)

theorem mem_batch_deleteOnly {n : String} (h : n ∈ (s.batch mode).deleteOnly) :
    ∃ b ∈ s.children, deletesOnly mode b = true ∧ b.metadata.nameAny = n := by
  rw [CascadeState.batch, slice_eq, planPolicyCascade_eq] at h
  exact mem_namesOf.mp (List.mem_of_mem_take h)

theorem eq_of_nameAny (distinct : (s.children.map fun b => b.metadata.nameAny).Nodup)
    {b b' : Snapshot} (hb : b ∈ s.children) (hb' : b' ∈ s.children)
    (hname : b.metadata.nameAny = b'.metadata.nameAny) : b = b' :=
  List.inj_on_of_nodup_map distinct hb hb' hname

theorem needsWork_of_pass (distinct : (s.children.map fun b => b.metadata.nameAny).Nodup)
    {meanwhile : List (List Interference)}
    (hlen : (s.batch mode).calls.length ≤ meanwhile.length) {now : DateTime} {b b' : Snapshot}
    (hb : b ∈ s.children) (hname : b.metadata.nameAny ∈ (s.batch mode).names)
    (h : applyOps now (passOps (s.batch mode) meanwhile) b = some b') :
    needsWork mode b' = false := by
  have hcall : ∀ c ∈ (s.batch mode).calls, .call c ∈ passOps (s.batch mode) meanwhile :=
    fun c hc => call_mem_passOps hlen hc
  simp only [PolicyCascadePlan.names, List.mem_append] at hname
  rw [Bool.eq_false_iff, ne_eq, needsWork_iff]
  rintro ⟨-, hstate⟩
  rcases hname with (hn | hn) | hn
  · have hstamp := applyOps_stamped (hcall (.stamp _) (by
      simp only [PolicyCascadePlan.calls, List.mem_append, List.mem_flatMap]
      exact .inl (.inl ⟨_, hn, by simp⟩))) h
    have hterm := applyOps_deleted (hcall (.delete _) (by
      simp only [PolicyCascadePlan.calls, List.mem_append, List.mem_flatMap]
      exact .inl (.inl ⟨_, hn, by simp⟩))) h
    simpa [hstamp] using (hstate hterm).2
  · have hstamp := applyOps_stamped (hcall (.stamp _) (by
      simp only [PolicyCascadePlan.calls, List.mem_append, List.mem_map]
      exact .inl (.inr ⟨_, hn, rfl⟩))) h
    obtain ⟨b₀, hb₀, hp, hsame⟩ := mem_batch_stampOnly hn
    obtain rfl := eq_of_nameAny distinct hb₀ hb hsame
    simp only [stampsOnly, Bool.and_eq_true] at hp
    have hterm := (applyOps_later h).terminating hp.1.2
    simpa [hstamp] using (hstate hterm).2
  · have hterm := applyOps_deleted (hcall (.delete _) (by
      simp only [PolicyCascadePlan.calls, List.mem_append, List.mem_map]
      exact .inr ⟨_, hn, rfl⟩)) h
    obtain ⟨b₀, -, hp, -⟩ := mem_batch_deleteOnly hn
    simp only [deletesOnly, Bool.and_eq_true, decide_eq_true_eq] at hp
    have hmode := (hstate hterm).1
    rw [hp.1.1] at hmode
    cases hmode

theorem namesOf_filterMap_nodup {f : Snapshot → Option Snapshot}
    (hf : ∀ b b', f b = some b' → Later b b')
    (distinct : (s.children.map fun b => b.metadata.nameAny).Nodup) (p : Snapshot → Bool) :
    (namesOf p (s.children.filterMap f)).Nodup :=
  ((map_filterMap_sublist s.children fun b _ b' h => (hf b b' h).name).nodup distinct).sublist
    (List.filter_sublist.map _)

/-- Operations that are done with the names of `done` leave the rest of the
work. -/
theorem cascadeWork_filterMap_le {f : Snapshot → Option Snapshot}
    (hf : ∀ b b', f b = some b' → Later b b')
    (distinct : (s.children.map fun b => b.metadata.nameAny).Nodup) {k : Nat}
    (hdone : ∀ b ∈ s.children, ∀ b', f b = some b' →
      b.metadata.nameAny ∈ (planPolicyCascade s.children mode).names.take k →
        needsWork mode b' = false) :
    cascadeWork mode (s.children.filterMap f) ≤ cascadeWork mode s.children - k := by
  have hperm := plan_names_perm s.children mode
  have hsub : namesOf (needsWork mode) (s.children.filterMap f) ⊆
      (planPolicyCascade s.children mode).names.drop k := by
    intro n hn
    obtain ⟨b', hb', hwork, rfl⟩ := mem_namesOf.mp hn
    obtain ⟨b, hb, heq⟩ := List.mem_filterMap.mp hb'
    have hlater := hf b b' heq
    have hmem : b.metadata.nameAny ∈ (planPolicyCascade s.children mode).names :=
      hperm.mem_iff.mpr (mem_namesOf.mpr ⟨b, hb, hlater.needsWork hwork, rfl⟩)
    rw [← List.take_append_drop k (planPolicyCascade s.children mode).names] at hmem
    rw [hlater.name]
    rcases List.mem_append.mp hmem with hmem | hmem
    · simp [hdone b hb b' heq hmem] at hwork
    · exact hmem
  have hnodup := namesOf_filterMap_nodup hf distinct (needsWork mode)
  have hle := (List.Nodup.subperm hnodup hsub).length_le
  rw [List.length_drop, hperm.length_eq, namesOf, namesOf, List.length_map, List.length_map] at hle
  exact hle

theorem deletes_of_delete {c : CascadeCall} (hc : c ∈ (s.batch .delete).calls) :
    ∃ n, c = .delete n := by
  simp only [PolicyCascadePlan.calls, List.mem_append, List.mem_flatMap, List.mem_map] at hc
  rcases hc with (⟨n, hn, -⟩ | ⟨n, hn, -⟩) | ⟨n, -, rfl⟩
  · obtain ⟨b, -, hp, -⟩ := mem_batch_stampAndDelete hn
    simp [stampsAndDeletes] at hp
  · obtain ⟨b, -, hp, -⟩ := mem_batch_stampOnly hn
    simp [stampsOnly] at hp
  · exact ⟨n, rfl⟩

variable (mode s) in
theorem act_children (a : CascadeAction) :
    ∃ f : Snapshot → Option Snapshot,
      (s.act mode a).children = s.children.filterMap f ∧
      (∀ b b', f b = some b' → Later b b') ∧
      (mode = .delete → ∀ b b', f b = some b' →
        b'.metadata.annotations = b.metadata.annotations) := by
  have hsame : ∃ f : Snapshot → Option Snapshot, s.children = s.children.filterMap f ∧
      (∀ b b', f b = some b' → Later b b') ∧
      (mode = .delete → ∀ b b', f b = some b' →
        b'.metadata.annotations = b.metadata.annotations) :=
    ⟨some, List.filterMap_some.symm, fun b b' h => Option.some.inj h ▸ .refl b,
      fun _ b b' h => by rw [Option.some.inj h]⟩
  cases a with
  | pass now meanwhile =>
    simp only [CascadeState.act, handlePolicyDeletion]
    split
    case isTrue => exact hsame
    case isFalse =>
      split
      case isTrue => exact hsame
      case isFalse =>
        refine ⟨applyOps now (passOps (s.batch mode) meanwhile), rfl,
          fun b b' h => applyOps_later h, ?_⟩
        rintro rfl b b' h
        refine applyOps_annotations (fun n hn => ?_) h
        obtain ⟨n', hn'⟩ := deletes_of_delete (mem_passOps_of_call hn)
        cases hn'
  | interfere now i =>
    have hother : ∀ b, i.act now b = (ChildOp.other i).act now b := fun _ => rfl
    exact ⟨i.act now, rfl, fun b b' h => ChildOp.act_later (hother b ▸ h),
      fun _ b b' h => ChildOp.act_annotations (by simp) (hother b ▸ h)⟩

theorem act_distinct (distinct : (s.children.map fun b => b.metadata.nameAny).Nodup)
    (a : CascadeAction) : ((s.act mode a).children.map fun b => b.metadata.nameAny).Nodup := by
  obtain ⟨f, heq, hlater, -⟩ := act_children mode s a
  rw [heq]
  exact (map_filterMap_sublist s.children fun b _ b' h => (hlater b b' h).name).nodup distinct

theorem act_work (distinct : (s.children.map fun b => b.metadata.nameAny).Nodup)
    (a : CascadeAction) :
    cascadeWork mode (s.act mode a).children ≤ cascadeWork mode s.children -
      if s.completes mode a && s.finalizer then policyCascadeBatch else 0 := by
  cases hcomplete : s.completes mode a && s.finalizer with
  | false =>
    obtain ⟨f, heq, hlater, -⟩ := act_children mode s a
    rw [heq]
    exact cascadeWork_filterMap_le hlater distinct (k := 0) (by simp)
  | true =>
    cases a with
    | interfere => simp [CascadeState.completes] at hcomplete
    | pass now meanwhile =>
      simp only [CascadeState.completes, Bool.and_eq_true, decide_eq_true_eq] at hcomplete
      obtain ⟨hlen, hfinalizer⟩ := hcomplete
      simp only [CascadeState.act, handlePolicyDeletion, hfinalizer]
      split
      case isTrue h => cases h
      case isFalse =>
        split
        case isTrue hempty =>
          rw [plan_isEmpty_iff] at hempty
          simp [hempty]
        case isFalse =>
          refine cascadeWork_filterMap_le (fun b b' h => applyOps_later h) distinct ?_
          intro b hb b' h hname
          rw [if_pos trivial, ← batch_names] at hname
          exact needsWork_of_pass distinct hlen hb hname h

theorem act_released (a : CascadeAction) (hreleased : (s.act mode a).finalizer = false) :
    s.finalizer = false ∨ cascadeWork mode s.children = 0 := by
  cases a with
  | interfere => exact .inl hreleased
  | pass now meanwhile =>
    simp only [CascadeState.act, handlePolicyDeletion] at hreleased
    split at hreleased
    case isTrue h => exact .inl hreleased
    case isFalse =>
      split at hreleased
      case isTrue hempty => exact .inr (plan_isEmpty_iff.mp hempty)
      case isFalse => exact .inl hreleased

end Pass

/-- The names are distinct, and a released finalizer means that nothing is
left to do. -/
structure CascadeInv (mode : PolicyDeletePolicy) (s : CascadeState) : Prop where
  distinct : (s.children.map fun b => b.metadata.nameAny).Nodup
  released : s.finalizer = false → cascadeWork mode s.children = 0

section Runs

variable {mode : PolicyDeletePolicy} {s : CascadeState}

theorem CascadeInv.act (hinv : CascadeInv mode s) (a : CascadeAction) :
    CascadeInv mode (s.act mode a) where
  distinct := act_distinct hinv.distinct a
  released hreleased := by
    have hzero : cascadeWork mode s.children = 0 := by
      rcases act_released a hreleased with h | h
      · exact hinv.released h
      · exact h
    have hle : cascadeWork mode (s.act mode a).children ≤ _ := act_work hinv.distinct a
    rw [hzero, Nat.zero_sub] at hle
    exact Nat.le_zero.mp hle

theorem CascadeInv.acts (hinv : CascadeInv mode s) (actions : List CascadeAction) :
    CascadeInv mode (s.acts mode actions) := by
  induction actions generalizing s with
  | nil => exact hinv
  | cons a rest ih => exact ih (hinv.act a)

theorem acts_children (actions : List CascadeAction) {b' : Snapshot}
    (hb' : b' ∈ (s.acts mode actions).children) :
    ∃ b ∈ s.children, Later b b' ∧
      (mode = .delete → b'.metadata.annotations = b.metadata.annotations) := by
  induction actions generalizing s with
  | nil => exact ⟨b', hb', .refl b', fun _ => rfl⟩
  | cons a rest ih =>
    obtain ⟨mid, hmid, hlater, hannotations⟩ := ih hb'
    obtain ⟨f, heq, hf, hfa⟩ := act_children mode s a
    rw [heq] at hmid
    obtain ⟨b, hb, hbmid⟩ := List.mem_filterMap.mp hmid
    refine ⟨b, hb, (hf b mid hbmid).trans hlater, fun hmode => ?_⟩
    rw [hannotations hmode, hfa hmode b mid hbmid]

theorem pass_children (hinv : CascadeInv mode s) {c : CascadeCall}
    (hc : c ∈ (s.batch mode).calls) (now : DateTime) (meanwhile : List (List Interference)) :
    (s.act mode (.pass now meanwhile)).children =
      s.children.filterMap (applyOps now (passOps (s.batch mode) meanwhile)) := by
  have hwork : cascadeWork mode s.children ≠ 0 := by
    intro hzero
    have hname := List.mem_of_mem_take (batch_names mode s ▸ calls_of_name hc)
    rw [(plan_names_perm s.children mode).mem_iff, namesOf, List.length_eq_zero_iff.mp hzero]
      at hname
    cases hname
  have hplan : (planPolicyCascade s.children mode).isEmpty = false :=
    Bool.eq_false_iff.mpr fun h => hwork (plan_isEmpty_iff.mp h)
  cases hfinalizer : s.finalizer with
  | false => exact absurd (hinv.released hfinalizer) hwork
  | true => simp [CascadeState.act, handlePolicyDeletion, hfinalizer, hplan]

theorem acts_work (hinv : CascadeInv mode s) (actions : List CascadeAction) :
    cascadeWork mode (s.acts mode actions).children ≤
      cascadeWork mode s.children - policyCascadeBatch * s.completed mode actions := by
  induction actions generalizing s with
  | nil => exact Nat.le_refl _
  | cons a rest ih =>
    have hrest := ih (hinv.act a)
    have hstep : cascadeWork mode (s.act mode a).children ≤ _ := act_work hinv.distinct a
    simp only [CascadeState.acts, List.foldl_cons, CascadeState.completed] at hrest ⊢
    cases hfinalizer : s.finalizer with
    | false =>
      have hzero := hinv.released hfinalizer
      omega
    | true =>
      cases hcomplete : s.completes mode a <;>
        simp only [hfinalizer, hcomplete, Bool.and_true, if_true, Bool.false_eq_true, if_false,
          Nat.mul_add, Nat.mul_zero, Nat.mul_one] at hstep ⊢ <;> omega

end Runs

-- Stamps and the deletion plan

theorem call_mem_passOps_iff {batch : PolicyCascadePlan} {c : CascadeCall} :
    .call c ∈ passOps batch meanwhile ↔ c ∈ batch.calls.take meanwhile.length := by
  have hfst : ∀ (l : List CascadeCall) (l' : List (List Interference)),
      (l.zip l').map Prod.fst = l.take l'.length := by
    intro l
    induction l with
    | nil => simp
    | cons a rest ih =>
      intro l'
      cases l' with
      | nil => rfl
      | cons b rest' => simp [ih rest']
  rw [← hfst]
  simp [passOps]

theorem stamp_of_delete {stampAndDelete stampOnly : List String} {n : String} {k : Nat}
    (h : .delete n ∈ (stampAndDelete.flatMap (fun n => [CascadeCall.stamp n, .delete n]) ++
      stampOnly.map CascadeCall.stamp).take k) :
    .stamp n ∈ (stampAndDelete.flatMap (fun n => [CascadeCall.stamp n, .delete n]) ++
      stampOnly.map CascadeCall.stamp).take k := by
  induction stampAndDelete generalizing k with
  | nil =>
    obtain ⟨n', -, hn'⟩ := List.mem_map.mp (List.mem_of_mem_take h)
    cases hn'
  | cons first rest ih =>
    match k with
    | 0 => cases h
    | 1 => simp at h
    | k + 2 =>
      simp only [List.flatMap_cons, List.cons_append, List.nil_append, List.take_succ_cons,
        List.mem_cons, reduceCtorEq, CascadeCall.delete.injEq, CascadeCall.stamp.injEq,
        false_or] at h ⊢
      rcases h with rfl | h
      · exact .inl rfl
      · exact .inr (ih h)

theorem stamped_of_retain_delete {s : CascadeState} {n : String}
    (h : .call (.delete n) ∈ passOps (s.batch .retain) meanwhile) :
    .call (.stamp n) ∈ passOps (s.batch .retain) meanwhile := by
  have hnone : (s.batch .retain).deleteOnly = [] := by
    rw [List.eq_nil_iff_forall_not_mem]
    intro m hm
    obtain ⟨b, -, hp, -⟩ := mem_batch_deleteOnly hm
    simp [deletesOnly] at hp
  rw [call_mem_passOps_iff, PolicyCascadePlan.calls, hnone, List.map_nil, List.append_nil] at h ⊢
  exact stamp_of_delete h

/-- The cascade's stamp keeps the kopia snapshot, except where the repository
opted in to delete with the namespace. -/
theorem planDeletion_of_cascade_stamp {f : DeletionFacts}
    (hstamp : prunedBy f.annotations = some .policyCascade)
    (hns : ¬(f.nsTerminating = true ∧ f.nsPolicy = some .delete)) :
    planDeletion f ≠ .deleteSnapshot ∧ planDeletion f ≠ .holdSnapshotDeletion := by
  unfold planDeletion
  split
  case isTrue => simp
  case isFalse =>
    split
    case isTrue hterm =>
      unfold planNsTerminating
      split
      case h_1 => simp
      case h_2 => simp
      case h_3 hpolicy => exact absurd ⟨hterm, hpolicy⟩ hns
    case isFalse =>
      cases hp : f.policy <;>
        simp [planLiveNamespace, planPruneOrExternal, hstamp, planPrune, hp]

theorem planDeletion_held {f : DeletionFacts} (hstamp : prunedBy f.annotations = none)
    (hheld : f.breaker = .held) : planDeletion f ≠ .deleteSnapshot := by
  have hexternal : planExternal f.policy f.breaker ≠ .deleteSnapshot := by
    rw [hheld]
    cases f.policy <;> simp [planExternal]
  unfold planDeletion
  split
  case isTrue => simp
  case isFalse =>
    split
    case isTrue =>
      unfold planNsTerminating planNsDelete
      cases f.nsPolicy with
      | none => simp
      | some policy =>
        cases policy with
        | orphan => simp
        | delete => simpa [hstamp] using hexternal
    case isFalse =>
      unfold planLiveNamespace planPruneOrExternal
      simp only [hstamp]
      split
      case isTrue => exact hexternal
      case isFalse =>
        cases f.cascade with
        | retain => cases f.policy <;> simp [planCascadeGuard]
        | delete => simpa [planCascadeGuard] using hexternal

/-- A deletion planned from a snapshot's annotations keeps the kopia snapshot,
unless the repository opted in to delete with its namespace. -/
def RetainsKopia (annotations : List (String × String)) : Prop :=
  ∀ f : DeletionFacts, f.annotations = annotations →
    ¬(f.nsTerminating = true ∧ f.nsPolicy = some .delete) →
      planDeletion f ≠ .deleteSnapshot ∧ planDeletion f ≠ .holdSnapshotDeletion

/-- A deletion planned from a snapshot's annotations is stopped by the
breaker. -/
def HeldByBreaker (annotations : List (String × String)) : Prop :=
  ∀ f : DeletionFacts, f.annotations = annotations → f.breaker = .held →
    planDeletion f ≠ .deleteSnapshot

/-- Every run of a policy's deletion, from any children with distinct names,
with passes cut anywhere and deletions by others in between. -/
theorem policy_cascade_runs (mode : PolicyDeletePolicy) (children : List Snapshot)
    (distinct : (children.map fun b => b.metadata.nameAny).Nodup) (actions : List CascadeAction)
    {s : CascadeState} (hs : s = CascadeState.acts mode { children } actions) :
    -- A pass acts on one batch, and on no snapshot that is not the operator's.
    (s.batch mode).names.length ≤ policyCascadeBatch ∧
    (∀ b ∈ s.children,
      resolveOrigin b = some .discovered ∨ resolveOrigin b = some .replicated ∨
        resolveOrigin b = none →
      ∀ c ∈ (s.batch mode).calls, c.name ≠ b.metadata.nameAny) ∧
    -- Under Retain, whatever a pass deleted is stamped and stays so.
    (mode = .retain → ∀ now meanwhile, ∀ b ∈ s.children,
      .call (.delete b.metadata.nameAny) ∈ passOps (s.batch mode) meanwhile →
      (∀ b', applyOps now (passOps (s.batch mode) meanwhile) b = some b' →
        RetainsKopia b'.metadata.annotations) ∧
      ∀ later, ∀ b' ∈ ((s.act mode (.pass now meanwhile)).acts mode later).children,
        b'.metadata.nameAny = b.metadata.nameAny → RetainsKopia b'.metadata.annotations) ∧
    -- Under Delete, nothing is stamped.
    (mode = .delete →
      (∀ c ∈ (s.batch mode).calls, ∃ n, c = .delete n) ∧
      ∀ b' ∈ s.children, ∃ b ∈ children, b'.metadata.nameAny = b.metadata.nameAny ∧
        b'.metadata.annotations = b.metadata.annotations ∧
        (prunedBy b.metadata.annotations = none → HeldByBreaker b'.metadata.annotations)) ∧
    -- The finalizer is released when, and only when, there is nothing left to do.
    (s.finalizer = false → (planPolicyCascade s.children mode).isEmpty = true) ∧
    (cascadeWork mode children ≤
        policyCascadeBatch * CascadeState.completed mode { children } actions →
      (planPolicyCascade s.children mode).isEmpty = true ∧
        ∀ now meanwhile, (s.act mode (.pass now meanwhile)).finalizer = false) := by
  have hinit : CascadeInv mode { children } := ⟨distinct, by simp⟩
  have hinv : CascadeInv mode s := hs ▸ hinit.acts actions
  refine ⟨?_, ?_, ?_, ?_, ?_, ?_⟩
  · rw [batch_names]
    exact List.length_take_le _ _
  · intro b hb horigin c hc hname
    have hmem := List.mem_of_mem_take (batch_names mode s ▸ calls_of_name hc)
    rw [(plan_names_perm s.children mode).mem_iff, mem_namesOf] at hmem
    obtain ⟨b₀, hb₀, hwork, hsame⟩ := hmem
    obtain rfl := eq_of_nameAny hinv.distinct hb₀ hb (hsame.trans hname)
    have heligible := (needsWork_iff.mp hwork).1
    rcases horigin with h | h | h <;> simp [cascadeEligible, h] at heligible
  · rintro rfl now meanwhile b hb hdelete
    have hstamped : ∀ b', applyOps now (passOps (s.batch .retain) meanwhile) b = some b' →
        prunedBy b'.metadata.annotations = some .policyCascade := fun b' h =>
      applyOps_stamped (stamped_of_retain_delete hdelete) h
    refine ⟨fun b' h f hf hns => ?_, fun later b' hb' hname f hf hns => ?_⟩
    · exact planDeletion_of_cascade_stamp (hf ▸ hstamped b' h) hns
    · refine planDeletion_of_cascade_stamp (hf ▸ ?_) hns
      obtain ⟨mid, hmid, hlater, -⟩ := acts_children later hb'
      rw [pass_children hinv (mem_passOps_of_call hdelete)] at hmid
      obtain ⟨b₀, hb₀, hmid⟩ := List.mem_filterMap.mp hmid
      -- The names are distinct, so what is left under the name comes from this snapshot.
      have hsame : b₀.metadata.nameAny = b.metadata.nameAny := by
        rw [← (applyOps_later hmid).name, ← hlater.name, hname]
      obtain rfl := eq_of_nameAny hinv.distinct hb₀ hb hsame
      exact hlater.stamped (hstamped mid hmid)
  · rintro rfl
    refine ⟨fun c hc => deletes_of_delete hc, fun b' hb' => ?_⟩
    obtain ⟨b, hb, hlater, hannotations⟩ := acts_children actions (hs ▸ hb')
    refine ⟨b, hb, hlater.name, hannotations rfl, fun hnone f hf hheld => ?_⟩
    exact planDeletion_held (by rw [hf, hannotations rfl, hnone]) hheld
  · exact fun h => plan_isEmpty_iff.mpr (hinv.released h)
  · intro hcompleted
    have hwork := acts_work hinit actions
    rw [← hs] at hwork
    rw [Nat.sub_eq_zero_of_le hcompleted] at hwork
    have hempty : (planPolicyCascade s.children mode).isEmpty = true :=
      plan_isEmpty_iff.mpr (Nat.le_zero.mp hwork)
    refine ⟨hempty, fun now meanwhile => ?_⟩
    cases hfinalizer : s.finalizer <;>
      simp [CascadeState.act, handlePolicyDeletion, hfinalizer, hempty]

def cascadeChildren : List Snapshot :=
  [{ metadata := { name := some "app-1", finalizers := ["kopiur.home-operations.com/cleanup"] } },
    { metadata := { name := some "app-d", labels := [(originLabel, "discovered")] } }]

theorem policy_cascade_runs_two :
    (planPolicyCascade (CascadeState.acts .retain { children := cascadeChildren }
      [.pass 0 [[], []]]).children .retain).isEmpty = true :=
  ((policy_cascade_runs .retain cascadeChildren (by decide) [.pass 0 [[], []]]
    rfl).2.2.2.2.2 (by decide)).1

/-- With the opt-in to delete with the namespace, the stamp does not keep the
kopia snapshot. -/
theorem namespace_opt_in_overrides_cascade_stamp :
    ∃ b ∈ (CascadeState.acts .retain { children := cascadeChildren } [.pass 0 [[], []]]).children,
      b.metadata.nameAny = "app-1" ∧ b.metadata.deletionTimestamp = some 0 ∧
      prunedBy b.metadata.annotations = some .policyCascade ∧
      planDeletion
        { policy := .delete
          annotations := b.metadata.annotations
          owner := .noScheduleOwner
          cascade := .retain
          nsTerminating := true
          nsPolicy := some .delete
          breaker := .allowed } = .deleteSnapshot := by
  decide

end Kopiur
