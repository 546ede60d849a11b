import Kopiur.Lib.MergePatch

/-!
# Status patches that change nothing

A reconciler computes a patch of its status and leaves it out when the status
already is what the API server would make of it. The test merges the patch as
the server does; a test of the top-level values alone agrees with it on patches
of plain values.
-/

namespace Kopiur.StatusMerge

open Kopiur.Lib

def applyMergePatch (target patch : Json) : Json := target.merge patch

def statusPatchIsNoop (current : Option Json) (desired : Json) : Bool :=
  match current, desired with
  | some (.object current), .object desired =>
    desired.all fun e => decide (current.lookup e.1 = some e.2)
  | _, _ => false

def statusMergePatchIsNoop (current : Option Json) (desired : Json) : Bool :=
  match current with
  | none => false
  | some current => decide (applyMergePatch current desired = current)

/-- Whether a patch is sent, and the status it leaves: the server merges the body
into what it holds under `status`. -/
def patchStatusIfChanged (current : Option Json) (desired : Json) : Bool × Option Json :=
  if statusMergePatchIsNoop current desired then (false, current)
  else (true, patched current (some desired))

/-- A value as the library holds it: its objects are sorted maps. -/
abbrev Value := {v : Json // v.Ordered}

abbrev Object := {fields : List (String × Json) // (Json.object fields).Ordered}

def Object.json (o : Object) : Json := .object o.1

def Object.Flat (o : Object) : Prop :=
  ∀ e ∈ o.1, e.2.isNull = false ∧ ∀ fields, e.2 ≠ .object fields

def at? : List String → Json → Option Json
  | [], v => some v
  | key :: rest, v => (v.fields.lookup key).bind (at? rest)

/-- Along the path the patch comes to a value that is no object, or the path ends
inside the patch. -/
def Mentions : List String → Json → Prop
  | [], _ => True
  | key :: rest, .object fields => ∃ v, fields.lookup key = some v ∧ Mentions rest v
  | _ :: _, _ => True

theorem mentions_leaf {v : Json} (h : ∀ fields, v ≠ .object fields) (path : List String) :
    Mentions path v := by
  cases path with
  | nil => trivial
  | cons key rest =>
    cases v with
    | object fields => exact absurd rfl (h fields)
    | _ => trivial

theorem at?_null {path : List String} (h : path ≠ []) : at? path .null = none := by
  cases path with
  | nil => exact absurd rfl h
  | cons key rest => rfl

theorem at?_applyMergePatch {patch : Json} (hp : patch.Tidy) {path : List String}
    (h : ¬ Mentions path patch) (target : Json) :
    at? path (applyMergePatch target patch) = at? path target := by
  induction path generalizing target patch with
  | nil => exact absurd trivial h
  | cons key rest ih =>
    cases hp with
    | leaf hleaf => exact absurd (mentions_leaf hleaf _) h
    | @object fields keys values =>
      change ((mergeFields target.fields fields).lookup key).bind (at? rest) =
        (target.fields.lookup key).bind (at? rest)
      rw [lookup_mergeFields keys]
      cases hv : fields.lookup key with
      | none => rfl
      | some v =>
        have hrest : ¬ Mentions rest v := fun hm => h ⟨v, hv, hm⟩
        have hnull : v.isNull = false := by
          cases v with
          | null => exact absurd (mentions_leaf (fun _ h => by cases h) rest) hrest
          | _ => rfl
        obtain ⟨l, r, hfields, -⟩ := List.lookup_eq_some_iff.mp hv
        have htidy : v.Tidy := values (key, v) (by rw [hfields]; simp)
        have hlater := ih htidy hrest ((target.fields.lookup key).getD .null)
        rw [patched, hnull]
        refine hlater.trans ?_
        cases hw : target.fields.lookup key with
        | some w => rfl
        | none => exact at?_null fun hnil => hrest (hnil ▸ trivial)

theorem applyMergePatch_eq_self_iff {status patch : Object} (hflat : patch.Flat) :
    applyMergePatch status.json patch.json = status.json ↔
      ∀ e ∈ patch.1, status.1.lookup e.1 = some e.2 := by
  have hkeys : SortedKeys patch.1 := patch.2.fields
  have hpatched : ∀ e ∈ patch.1, ∀ target, patched target (some e.2) = some e.2 := by
    intro e he target
    rw [patched, (hflat e he).1, Json.merge_leaf (hflat e he).2]
    rfl
  constructor
  · intro heq e he
    have hfields : mergeFields status.1 patch.1 = status.1 := Json.object.inj heq
    have hlookup := lookup_mergeFields hkeys.nodup status.1 e.1
    rw [hfields, (lookup_of_sorted hkeys e.1 e.2).mpr he, hpatched e he] at hlookup
    exact hlookup
  · intro hall
    refine Json.merge_eq_self status.2.fields hkeys.nodup fun key v hv => ?_
    have hmem := (lookup_of_sorted hkeys key v).mp hv
    rw [hpatched _ hmem]
    exact (hall _ hmem).symm

theorem statusPatchIsNoop_eq {status patch : Object} (hflat : patch.Flat) :
    statusPatchIsNoop (some status.json) patch.json =
      statusMergePatchIsNoop (some status.json) patch.json := by
  rw [Bool.eq_iff_iff]
  change (patch.1.all fun e => decide (status.1.lookup e.1 = some e.2)) = true ↔
    decide (applyMergePatch status.json patch.json = status.json) = true
  rw [List.all_eq_true, decide_eq_true_iff, applyMergePatch_eq_self_iff hflat]
  simp only [decide_eq_true_iff]

theorem applyMergePatch_idem (target patch : Value) :
    applyMergePatch (applyMergePatch target.1 patch.1) patch.1 =
      applyMergePatch target.1 patch.1 :=
  Json.merge_merge target.2 patch.2.tidy

theorem patchStatusIfChanged_again {current : Option Json} (h : ∀ v ∈ current, v.Ordered)
    (desired : Object) :
    patchStatusIfChanged (patchStatusIfChanged current desired.json).2 desired.json =
      (false, (patchStatusIfChanged current desired.json).2) := by
  by_cases hnoop : statusMergePatchIsNoop current desired.json = true
  · have hskipped : patchStatusIfChanged current desired.json = (false, current) := if_pos hnoop
    rw [hskipped, hskipped]
  · have hsent : patchStatusIfChanged current desired.json =
        (true, some (applyMergePatch (current.getD .null) desired.json)) := if_neg hnoop
    have htarget : (current.getD .null).Ordered := by
      cases current with
      | none => exact ordered_null
      | some v => exact h v rfl
    have hagain := applyMergePatch_idem ⟨_, htarget⟩ ⟨desired.json, desired.2⟩
    rw [hsent]
    exact if_pos (decide_eq_true hagain)

/-- Merging is idempotent and leaves alone what a patch does not mention, the two
tests agree on plain patches of an object, and what was applied is recognised. -/
theorem status_patches_settle :
    (∀ target patch : Value,
      applyMergePatch (applyMergePatch target.1 patch.1) patch.1 =
        applyMergePatch target.1 patch.1 ∧
      (∀ path, ¬ Mentions path patch.1 →
        at? path (applyMergePatch target.1 patch.1) = at? path target.1) ∧
      statusMergePatchIsNoop (some (applyMergePatch target.1 patch.1)) patch.1 = true) ∧
    (∀ status patch : Object, patch.Flat →
      statusPatchIsNoop (some status.json) patch.json =
        statusMergePatchIsNoop (some status.json) patch.json) ∧
    ∀ (current : Option Value) (desired : Object),
      patchStatusIfChanged (patchStatusIfChanged (current.map Subtype.val) desired.json).2
          desired.json =
        (false, (patchStatusIfChanged (current.map Subtype.val) desired.json).2) := by
  refine ⟨fun target patch => ⟨applyMergePatch_idem target patch, fun path hpath => ?_, ?_⟩,
    fun status patch => statusPatchIsNoop_eq, fun current desired => ?_⟩
  · exact at?_applyMergePatch patch.2.tidy hpath target.1
  · exact decide_eq_true (applyMergePatch_idem target patch)
  · refine patchStatusIfChanged_again (fun v hv => ?_) desired
    obtain ⟨w, -, rfl⟩ := Option.mem_map.mp hv
    exact w.2

end Kopiur.StatusMerge
