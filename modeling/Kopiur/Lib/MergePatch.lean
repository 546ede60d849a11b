import Kopiur.Lib.Json
import Kopiur.Lib.SortedMap

/-!
# JSON merge patches

A patch that is no object replaces its target. A patch that is an object is merged
key by key: a null removes the key, and any other value is merged into what the key
holds. Applying a patch once more changes nothing.
-/

namespace Kopiur.Lib

def Json.isNull : Json → Bool
  | .null => true
  | _ => false

def Json.fields : Json → List (String × Json)
  | .object fields => fields
  | _ => []

mutual

def Json.merge (target : Json) : Json → Json
  | .object patch => .object (mergeFields target.fields patch)
  | .null => .null
  | .bool b => .bool b
  | .int n => .int n
  | .float text => .float text
  | .string s => .string s
  | .array items => .array items

def mergeFields (out : List (String × Json)) : List (String × Json) → List (String × Json)
  | [] => out
  | (key, value) :: rest =>
    mergeFields
      (if value.isNull then eraseKey key out
      else putKey key (Json.merge ((out.lookup key).getD .null) value) out)
      rest

end

/-- No key of an object in the patch is named twice. -/
inductive Json.Tidy : Json → Prop
  | leaf {v : Json} (h : ∀ fields, v ≠ .object fields) : Tidy v
  | object {fields : List (String × Json)} (keys : (fields.map Prod.fst).Nodup)
      (values : ∀ e ∈ fields, Tidy e.2) : Tidy (.object fields)

/-- The objects of the value are sorted. -/
inductive Json.Ordered : Json → Prop
  | leaf {v : Json} (h : ∀ fields, v ≠ .object fields) : Ordered v
  | object {fields : List (String × Json)} (keys : SortedKeys fields)
      (values : ∀ e ∈ fields, Ordered e.2) : Ordered (.object fields)

/-- The objects of the value are sorted and hold no null. -/
inductive Json.Plain : Json → Prop
  | leaf {v : Json} (h : ∀ fields, v ≠ .object fields) : Plain v
  | object {fields : List (String × Json)} (keys : SortedKeys fields)
      (present : ∀ e ∈ fields, e.2.isNull = false) (values : ∀ e ∈ fields, Plain e.2) :
      Plain (.object fields)

theorem SortedKeys.nodup {fields : List (String × Json)} (h : SortedKeys fields) :
    (fields.map Prod.fst).Nodup :=
  List.pairwise_map.mpr (h.imp fun hlt => hlt.ne)

theorem Json.Plain.ordered {v : Json} (h : v.Plain) : v.Ordered := by
  induction h with
  | leaf h => exact .leaf h
  | object keys _ _ ih => exact .object keys ih

theorem Json.Ordered.tidy {v : Json} (h : v.Ordered) : v.Tidy := by
  induction h with
  | leaf h => exact .leaf h
  | object keys _ ih => exact .object keys.nodup ih

theorem Json.Plain.tidy {v : Json} (h : v.Plain) : v.Tidy := h.ordered.tidy

theorem plain_null : Json.Plain .null := .leaf nofun

theorem plain_string (text : String) : (Json.string text).Plain :=
  .leaf (by rintro fields ⟨⟩)

theorem ordered_null : Json.Ordered .null := plain_null.ordered

theorem Json.merge_leaf {target v : Json} (h : ∀ fields, v ≠ .object fields) :
    target.merge v = v := by
  cases v with
  | object fields => exact absurd rfl (h fields)
  | _ => rfl

theorem Json.Ordered.fields {v : Json} (h : v.Ordered) : SortedKeys v.fields := by
  cases h with
  | leaf h =>
    cases v with
    | object fields => exact absurd rfl (h fields)
    | _ => exact List.Pairwise.nil
  | object keys _ => exact keys

theorem Json.Ordered.lookup {v w : Json} {key : String} (h : v.Ordered)
    (hw : v.fields.lookup key = some w) : w.Ordered := by
  cases h with
  | leaf h =>
    cases v with
    | object fields => exact absurd rfl (h fields)
    | _ => cases hw
  | object keys values => exact values (key, w) ((lookup_of_sorted keys key w).mp hw)

theorem Json.Ordered.getD {v : Json} (h : v.Ordered) (key : String) :
    ((v.fields.lookup key).getD .null).Ordered := by
  cases hw : v.fields.lookup key with
  | none => exact ordered_null
  | some w => exact h.lookup hw

def patched (target : Option Json) : Option Json → Option Json
  | none => target
  | some v => if v.isNull then none else some ((target.getD .null).merge v)

theorem lookup_mergeFields {patch : List (String × Json)} (h : (patch.map Prod.fst).Nodup)
    (out : List (String × Json)) (key : String) :
    (mergeFields out patch).lookup key = patched (out.lookup key) (patch.lookup key) := by
  induction patch generalizing out with
  | nil => rfl
  | cons e rest ih =>
    obtain ⟨name, value⟩ := e
    rw [List.map_cons, List.nodup_cons] at h
    rw [mergeFields, ih h.2]
    by_cases hk : key = name
    · subst hk
      have hnone : rest.lookup key = none := by
        refine List.lookup_eq_none_iff.mpr fun e he => ?_
        exact bne_iff_ne.mpr fun heq => h.1 (heq ▸ List.mem_map.mpr ⟨e, he, rfl⟩)
      rw [hnone, List.lookup_cons_self]
      cases hnull : value.isNull with
      | true => simp [patched, hnull, lookup_eraseKey]
      | false => simp [patched, hnull, lookup_putKey]
    · rw [List.lookup_cons, beq_false_of_ne hk]
      cases hnull : value.isNull with
      | true => simp [lookup_eraseKey, hk]
      | false => simp [lookup_putKey, hk]

theorem sorted_mergeFields {out : List (String × Json)} (h : SortedKeys out)
    (patch : List (String × Json)) : SortedKeys (mergeFields out patch) := by
  induction patch generalizing out with
  | nil => exact h
  | cons e rest ih =>
    rw [mergeFields]
    split
    · exact ih (sorted_eraseKey h)
    · exact ih (sorted_putKey h)

theorem Json.fields_merge (target : Json) (patch : List (String × Json)) :
    (target.merge (.object patch)).fields = mergeFields target.fields patch := rfl

theorem Json.Ordered.merge {target patch : Json} (h : target.Ordered) (hp : patch.Tidy) :
    (target.merge patch).Ordered := by
  induction hp generalizing target with
  | leaf hleaf =>
    rw [merge_leaf hleaf]
    exact .leaf hleaf
  | @object patch keys _ ih =>
    have hsorted := sorted_mergeFields h.fields patch
    refine .object hsorted fun e he => ?_
    have hlookup := (lookup_of_sorted hsorted e.1 e.2).mpr he
    rw [lookup_mergeFields keys] at hlookup
    cases hv : patch.lookup e.1 with
    | none =>
      rw [hv] at hlookup
      exact h.lookup hlookup
    | some v =>
      rw [hv, patched] at hlookup
      split at hlookup
      · cases hlookup
      · rw [← Option.some.inj hlookup]
        obtain ⟨l, r, rfl, -⟩ := List.lookup_eq_some_iff.mp hv
        exact ih (e.1, v) (by simp) (h.getD e.1)

theorem Json.merge_eq_self {fields patch : List (String × Json)} (h : SortedKeys fields)
    (hp : (patch.map Prod.fst).Nodup)
    (hforce : ∀ key v, patch.lookup key = some v →
      patched (fields.lookup key) (some v) = fields.lookup key) :
    (Json.object fields).merge (.object patch) = .object fields := by
  have heq : mergeFields fields patch = fields := by
    refine ext_of_lookup (sorted_mergeFields h patch) h fun key => ?_
    rw [lookup_mergeFields hp]
    cases hv : patch.lookup key with
    | none => rfl
    | some v => exact hforce key v hv
  exact congrArg Json.object heq

theorem patched_patched {target : Option Json} {v : Json}
    (h : ((target.getD .null).merge v).merge v = (target.getD .null).merge v) :
    patched (patched target (some v)) (some v) = patched target (some v) := by
  cases hnull : v.isNull with
  | true => simp [patched, hnull]
  | false => simp [patched, hnull, h]

theorem Json.merge_merge {target patch : Json} (h : target.Ordered) (hp : patch.Tidy) :
    (target.merge patch).merge patch = target.merge patch := by
  induction hp generalizing target with
  | leaf hleaf => rw [merge_leaf hleaf, merge_leaf hleaf]
  | @object patch keys _ ih =>
    refine merge_eq_self (sorted_mergeFields h.fields patch) keys fun key v hv => ?_
    rw [lookup_mergeFields keys, hv]
    obtain ⟨l, r, rfl, -⟩ := List.lookup_eq_some_iff.mp hv
    exact patched_patched (ih (key, v) (by simp) (h.getD key))

theorem Json.Plain.merge_null {v : Json} (h : v.Plain) : Json.null.merge v = v := by
  induction h with
  | leaf hleaf => exact merge_leaf hleaf
  | @object fields keys present _ ih =>
    have heq : mergeFields [] fields = fields := by
      refine ext_of_lookup (sorted_mergeFields List.Pairwise.nil fields) keys fun key => ?_
      rw [lookup_mergeFields keys.nodup]
      cases hv : fields.lookup key with
      | none => rfl
      | some v =>
        have hmem := (lookup_of_sorted keys key v).mp hv
        simp [patched, present _ hmem, ih _ hmem]
    exact congrArg Json.object heq

theorem Json.isNull_merge (target v : Json) : (target.merge v).isNull = v.isNull := by
  cases v <;> rfl

theorem Json.Plain.fields_sorted {v : Json} (h : v.Plain) : SortedKeys v.fields :=
  h.ordered.fields

theorem Json.Plain.lookup {v w : Json} {key : String} (h : v.Plain)
    (hw : v.fields.lookup key = some w) : w.Plain ∧ w.isNull = false := by
  cases h with
  | leaf h =>
    cases v with
    | object fields => exact absurd rfl (h fields)
    | _ => cases hw
  | object keys present values =>
    have hmem := (lookup_of_sorted keys key w).mp hw
    exact ⟨values (key, w) hmem, present (key, w) hmem⟩

theorem Json.Plain.getD {v : Json} (h : v.Plain) (key : String) :
    ((v.fields.lookup key).getD .null).Plain := by
  cases hw : v.fields.lookup key with
  | none => exact .leaf nofun
  | some w => exact (h.lookup hw).1

theorem Json.Plain.merge {target patch : Json} (h : target.Plain) (hp : patch.Plain) :
    (target.merge patch).Plain := by
  induction hp generalizing target with
  | leaf hleaf =>
    rw [merge_leaf hleaf]
    exact .leaf hleaf
  | @object patch keys present _ ih =>
    have hsorted := sorted_mergeFields h.fields_sorted patch
    have hvalue : ∀ e ∈ mergeFields target.fields patch, e.2.Plain ∧ e.2.isNull = false := by
      intro e he
      have hlookup := (lookup_of_sorted hsorted e.1 e.2).mpr he
      rw [lookup_mergeFields keys.nodup] at hlookup
      cases hv : patch.lookup e.1 with
      | none =>
        rw [hv] at hlookup
        exact h.lookup hlookup
      | some v =>
        have hmem := (lookup_of_sorted keys e.1 v).mp hv
        rw [hv, patched, present _ hmem] at hlookup
        rw [← Option.some.inj hlookup, isNull_merge]
        exact ⟨ih _ hmem (h.getD e.1), present _ hmem⟩
    exact .object hsorted (fun e he => (hvalue e he).2) fun e he => (hvalue e he).1

theorem Json.Plain.merge_self {v : Json} (h : v.Plain) : v.merge v = v := by
  have hmerge := merge_merge ordered_null h.tidy
  rwa [h.merge_null] at hmerge

end Kopiur.Lib
