import Kopiur.Controller.RestoreClaims

/-!
# Claim records over passes

What the merge patch of a pass leaves of each record, and that the patch of the
next pass changes nothing. A lone claim's pin is copied to the top of the status as
the pass saw it, so the next pass finds it in place where the pass kept the pin.
-/

namespace Kopiur.Fanout

open Lib

-- The keys of a record

theorem lookup_present {entries : List (String × Option Json)}
    (h : (entries.map Prod.fst).Nodup) (key : String) :
    (present entries).lookup key = (entries.lookup key).join := by
  induction entries with
  | nil => rfl
  | cons e rest ih =>
    obtain ⟨name, value⟩ := e
    rw [List.map_cons, List.nodup_cons] at h
    have ih := ih h.2
    have hskip : present ((name, none) :: rest) = present rest := rfl
    have hput : ∀ v, present ((name, some v) :: rest) = (name, v) :: present rest := fun _ => rfl
    by_cases hk : key = name
    · subst hk
      have hnone : rest.lookup key = none := by
        refine List.lookup_eq_none_iff.mpr fun e he => ?_
        exact bne_iff_ne.mpr fun heq => h.1 (heq ▸ List.mem_map.mpr ⟨e, he, rfl⟩)
      cases value with
      | none => rw [hskip, ih, hnone, List.lookup_cons_self]; rfl
      | some v => rw [hput, List.lookup_cons_self, List.lookup_cons_self]; rfl
    · cases value with
      | none => rw [hskip, ih, List.lookup_cons, beq_false_of_ne hk]
      | some v => rw [hput, List.lookup_cons, List.lookup_cons, beq_false_of_ne hk, ih]

theorem sorted_present {entries : List (String × Option Json)} (h : SortedKeys entries) :
    SortedKeys (present entries) := by
  refine h.filterMap _ fun a a' hlt b hb b' hb' => ?_
  obtain ⟨v, -, rfl⟩ := Option.map_eq_some_iff.mp hb
  obtain ⟨v', -, rfl⟩ := Option.map_eq_some_iff.mp hb'
  exact hlt

namespace RestoreClaimStatus

def at? (r : RestoreClaimStatus) (key : String) : Option Json := (r.entries.lookup key).join

theorem sorted_entries (r : RestoreClaimStatus) : SortedKeys r.entries := by
  have hkeys : (r.entries.map Prod.fst).Pairwise (· < ·) := by
    change ["failure", "job", "logTail", "message", "observedAt", "phase", "pvcPrime", "reason",
      "resolved", "sourcePath", "uid", "waitStartedAt"].Pairwise (· < ·)
    decide
  exact List.pairwise_map.mp hkeys

theorem sorted_fields (r : RestoreClaimStatus) : SortedKeys r.fields :=
  sorted_present r.sorted_entries

theorem lookup_fields (r : RestoreClaimStatus) (key : String) :
    r.fields.lookup key = r.at? key :=
  lookup_present (List.pairwise_map.mpr (r.sorted_entries.imp fun hlt => hlt.ne)) key

end RestoreClaimStatus

theorem key_cases (key : String) : key ∈ claimControllerKeys ∨ key ∈ claimMoverKeys ∨
    key = "resolved" ∨
      (key ∉ claimRearmResetKeys ∧ ∀ r : RestoreClaimStatus, r.at? key = none) := by
  by_cases hkey : key ∈ claimControllerKeys ++ claimMoverKeys ++ ["resolved"]
  · simp only [List.mem_append, List.mem_singleton] at hkey
    rcases hkey with (hkey | hkey) | hkey
    · exact .inl hkey
    · exact .inr (.inl hkey)
    · exact .inr (.inr (.inl hkey))
  · have hreset : key ∉ claimRearmResetKeys := fun h => hkey (by
      have hsub : claimRearmResetKeys ⊆ claimControllerKeys ++ claimMoverKeys ++ ["resolved"] := by
        decide
      exact hsub h)
    refine .inr (.inr (.inr ⟨hreset, fun r => ?_⟩))
    have hnone : r.entries.lookup key = none := by
      refine List.lookup_eq_none_iff.mpr fun e he => bne_iff_ne.mpr fun heq => hkey ?_
      have hmem : e.1 ∈ r.entries.map Prod.fst := List.mem_map_of_mem he
      rw [heq]
      simp only [RestoreClaimStatus.entries, List.map_cons, List.map_nil] at hmem
      simp only [claimControllerKeys, claimMoverKeys, List.cons_append, List.nil_append]
      revert hmem
      simp only [List.mem_cons, List.not_mem_nil, or_false]
      tauto
    rw [RestoreClaimStatus.at?, hnone]
    rfl

theorem leaf_of_controller {r : RestoreClaimStatus} {key : String} {v : Json}
    (hkey : key ∈ claimControllerKeys) (h : r.at? key = some v) : ∃ text, v = .string text := by
  have htext : ∀ text : Option String, (text.map Json.string) = some v → ∃ t, v = .string t := by
    intro text htext
    obtain ⟨t, -, rfl⟩ := Option.map_eq_some_iff.mp htext
    exact ⟨t, rfl⟩
  simp only [claimControllerKeys, List.mem_cons, List.not_mem_nil, or_false] at hkey
  rcases hkey with rfl | rfl | rfl | rfl | rfl | rfl | rfl | rfl
  · exact htext r.uid h
  · obtain ⟨p, -, rfl⟩ := Option.map_eq_some_iff.mp (show r.phase.map _ = some v from h)
    exact ⟨p.label, rfl⟩
  · exact htext r.reason h
  · exact htext r.message h
  · exact htext r.sourcePath h
  · exact htext r.pvcPrime h
  · exact htext r.job h
  · exact htext r.waitStartedAt h

theorem tidy_of_at? {r : RestoreClaimStatus} {key : String} {v : Json} (h : r.at? key = some v) :
    v.Tidy := by
  have htext : ∀ text : Option String, (text.map Json.string) = some v → v.Tidy := by
    intro text htext
    obtain ⟨t, -, rfl⟩ := Option.map_eq_some_iff.mp htext
    exact (plain_string t).tidy
  have hobject : ∀ o : Option PlainObject, (o.map PlainObject.toValue) = some v → v.Tidy := by
    intro o ho
    obtain ⟨o, -, rfl⟩ := Option.map_eq_some_iff.mp ho
    exact o.plain.tidy
  rcases key_cases key with hkey | hkey | rfl | ⟨-, hkey⟩
  · obtain ⟨text, rfl⟩ := leaf_of_controller hkey h
    exact (plain_string text).tidy
  · simp only [claimMoverKeys, List.mem_cons, List.not_mem_nil, or_false] at hkey
    rcases hkey with rfl | rfl | rfl
    · exact htext r.observedAt h
    · exact htext r.logTail h
    · exact hobject r.failure h
  · exact hobject r.resolved h
  · rw [hkey r] at h
    cases h

-- The merge of a record

theorem lookup_erased (keys : List String) (obj : List (String × Json)) (key : String) :
    (keys.foldl (fun obj key => eraseKey key obj) obj).lookup key =
      if key ∈ keys then none else obj.lookup key := by
  induction keys generalizing obj with
  | nil => rfl
  | cons k rest ih =>
    rw [List.foldl_cons, ih, lookup_eraseKey]
    by_cases hk : key = k <;> simp [hk]

theorem sorted_erased (keys : List String) {obj : List (String × Json)} (h : SortedKeys obj) :
    SortedKeys (keys.foldl (fun obj key => eraseKey key obj) obj) := by
  induction keys generalizing obj with
  | nil => exact h
  | cons k rest ih => exact ih (sorted_eraseKey h)

theorem lookup_nullMissing (keys : List String) (goes : String → Bool)
    (obj : List (String × Json)) (key : String) :
    (nullMissing keys goes obj).lookup key =
      (obj.lookup key).or (if key ∈ keys ∧ goes key = true then some .null else none) := by
  induction keys generalizing obj with
  | nil => simp [nullMissing]
  | cons k rest ih =>
    have ih := ih (if goes k && (obj.lookup k).isNone then putKey k .null obj else obj)
    rw [nullMissing] at ih ⊢
    rw [List.foldl_cons, ih]
    by_cases hk : key = k
    · subst hk
      cases hgoes : goes key <;> cases hobj : obj.lookup key <;> simp [lookup_putKey, hobj]
    · split <;> simp [lookup_putKey, hk]

theorem sorted_nullMissing (keys : List String) (goes : String → Bool)
    {obj : List (String × Json)} (h : SortedKeys obj) :
    SortedKeys (nullMissing keys goes obj) := by
  induction keys generalizing obj with
  | nil => exact h
  | cons k rest ih =>
    refine @ih (if goes k && (obj.lookup k).isNone then putKey k .null obj else obj) ?_
    split
    · exact sorted_putKey h
    · exact h

def rearmed (prev : Option RestoreClaimStatus) (next : RestoreClaimStatus) : Bool :=
  prev.any fun p => claimRearmed p next

theorem lookup_claimMergeFields (prev : Option RestoreClaimStatus) (next : RestoreClaimStatus)
    (key : String) :
    (claimMergeFields prev next).lookup key =
      ((if key ∈ claimMoverKeys then none else next.at? key).or
        (if key ∈ claimControllerKeys ∧ (prev.bind (·.at? key)).isSome = true then some .null
          else none)).or
        (if key ∈ claimRearmResetKeys ∧ rearmed prev next = true then some .null else none) := by
  cases prev with
  | none => simp [claimMergeFields, lookup_erased, next.lookup_fields, rearmed]
  | some p =>
    cases hrearmed : claimRearmed p next <;>
      simp [claimMergeFields, hrearmed, lookup_nullMissing, lookup_erased, next.lookup_fields,
        p.lookup_fields, rearmed]

theorem sorted_claimMergeFields (prev : Option RestoreClaimStatus) (next : RestoreClaimStatus) :
    SortedKeys (claimMergeFields prev next) := by
  have hobj := sorted_erased claimMoverKeys next.sorted_fields
  cases prev with
  | none => exact hobj
  | some p =>
    rw [claimMergeFields]
    split
    · exact sorted_nullMissing _ _ (sorted_nullMissing _ _ hobj)
    · exact sorted_nullMissing _ _ hobj

theorem tidy_claimMergeBody (prev : Option RestoreClaimStatus) (next : RestoreClaimStatus) :
    (claimMergeBody prev next).Tidy := by
  have hsorted := sorted_claimMergeFields prev next
  refine .object hsorted.nodup fun e he => ?_
  have hlookup := (lookup_of_sorted hsorted e.1 e.2).mpr he
  rw [lookup_claimMergeFields, Option.or_eq_some_iff, Option.or_eq_some_iff] at hlookup
  rcases hlookup with (h | ⟨-, h⟩) | ⟨-, h⟩
  · split at h
    · cases h
    · exact tidy_of_at? h
  · split at h
    · rw [← Option.some.inj h]
      exact plain_null.tidy
    · cases h
  · split at h
    · rw [← Option.some.inj h]
      exact plain_null.tidy
    · cases h

def PlainObject.merge (old pin : PlainObject) : PlainObject where
  fields := mergeFields old.fields pin.fields
  plain := old.plain.merge pin.plain

def kept (prev : Option RestoreClaimStatus) (next : RestoreClaimStatus) :
    Option RestoreClaimStatus :=
  prev.filter fun p => !claimRearmed p next

theorem at?_resolved (r : RestoreClaimStatus) :
    r.at? "resolved" = r.resolved.map PlainObject.toValue := rfl

def mergedPin (old : Option PlainObject) (pin : PlainObject) : PlainObject :=
  match old with
  | some old => old.merge pin
  | none => pin

/-- The record a patch leaves. -/
def mergedRecord (prev : Option RestoreClaimStatus) (next : RestoreClaimStatus) :
    RestoreClaimStatus :=
  { next with
    observedAt := (kept prev next).bind (·.observedAt)
    logTail := (kept prev next).bind (·.logTail)
    failure := (kept prev next).bind (·.failure)
    resolved := match next.resolved with
      | some pin => some (mergedPin (prev.bind (·.resolved)) pin)
      | none => (kept prev next).bind (·.resolved) }

def storedRecord (prev : Option RestoreClaimStatus) : Json :=
  (prev.map RestoreClaimStatus.toValue).getD .null

theorem lookup_storedRecord (prev : Option RestoreClaimStatus) (key : String) :
    (storedRecord prev).fields.lookup key = prev.bind (·.at? key) := by
  cases prev with
  | none => rfl
  | some p => exact p.lookup_fields key

theorem at?_mergedRecord_controller {key : String} (hkey : key ∈ claimControllerKeys)
    (prev : Option RestoreClaimStatus) (next : RestoreClaimStatus) :
    (mergedRecord prev next).at? key = next.at? key := by
  simp only [claimControllerKeys, List.mem_cons, List.not_mem_nil, or_false] at hkey
  rcases hkey with rfl | rfl | rfl | rfl | rfl | rfl | rfl | rfl <;> rfl

theorem at?_mergedRecord_mover {key : String} (hkey : key ∈ claimMoverKeys)
    (prev : Option RestoreClaimStatus) (next : RestoreClaimStatus) :
    (mergedRecord prev next).at? key = (kept prev next).bind (·.at? key) := by
  simp only [claimMoverKeys, List.mem_cons, List.not_mem_nil, or_false] at hkey
  rcases hkey with rfl | rfl | rfl <;> cases hkept : kept prev next <;>
    simp [mergedRecord, RestoreClaimStatus.at?, RestoreClaimStatus.entries, hkept,
      List.lookup_cons]

theorem mergedPin_toValue (old : Option PlainObject) (pin : PlainObject) :
    (mergedPin old pin).toValue =
      ((old.map PlainObject.toValue).getD .null).merge pin.toValue := by
  cases old with
  | none => exact pin.plain.merge_null.symm
  | some old => rfl

theorem merge_claimMergeBody (prev : Option RestoreClaimStatus) (next : RestoreClaimStatus) :
    (storedRecord prev).merge (claimMergeBody prev next) = (mergedRecord prev next).toValue := by
  have hstored : SortedKeys (storedRecord prev).fields := by
    cases prev with
    | none => exact List.Pairwise.nil
    | some p => exact p.sorted_fields
  have heq : mergeFields (storedRecord prev).fields (claimMergeFields prev next) =
      (mergedRecord prev next).fields := by
    refine ext_of_lookup (sorted_mergeFields hstored _) (mergedRecord prev next).sorted_fields
      fun key => ?_
    rw [lookup_mergeFields (sorted_claimMergeFields prev next).nodup, lookup_storedRecord,
      lookup_claimMergeFields, (mergedRecord prev next).lookup_fields]
    rcases key_cases key with hkey | hkey | rfl | ⟨hreset, hkey⟩
    · have hmover : key ∉ claimMoverKeys := by
        revert key
        decide
      have hreset : key ∉ claimRearmResetKeys := by
        revert key
        decide
      rw [at?_mergedRecord_controller hkey]
      cases hnext : next.at? key with
      | none => cases hprev : prev.bind (·.at? key) <;>
          simp [hkey, hmover, hreset, patched, Json.isNull]
      | some v =>
        obtain ⟨text, rfl⟩ := leaf_of_controller hkey hnext
        simp [hmover, patched, Json.isNull, Json.merge]
    · have hcontroller : key ∉ claimControllerKeys := by
        revert key
        decide
      have hreset : key ∈ claimRearmResetKeys := by
        revert key
        decide
      rw [at?_mergedRecord_mover hkey]
      cases prev with
      | none => simp [hkey, hcontroller, kept, rearmed, patched]
      | some p => cases hrearmed : claimRearmed p next <;>
          simp [hkey, hcontroller, kept, rearmed, hrearmed, hreset, patched, Json.isNull,
            Option.filter]
    · have hmover : "resolved" ∉ claimMoverKeys := by decide
      have hcontroller : "resolved" ∉ claimControllerKeys := by decide
      have hreset : "resolved" ∈ claimRearmResetKeys := by decide
      simp only [hmover, hcontroller, hreset, if_false, false_and, true_and, Option.or_none,
        at?_resolved]
      rw [mergedRecord]
      cases hpin : next.resolved with
      | some pin =>
        have hold : prev.bind (fun p => p.resolved.map PlainObject.toValue) =
            (prev.bind (·.resolved)).map PlainObject.toValue := by
          cases prev <;> rfl
        have hnull : pin.toValue.isNull = false := rfl
        simp only [Option.map_some, Option.some_or, patched, hnull, hold, mergedPin_toValue]
        rfl
      | none =>
        cases prev with
        | none => simp [kept, rearmed, patched]
        | some p => cases hrearmed : claimRearmed p next <;>
            simp [kept, rearmed, hrearmed, patched, Json.isNull, Option.filter]
    · simp [hkey, hreset, patched]
  exact congrArg Json.object heq

theorem claimRearmed_self (r : RestoreClaimStatus) : claimRearmed r r = false := by
  cases h : r.uid <;> simp [claimRearmed, h]

theorem mergedPin_self (pin : PlainObject) : mergedPin (some pin) pin = pin := by
  have hself : (pin.merge pin).toValue = pin.toValue := pin.plain.merge_self
  exact PlainObject.ext (Json.object.inj hself)

theorem mergedRecord_self (r : RestoreClaimStatus) : mergedRecord (some r) r = r := by
  have hkept : kept (some r) r = some r := by simp [kept, claimRearmed_self, Option.filter]
  cases hpin : r.resolved with
  | none =>
    cases r
    simp_all [mergedRecord]
  | some pin =>
    have hmerged : mergedPin ((some r).bind (·.resolved)) pin = pin := by
      rw [Option.bind_some, hpin, mergedPin_self]
    cases r
    simp_all [mergedRecord]

def mergedClaims (prev next : Claims) : Claims where
  entries := next.entries.map fun (claim, r) => (claim, mergedRecord (prev.get claim) r)
  sorted := sorted_map_values (f := fun claim r => mergedRecord (prev.get claim) r) next.sorted

def Claims.fields (claims : Claims) : List (String × Json) :=
  claims.entries.map fun (claim, r) => (claim, r.toValue)

theorem Claims.sorted_fields (claims : Claims) : SortedKeys claims.fields :=
  sorted_map_values (f := fun _ r => RestoreClaimStatus.toValue r) claims.sorted

theorem Claims.lookup_fields (claims : Claims) (claim : String) :
    claims.fields.lookup claim = (claims.get claim).map RestoreClaimStatus.toValue :=
  lookup_map_values (fun _ r => RestoreClaimStatus.toValue r) claims.entries claim

theorem get_mergedClaims (prev next : Claims) (claim : String) :
    (mergedClaims prev next).get claim =
      (next.get claim).map (mergedRecord (prev.get claim)) :=
  lookup_map_values (fun claim r => mergedRecord (prev.get claim) r) next.entries claim

theorem lookup_nulled (gone : List String) (merges : List (String × Json)) (claim : String) :
    (gone.foldl (fun merges claim => putKey claim .null merges) merges).lookup claim =
      if claim ∈ gone then some .null else merges.lookup claim := by
  induction gone generalizing merges with
  | nil => rfl
  | cons c rest ih =>
    rw [List.foldl_cons, ih, lookup_putKey]
    by_cases hc : claim = c <;> simp [hc]

theorem sorted_nulled (gone : List String) {merges : List (String × Json)}
    (h : SortedKeys merges) :
    SortedKeys (gone.foldl (fun merges claim => putKey claim .null merges) merges) := by
  induction gone generalizing merges with
  | nil => exact h
  | cons c rest ih => exact ih (sorted_putKey h)

theorem sorted_claimsPatch (prev next : Claims) (gone : List String) :
    SortedKeys (claimsPatch prev next gone) :=
  sorted_nulled gone
    (sorted_map_values (f := fun claim r => claimMergeBody (prev.get claim) r) next.sorted)

theorem mem_goneClaims {prev next : Claims} {claim : String} :
    claim ∈ goneClaims prev next ↔
      (prev.get claim).isSome = true ∧ (next.get claim).isNone = true := by
  have hprev : claim ∈ prev.entries.map Prod.fst ↔ (prev.get claim).isSome = true := by
    rw [Claims.get, List.lookup_isSome_iff]
    simp
  rw [goneClaims, List.mem_filter, hprev]

theorem lookup_claimsPatch (prev next : Claims) (claim : String) :
    (claimsPatch prev next (goneClaims prev next)).lookup claim =
      if claim ∈ goneClaims prev next then some .null
      else (next.get claim).map (claimMergeBody (prev.get claim)) := by
  rw [claimsPatch, lookup_nulled]
  congr 1
  exact lookup_map_values (fun claim r => claimMergeBody (prev.get claim) r) next.entries claim

theorem tidy_claimsPatch (prev next : Claims) :
    (Json.object (claimsPatch prev next (goneClaims prev next))).Tidy := by
  have hsorted := sorted_claimsPatch prev next (goneClaims prev next)
  refine .object hsorted.nodup fun e he => ?_
  have hlookup := (lookup_of_sorted hsorted e.1 e.2).mpr he
  rw [lookup_claimsPatch] at hlookup
  split at hlookup
  · rw [← Option.some.inj hlookup]
    exact plain_null.tidy
  · obtain ⟨r, -, hbody⟩ := Option.map_eq_some_iff.mp hlookup
    rw [← hbody]
    exact tidy_claimMergeBody _ r

theorem merge_claimsPatch (prev next : Claims) :
    mergeFields prev.fields (claimsPatch prev next (goneClaims prev next)) =
      (mergedClaims prev next).fields := by
  refine ext_of_lookup (sorted_mergeFields prev.sorted_fields _)
    (mergedClaims prev next).sorted_fields fun claim => ?_
  rw [lookup_mergeFields (sorted_claimsPatch prev next _).nodup, prev.lookup_fields,
    (mergedClaims prev next).lookup_fields, get_mergedClaims, lookup_claimsPatch]
  cases hnext : next.get claim with
  | none =>
    cases hprev : prev.get claim with
    | none => simp [mem_goneClaims, hnext, hprev, patched]
    | some p => simp [mem_goneClaims, hnext, hprev, patched, Json.isNull]
  | some r =>
    have hnull : (claimMergeBody (prev.get claim) r).isNull = false := rfl
    simp only [mem_goneClaims, hnext, Option.isNone_some, Bool.false_eq_true, and_false, if_false,
      Option.map_some, patched, hnull]
    exact congrArg some (merge_claimMergeBody (prev.get claim) r)

theorem goneClaims_self (claims : Claims) : goneClaims claims claims = [] := by
  refine List.eq_nil_iff_forall_not_mem.mpr fun claim hclaim => ?_
  obtain ⟨hsome, hnone⟩ := mem_goneClaims.mp hclaim
  rw [Option.isNone_iff_eq_none.mp hnone] at hsome
  cases hsome

theorem mergedClaims_self (claims : Claims) : mergedClaims claims claims = claims := by
  refine Claims.ext (ext_of_lookup (mergedClaims claims claims).sorted claims.sorted
    fun claim => ?_)
  have hget := get_mergedClaims claims claims claim
  rw [Claims.get, Claims.get] at hget
  rw [hget]
  cases hclaim : claims.entries.lookup claim with
  | none => rfl
  | some r => rw [Option.map_some, mergedRecord_self]

theorem aggregateClaims_merged (prev next : Claims) :
    aggregateClaims (mergedClaims prev next).entries = aggregateClaims next.entries := by
  simp only [aggregateClaims, mergedClaims, List.isEmpty_map, List.foldl_map, List.length_map]
  rfl

def mergedMirror (prev : Claims) : ClaimsMirror → ClaimsMirror
  | .noClaims => .noClaims
  | .single claim r => .single claim (mergedRecord (prev.get claim) r)
  | .many => .many

theorem claimsMirror_merged (prev next : Claims) :
    claimsMirror (mergedClaims prev next).entries =
      mergedMirror prev (claimsMirror next.entries) := by
  simp only [mergedClaims]
  rcases next.entries with _ | ⟨⟨claim, r⟩, _ | ⟨e, rest⟩⟩ <;> rfl

theorem get_of_single {claims : Claims} {claim : String} {r : RestoreClaimStatus}
    (h : claimsMirror claims.entries = .single claim r) : claims.get claim = some r := by
  rw [Claims.get]
  rcases hentries : claims.entries with _ | ⟨⟨c, r'⟩, _ | ⟨e, rest⟩⟩ <;> rw [hentries] at h <;>
    cases h
  exact List.lookup_cons_self

theorem mirroredReport_merged (prev next : Claims) :
    mirroredReport (claimsMirror (mergedClaims prev next).entries)
        (mergedClaims prev next).entries =
      mirroredReport (claimsMirror next.entries) next.entries := by
  rw [claimsMirror_merged]
  cases claimsMirror next.entries with
  | noClaims => simp only [mergedMirror, mirroredReport, aggregateClaims_merged]
  | single claim r =>
    simp only [mergedMirror, mirroredReport, aggregateClaims_merged]
    rfl
  | many => simp only [mergedMirror, mirroredReport, aggregateClaims_merged]

theorem mirroredResolvedCondition_merged (prev next : Claims) :
    mirroredResolvedCondition (claimsMirror (mergedClaims prev next).entries) =
      mirroredResolvedCondition (claimsMirror next.entries) := by
  rw [claimsMirror_merged]
  cases claimsMirror next.entries <;> rfl

theorem fanoutConditions_merged (generation : Option Int) (now : DateTime)
    (base : List StatusCondition) (prev next : Claims) :
    fanoutConditions generation now base (mergedClaims prev next) =
      fanoutConditions generation now base next := by
  simp only [fanoutConditions, mirroredReport_merged, mirroredResolvedCondition_merged,
    aggregateClaims_merged]

theorem fanoutConditions_again (generation : Option Int) (now later : DateTime)
    (base : List StatusCondition) (next : Claims) :
    fanoutConditions generation later (fanoutConditions generation now base next) next =
      fanoutConditions generation now base next := by
  have hawaiting : ∃ t, StatusCondition.find (fanoutConditions generation now base next)
      "AwaitingClaim" = some ⟨"AwaitingClaim", .false, "ClaimsObserved",
        "at least one PVC references this Restore; see status.claims for each claim", t,
        generation⟩ := by
    rw [fanoutConditions]
    dsimp only
    rw [StatusCondition.find_setReady_other (by decide) (by decide) (by decide)]
    split
    · rw [StatusCondition.find_upsert_other (by decide)]
      exact StatusCondition.find_upsert_same
    · exact StatusCondition.find_upsert_same
  have hresolved : ∀ met reason,
      mirroredResolvedCondition (claimsMirror next.entries) = some (met, reason) →
      ∃ t, StatusCondition.find (fanoutConditions generation now base next) "Resolved" =
        some ⟨"Resolved", if met then .true else .false, reason,
          (mirroredReport (claimsMirror next.entries) next.entries).2, t, generation⟩ := by
    intro met reason hmirrored
    rw [fanoutConditions]
    dsimp only
    rw [StatusCondition.find_setReady_other (by decide) (by decide) (by decide), hmirrored]
    exact StatusCondition.find_upsert_same
  have hready : ∃ conditions, fanoutConditions generation now base next =
      StatusCondition.setReady now conditions generation
        (restoreReadyOutcome (aggregatePhase (aggregateClaims next.entries)))
        (mirroredReport (claimsMirror next.entries) next.entries).1
        (mirroredReport (claimsMirror next.entries) next.entries).2 := ⟨_, rfl⟩
  obtain ⟨_, hready⟩ := hready
  obtain ⟨_, hawaiting⟩ := hawaiting
  generalize hconditions : fanoutConditions generation now base next = conditions at *
  rw [fanoutConditions]
  dsimp only
  rw [StatusCondition.upsert_of_find hawaiting]
  split
  · next met reason hmirrored =>
    obtain ⟨_, hfound⟩ := hresolved met reason hmirrored
    rw [StatusCondition.upsert_of_find hfound, hready, StatusCondition.setReady_again]
  · rw [hready, StatusCondition.setReady_again]

-- The keys of a patch

/-- What a patch says of the pin at the top of the status. -/
def mirroredPin (mirror : ClaimsMirror) (prev : Claims) (gone : List String) : Option Json :=
  match mirror with
  | .noClaims => none
  | .single claim record =>
    match record.resolved with
    | some pin => some pin.toValue
    | none => if rearmed (prev.get claim) record || !gone.isEmpty then some .null else none
  | .many => if (claimsMirror prev.entries).isSingle then some .null else none

def mirroredTarget : ClaimsMirror → Option Json
  | .noClaims => none
  | .single claim record => some (.object
      [("pvcPrime", (record.pvcPrime.map .string).getD .null),
        ("pvcRef", .object [("name", .string claim)])])
  | .many => some .null

theorem lookup_applyClaimsMirror (status : List (String × Json)) (mirror : ClaimsMirror)
    (prev : Claims) (gone : List String) (key : String) :
    (applyClaimsMirror status mirror prev gone).lookup key =
      if key = "target" then (mirroredTarget mirror).or (status.lookup key)
      else if key = "resolved" then (mirroredPin mirror prev gone).or (status.lookup key)
      else status.lookup key := by
  cases mirror with
  | noClaims => simp [applyClaimsMirror, mirroredTarget, mirroredPin]
  | single claim record =>
    rw [applyClaimsMirror]
    dsimp only
    rw [lookup_putKey]
    by_cases htarget : key = "target"
    · simp [htarget, mirroredTarget]
    · rw [if_neg htarget, if_neg htarget]
      cases hpin : record.resolved with
      | some pin =>
        by_cases hkey : key = "resolved" <;> simp [lookup_putKey, mirroredPin, hpin, hkey]
      | none =>
        simp only [mirroredPin, hpin]
        change (if rearmed (prev.get claim) record || !gone.isEmpty then
          putKey "resolved" .null status else status).lookup key = _
        split <;> by_cases hkey : key = "resolved" <;> simp [lookup_putKey, hkey]
  | many =>
    rw [applyClaimsMirror, lookup_putKey]
    by_cases htarget : key = "target"
    · simp [htarget, mirroredTarget]
    · rw [if_neg htarget, if_neg htarget, mirroredPin]
      split <;> by_cases hkey : key = "resolved" <;> simp [lookup_putKey, hkey]

theorem sorted_applyClaimsMirror {status : List (String × Json)} (h : SortedKeys status)
    (mirror : ClaimsMirror) (prev : Claims) (gone : List String) :
    SortedKeys (applyClaimsMirror status mirror prev gone) := by
  cases mirror with
  | noClaims => exact h
  | single claim record =>
    refine sorted_putKey ?_
    cases record.resolved with
    | some pin => exact sorted_putKey h
    | none =>
      dsimp only
      split
      · exact sorted_putKey h
      · exact h
  | many =>
    refine sorted_putKey ?_
    split
    · exact sorted_putKey h
    · exact h

section
variable (renderTime : DateTime → String)

def reportFields (generation : Option Int) (now : DateTime) (base : List StatusCondition)
    (next : Claims) : List (String × Json) :=
  [("conditions", conditionsValue renderTime (fanoutConditions generation now base next)),
    ("observedGeneration", (generation.map .int).getD .null),
    ("phase", .string (aggregatePhase (aggregateClaims next.entries)).label)]

theorem lookup_fanoutFields (generation : Option Int) (now : DateTime)
    (base : List StatusCondition) (prev next : Claims) (gone : List String) (key : String) :
    (fanoutFields renderTime generation now base prev next gone).lookup key =
      if key = "claims" then some (.object (claimsPatch prev next gone))
      else if key = "target" then mirroredTarget (claimsMirror next.entries)
      else if key = "resolved" then mirroredPin (claimsMirror next.entries) prev gone
      else (reportFields renderTime generation now base next).lookup key := by
  rw [fanoutFields, lookup_putKey, lookup_applyClaimsMirror]
  by_cases htarget : key = "target"
  · subst htarget
    simp [List.lookup_cons]
  · by_cases hresolved : key = "resolved"
    · subst hresolved
      simp [List.lookup_cons]
    · simp only [htarget, hresolved, if_false]
      rfl

theorem sorted_fanoutFields (generation : Option Int) (now : DateTime)
    (base : List StatusCondition) (prev next : Claims) (gone : List String) :
    SortedKeys (fanoutFields renderTime generation now base prev next gone) := by
  have hreport : SortedKeys (reportFields renderTime generation now base next) := by
    have hkeys : ["conditions", "observedGeneration", "phase"].Pairwise (· < ·) := by decide
    exact List.pairwise_map.mp hkeys
  exact sorted_putKey (sorted_applyClaimsMirror hreport _ prev gone)

theorem tidy_mirroredTarget {mirror : ClaimsMirror} {v : Json}
    (h : mirroredTarget mirror = some v) : v.Tidy := by
  cases mirror with
  | noClaims => cases h
  | single claim record =>
    have htext : ((record.pvcPrime.map Json.string).getD .null).Tidy := by
      cases record.pvcPrime with
      | none => exact plain_null.tidy
      | some t => exact (plain_string t).tidy
    have hname : (Json.object [("name", .string claim)]).Tidy := by
      refine .object (by simp) fun e he => ?_
      rw [List.mem_singleton.mp he]
      exact (plain_string claim).tidy
    rw [← Option.some.inj h]
    refine .object (by simp) fun e he => ?_
    rcases List.mem_cons.mp he with rfl | he
    · exact htext
    · rw [List.mem_singleton.mp he]
      exact hname
  | many =>
    rw [← Option.some.inj h]
    exact plain_null.tidy

theorem tidy_mirroredPin {mirror : ClaimsMirror} {prev : Claims} {gone : List String} {v : Json}
    (h : mirroredPin mirror prev gone = some v) : v.Tidy := by
  cases mirror with
  | noClaims => cases h
  | single claim record =>
    rw [mirroredPin] at h
    split at h
    · next pin _ =>
      rw [← Option.some.inj h]
      exact pin.plain.tidy
    · split at h
      · rw [← Option.some.inj h]
        exact plain_null.tidy
      · cases h
  | many =>
    rw [mirroredPin] at h
    split at h
    · rw [← Option.some.inj h]
      exact plain_null.tidy
    · cases h

theorem tidy_reportFields {generation : Option Int} {now : DateTime}
    {base : List StatusCondition} {next : Claims} {key : String} {v : Json}
    (h : (reportFields renderTime generation now base next).lookup key = some v) : v.Tidy := by
  obtain ⟨l, r, hfields, -⟩ := List.lookup_eq_some_iff.mp h
  have hmem : (key, v) ∈ reportFields renderTime generation now base next := by
    rw [hfields]
    simp
  simp only [reportFields, List.mem_cons, Prod.mk.injEq, List.not_mem_nil, or_false] at hmem
  rcases hmem with ⟨-, rfl⟩ | ⟨-, rfl⟩ | ⟨-, rfl⟩
  · exact .leaf (by rintro fields ⟨⟩)
  · cases generation with
    | none => exact plain_null.tidy
    | some n => exact .leaf (by rintro fields ⟨⟩)
  · exact (plain_string _).tidy

theorem tidy_fanoutStatus (generation : Option Int) (now : DateTime)
    (base : List StatusCondition) (prev next : Claims) :
    (fanoutStatus renderTime generation now base prev next (goneClaims prev next)).Tidy := by
  have hsorted :=
    sorted_fanoutFields renderTime generation now base prev next (goneClaims prev next)
  refine .object hsorted.nodup fun e he => ?_
  have hlookup := (lookup_of_sorted hsorted e.1 e.2).mpr he
  rw [lookup_fanoutFields] at hlookup
  split at hlookup
  · rw [← Option.some.inj hlookup]
    exact tidy_claimsPatch prev next
  · split at hlookup
    · exact tidy_mirroredTarget hlookup
    · split at hlookup
      · exact tidy_mirroredPin hlookup
      · exact tidy_reportFields renderTime hlookup

/-- A status as it is stored, with what a pass reads of it. -/
structure StoredStatus where
  value : Json
  ordered : value.Ordered
  claims : Claims
  conditions : List StatusCondition
  holdsClaims : ((value.fields.lookup "claims").getD .null).fields = claims.fields
  holdsConditions : (value.fields.lookup "conditions").getD (.array []) =
    conditionsValue renderTime conditions

variable {renderTime}

namespace StoredStatus

def patch (s : StoredStatus renderTime) (generation : Option Int) (now : DateTime)
    (next : Claims) : Json :=
  fanoutStatus renderTime generation now s.conditions s.claims next (goneClaims s.claims next)

theorem lookup_merge_patch (s : StoredStatus renderTime) (generation : Option Int)
    (now : DateTime) (next : Claims) (key : String) :
    (s.value.merge (s.patch generation now next)).fields.lookup key =
      patched (s.value.fields.lookup key) ((fanoutFields renderTime generation now s.conditions
        s.claims next (goneClaims s.claims next)).lookup key) := by
  rw [patch, fanoutStatus, Json.fields_merge]
  exact lookup_mergeFields (sorted_fanoutFields renderTime _ _ _ _ _ _).nodup _ key

theorem claims_merge_patch (s : StoredStatus renderTime) (generation : Option Int)
    (now : DateTime) (next : Claims) :
    (s.value.merge (s.patch generation now next)).fields.lookup "claims" =
      some (.object (mergedClaims s.claims next).fields) := by
  rw [lookup_merge_patch, lookup_fanoutFields, if_pos rfl, ← merge_claimsPatch, ← s.holdsClaims]
  rfl

/-- The status once the patch of a pass is applied. -/
def pass (s : StoredStatus renderTime) (generation : Option Int) (now : DateTime)
    (next : Claims) : StoredStatus renderTime where
  value := s.value.merge (s.patch generation now next)
  ordered :=
    s.ordered.merge (tidy_fanoutStatus renderTime generation now s.conditions s.claims next)
  claims := mergedClaims s.claims next
  conditions := fanoutConditions generation now s.conditions next
  holdsClaims := by
    rw [claims_merge_patch]
    rfl
  holdsConditions := by
    rw [lookup_merge_patch, lookup_fanoutFields]
    rfl

def Settled (s : StoredStatus renderTime) (generation : Option Int) (later : DateTime) : Prop :=
  statusMergePatchIsNoop (some s.value) (s.patch generation later s.claims)

end StoredStatus

-- Passes converge

def KeepsPin (prev : Option RestoreClaimStatus) (next : RestoreClaimStatus) : Prop :=
  ∀ p, prev = some p → p.resolved = none ∨
    if claimRearmed p next then next.resolved = none else next.resolved = p.resolved

def KeepsLonePin (prev next : Claims) : Prop :=
  ∀ claim r, claimsMirror next.entries = .single claim r → KeepsPin (prev.get claim) r

theorem keepsPin_self (r : RestoreClaimStatus) : KeepsPin (some r) r := by
  rintro p ⟨⟩
  rw [claimRearmed_self]
  exact .inr rfl

theorem keepsLonePin_self (claims : Claims) : KeepsLonePin claims claims := by
  intro claim r hsingle
  rw [get_of_single hsingle]
  exact keepsPin_self r

/-- A pin that the record has says what it decided, and is the one that is read when the
handshake ends. -/
def Claimant.SeesPin (c : Claimant) (prev : Option RestoreClaimStatus) : Prop :=
  ∀ p pin, prev = some p → p.resolved = some pin → (claimPinnedDecision p).isSome ∧
    ∀ claimPin topLevel, c.seen = .finalizeRebound claimPin topLevel → ∀ live ∈ claimPin, live = pin

namespace Claimant

variable {c : Claimant}

theorem uid_driveClaim (prev : Option RestoreClaimStatus) :
    (c.driveClaim prev).uid = some c.uid := by
  unfold driveClaim
  split
  · rfl
  · rfl
  · unfold alreadyBound
    split <;> rfl
  · next found awaitsPod mover issued _ =>
    rw [populate]
    obtain ⟨resolution, resolved, sourcePath⟩ := c.resolveClaimSource prev found
    cases resolution <;> cases awaitsPod <;> cases mover <;> cases issued <;> rfl

theorem resolveClaimSource_pinned {p : RestoreClaimStatus} (h : (claimPinnedDecision p).isSome)
    (found : SourceFound) : (c.resolveClaimSource (some p) found).2.1 = p.resolved := by
  obtain ⟨decision, hdecision⟩ := Option.isSome_iff_exists.mp h
  simp only [resolveClaimSource, Option.bind_some, hdecision]
  cases decision <;> rfl

theorem resolved_driveClaim {p : RestoreClaimStatus} {pin : PlainObject}
    (hpin : p.resolved = some pin) (h : c.SeesPin (some p)) :
    (c.driveClaim (some p)).resolved = some pin := by
  obtain ⟨hread, hlive⟩ := h p pin rfl hpin
  unfold driveClaim
  split
  · next claimPin topLevel hseen =>
    have hown : claimPin.or (some pin) = some pin := by
      cases claimPin with
      | none => rfl
      | some live => exact congrArg some (hlive _ _ hseen live rfl)
    rw [finalizeRebound, Option.bind_some, hpin]
    cases hreuse : c.jobReuse (some p) <;> simp [claimFinalizePin, hown]
  · exact hpin
  · unfold alreadyBound
    split <;> exact hpin
  · next found awaitsPod mover issued _ =>
    have hkept := (resolveClaimSource_pinned (c := c) hread found).trans hpin
    rw [← hkept, populate]
    obtain ⟨resolution, resolved, sourcePath⟩ := c.resolveClaimSource (some p) found
    cases resolution <;> cases awaitsPod <;> cases mover <;> cases issued <;> rfl

theorem keepsPin_driveOneClaim {prev : Option RestoreClaimStatus} (h : c.SeesPin prev) :
    KeepsPin prev (c.driveOneClaim prev) := by
  rintro p rfl
  cases hpin : p.resolved with
  | none => exact .inl rfl
  | some pin =>
    right
    cases huid : p.uid.filter (· != c.uid) with
    | some staleUid =>
      have hdrive : claimDrive (some p) c.uid = .reArm staleUid := by simp only [claimDrive, huid]
      obtain ⟨hstale, hne⟩ := Option.filter_eq_some_iff.mp huid
      rw [driveOneClaim, hdrive, if_pos (by simpa [claimRearmed, hstale] using hne)]
    | none =>
      have hsame : ∀ r : RestoreClaimStatus, r.uid = some c.uid → claimRearmed p r = false := by
        intro r hr
        cases hp : p.uid with
        | none => simp [claimRearmed, hp]
        | some uid => simpa [claimRearmed, hp, hr, Option.filter] using huid
      have hdrive : claimDrive (some p) c.uid = .settled ∨ claimDrive (some p) c.uid = .drive := by
        simp only [claimDrive, huid]
        split <;> simp
      rcases hdrive with hdrive | hdrive
      · rw [driveOneClaim, hdrive, Option.getD_some, claimRearmed_self]
        exact hpin
      · rw [driveOneClaim, hdrive, hsame _ (uid_driveClaim _)]
        exact resolved_driveClaim hpin h

end Claimant

theorem resolved_of_keepsPin {prev : Option RestoreClaimStatus} {next : RestoreClaimStatus}
    (h : KeepsPin prev next) {pin : PlainObject}
    (hpin : (mergedRecord prev next).resolved = some pin) : next.resolved = some pin := by
  cases hnext : next.resolved with
  | none =>
    have hkept : (kept prev next).bind (·.resolved) = some pin := by
      simpa only [mergedRecord, hnext] using hpin
    obtain ⟨p, hp, hresolved⟩ := Option.bind_eq_some_iff.mp hkept
    obtain ⟨hp, hsame⟩ := Option.filter_eq_some_iff.mp hp
    rcases h p hp with hnone | hkeeps
    · rw [hnone] at hresolved
      cases hresolved
    · rw [if_neg (by simpa using hsame), hresolved, hnext] at hkeeps
      cases hkeeps
  | some named =>
    have hmerged : mergedPin (prev.bind (·.resolved)) named = pin := by
      simpa only [mergedRecord, hnext, Option.some.injEq] using hpin
    rw [← hmerged]
    cases prev with
    | none => rfl
    | some p =>
      rw [Option.bind_some]
      rcases h p rfl with hnone | hkeeps
      · rw [hnone]
        rfl
      · split at hkeeps
        · rw [hnext] at hkeeps
          cases hkeeps
        · rw [← hkeeps, hnext, mergedPin_self]

theorem mirroredTarget_merged (prev next : Claims) :
    mirroredTarget (claimsMirror (mergedClaims prev next).entries) =
      mirroredTarget (claimsMirror next.entries) := by
  rw [claimsMirror_merged]
  cases claimsMirror next.entries <;> rfl

theorem mirroredPin_merged {prev next : Claims} (h : KeepsLonePin prev next) {gone : List String}
    {v : Json} (hv : mirroredPin (claimsMirror (mergedClaims prev next).entries)
      (mergedClaims prev next) [] = some v) :
    mirroredPin (claimsMirror next.entries) prev gone = some v := by
  cases hmirror : claimsMirror next.entries with
  | noClaims =>
    rw [claimsMirror_merged, hmirror] at hv
    cases hv
  | many =>
    rw [claimsMirror_merged, hmirror, mergedMirror, mirroredPin, claimsMirror_merged, hmirror] at hv
    cases hv
  | single claim r =>
    have hlone : claimsMirror (mergedClaims prev next).entries =
        .single claim (mergedRecord (prev.get claim) r) := by
      rw [claimsMirror_merged, hmirror]
      rfl
    rw [hlone, mirroredPin] at hv
    split at hv
    · next pin hpin =>
      rw [mirroredPin, resolved_of_keepsPin (h claim r hmirror) hpin]
      exact hv
    · rw [get_of_single hlone, rearmed, Option.any_some, claimRearmed_self] at hv
      cases hv

theorem reportFields_again (generation : Option Int) (now later : DateTime)
    (base : List StatusCondition) (prev next : Claims) :
    reportFields renderTime generation later (fanoutConditions generation now base next)
        (mergedClaims prev next) =
      reportFields renderTime generation now base next := by
  rw [reportFields, fanoutConditions_merged, fanoutConditions_again, aggregateClaims_merged]
  rfl

theorem settled_pass (s : StoredStatus renderTime) (generation : Option Int)
    (now later : DateTime) {next : Claims} (h : KeepsLonePin s.claims next) :
    (s.pass generation now next).Settled generation later := by
  refine ⟨_, rfl, ?_⟩
  have hagain : goneClaims (mergedClaims s.claims next) (mergedClaims s.claims next) = [] :=
    goneClaims_self _
  refine Json.merge_eq_self (sorted_mergeFields s.ordered.fields _)
    (sorted_fanoutFields renderTime _ _ _ _ _ _).nodup fun key v hv => ?_
  change patched ((s.value.merge (s.patch generation now next)).fields.lookup key) (some v) =
    (s.value.merge (s.patch generation now next)).fields.lookup key
  have hput := s.lookup_merge_patch generation now next key
  have hsame : ∀ w : Json, w.Tidy → (fanoutFields renderTime generation now s.conditions s.claims
      next (goneClaims s.claims next)).lookup key = some w →
      patched ((s.value.merge (s.patch generation now next)).fields.lookup key) (some w) =
        (s.value.merge (s.patch generation now next)).fields.lookup key := by
    intro w htidy hw
    rw [hput, hw]
    exact patched_patched (Json.merge_merge (s.ordered.getD key) htidy)
  rw [lookup_fanoutFields] at hv
  by_cases hclaims : key = "claims"
  · subst hclaims
    rw [if_pos rfl] at hv
    rw [s.claims_merge_patch, ← Option.some.inj hv]
    have hmerge := merge_claimsPatch (mergedClaims s.claims next) (mergedClaims s.claims next)
    rw [mergedClaims_self] at hmerge
    exact congrArg (fun fields => some (Json.object fields)) hmerge
  rw [if_neg hclaims] at hv
  by_cases htarget : key = "target"
  · rw [if_pos htarget] at hv
    refine hsame v (tidy_mirroredTarget hv) ?_
    rw [lookup_fanoutFields, if_neg hclaims, if_pos htarget, ← mirroredTarget_merged s.claims]
    exact hv
  rw [if_neg htarget] at hv
  by_cases hresolved : key = "resolved"
  · rw [if_pos hresolved] at hv
    refine hsame v (tidy_mirroredPin hv) ?_
    rw [lookup_fanoutFields, if_neg hclaims, if_neg htarget, if_pos hresolved]
    exact mirroredPin_merged h (hagain ▸ hv)
  · rw [if_neg hresolved] at hv
    refine hsame v (tidy_reportFields renderTime hv) ?_
    rw [lookup_fanoutFields, if_neg hclaims, if_neg htarget, if_neg hresolved,
      ← reportFields_again generation now later s.conditions s.claims next]
    exact hv

theorem keepsLonePin_fanout {prev : Claims} {live : List Claimant}
    (h : ∀ c ∈ live, c.SeesPin (prev.get c.name)) :
    KeepsLonePin prev (drivePopulatorFanout prev live) := by
  intro claim r hsingle
  have hmem := mem_of_lookup_putAll (get_of_single hsingle)
  obtain ⟨c, hc, heq⟩ := List.mem_map.mp hmem
  obtain ⟨rfl, rfl⟩ := Prod.mk.inj heq
  exact Claimant.keepsPin_driveOneClaim (h c hc)

def afterMerge (prev : Option RestoreClaimStatus) (next : RestoreClaimStatus) (key : String) :
    Option Json :=
  ((storedRecord prev).merge (claimMergeBody prev next)).fields.lookup key

theorem afterMerge_eq (prev : Option RestoreClaimStatus) (next : RestoreClaimStatus)
    (key : String) : afterMerge prev next key = (mergedRecord prev next).at? key := by
  rw [afterMerge, merge_claimMergeBody]
  exact (mergedRecord prev next).lookup_fields key

theorem afterMerge_mover_same {prev : Option RestoreClaimStatus} {next : RestoreClaimStatus}
    (h : rearmed prev next = false) {key : String} (hkey : key ∈ claimMoverKeys) :
    afterMerge prev next key = (storedRecord prev).fields.lookup key := by
  rw [afterMerge_eq, at?_mergedRecord_mover hkey, lookup_storedRecord]
  cases prev with
  | none => rfl
  | some p =>
    have hsame : claimRearmed p next = false := h
    simp [kept, hsame, Option.filter]

theorem afterMerge_resolved_same {prev : Option RestoreClaimStatus} {next : RestoreClaimStatus}
    (h : rearmed prev next = false) :
    afterMerge prev next "resolved" =
      let stored := (storedRecord prev).fields.lookup "resolved"
      match next.resolved with
      | none => stored
      | some pin => some ((stored.getD .null).merge pin.toValue) := by
  rw [afterMerge_eq, at?_resolved, lookup_storedRecord]
  cases prev with
  | none => cases hpin : next.resolved with
    | none => simp [mergedRecord, hpin, kept]
    | some pin => simp [mergedRecord, hpin, mergedPin_toValue]
  | some p =>
    have hsame : claimRearmed p next = false := h
    cases hpin : next.resolved with
    | none => simp [mergedRecord, hpin, kept, hsame, Option.filter, at?_resolved]
    | some pin => simp [mergedRecord, hpin, mergedPin_toValue, at?_resolved]

theorem kept_of_rearmed {prev : Option RestoreClaimStatus} {next : RestoreClaimStatus}
    (h : rearmed prev next = true) : kept prev next = none := by
  cases prev with
  | none => rfl
  | some p =>
    have hother : claimRearmed p next = true := h
    simp [kept, hother, Option.filter]

theorem afterMerge_resolved_rearmed {prev : Option RestoreClaimStatus}
    {next : RestoreClaimStatus} (h : rearmed prev next = true) :
    afterMerge prev next "resolved" = next.resolved.map fun pin =>
      (((storedRecord prev).fields.lookup "resolved").getD .null).merge pin.toValue := by
  rw [afterMerge_eq, at?_resolved, lookup_storedRecord]
  cases hpin : next.resolved with
  | none => simp [mergedRecord, hpin, kept_of_rearmed h]
  | some pin =>
    simp only [mergedRecord, hpin, Option.map_some, mergedPin_toValue]
    cases prev <;> rfl

theorem claimRecords_converge (renderTime : DateTime → String) :
    (∀ (prev : Option RestoreClaimStatus) (next : RestoreClaimStatus),
      (∀ key ∈ claimControllerKeys, afterMerge prev next key = next.fields.lookup key) ∧
      (rearmed prev next = false →
        (∀ key ∈ claimMoverKeys,
          afterMerge prev next key = (storedRecord prev).fields.lookup key) ∧
        afterMerge prev next "resolved" =
          let stored := (storedRecord prev).fields.lookup "resolved"
          match next.resolved with
          | none => stored
          | some pin => some ((stored.getD .null).merge pin.toValue)) ∧
      (rearmed prev next = true →
        (∀ key ∈ claimMoverKeys, afterMerge prev next key = none) ∧
        afterMerge prev next "resolved" = next.resolved.map fun pin =>
          (((storedRecord prev).fields.lookup "resolved").getD .null).merge pin.toValue)) ∧
    (∀ (s : StoredStatus renderTime) (generation : Option Int) (now later : DateTime)
      (live : List Claimant), (∀ c ∈ live, c.SeesPin (s.claims.get c.name)) →
      (s.pass generation now (drivePopulatorFanout s.claims live)).Settled generation later) ∧
    ∀ (s : StoredStatus renderTime) (generation : Option Int) (now later last : DateTime)
      (next : Claims),
      (KeepsLonePin s.claims next → (s.pass generation now next).Settled generation later) ∧
      let again := (s.pass generation now next).pass generation later
        (s.pass generation now next).claims
      again.Settled generation last := by
  refine ⟨fun prev next => ⟨fun key hkey => ?_, fun hsame => ⟨fun key hkey => ?_, ?_⟩,
      fun hother => ⟨?_, ?_⟩⟩, fun s generation now later live hsees => ?_,
    fun s generation now later last next => ⟨fun hkeeps => ?_, ?_⟩⟩
  · rw [afterMerge_eq, at?_mergedRecord_controller hkey, next.lookup_fields]
  · exact afterMerge_mover_same hsame hkey
  · exact afterMerge_resolved_same hsame
  · intro key hkey
    rw [afterMerge_eq, at?_mergedRecord_mover hkey, kept_of_rearmed hother]
    rfl
  · exact afterMerge_resolved_rearmed hother
  · exact settled_pass s generation now later (keepsLonePin_fanout hsees)
  · exact settled_pass s generation now later hkeeps
  · exact settled_pass _ generation later last (keepsLonePin_self _)

def seconds (t : DateTime) : String := toString (Duration.numSeconds t)

/-- The pin of a snapshot. -/
def snapshotPin (id : String) : PlainObject where
  fields := [("kopiaSnapshotID", .string id)]
  plain := by
    refine .object (List.pairwise_singleton _ _) (fun e he => ?_) fun e he => ?_
    · rw [List.mem_singleton.mp he]
      rfl
    · rw [List.mem_singleton.mp he]
      exact plain_string id

def pinnedRecord (uid : String) (pin : Option PlainObject) : RestoreClaimStatus where
  uid := some uid
  phase := some .populating
  resolved := pin

def noStatus : StoredStatus seconds where
  value := .null
  ordered := ordered_null
  claims := ⟨[], List.Pairwise.nil⟩
  conditions := []
  holdsClaims := rfl
  holdsConditions := rfl

def loneClaims (claim : String) (r : RestoreClaimStatus) : Claims :=
  ⟨[(claim, r)], List.pairwise_singleton _ _⟩

def twoClaims : Claims :=
  ⟨[("data", pinnedRecord "u1" (snapshotPin "k1")), ("logs", pinnedRecord "u2" none)],
    List.pairwise_pair.mpr (by decide)⟩

def dataClaimant (pin : Option PlainObject) : Claimant where
  name := "data"
  uid := "u1"
  primeName := "prime-u1"
  populateJob := "app-populate-u1"
  legacyJob := "app-populate"
  seen := .finalizeRebound pin none
  message _ := ""
  now := "5"

theorem claimRecords_converge_lone :
    let s := noStatus.pass (some 1) 0 (loneClaims "data" (pinnedRecord "u1" (snapshotPin "k1")))
    let next := loneClaims "data" (pinnedRecord "u1" (snapshotPin "k1"))
    let live := [dataClaimant (snapshotPin "k1")]
    (∀ c ∈ live, c.SeesPin (s.claims.get c.name)) ∧
      (s.pass (some 1) 5 (drivePopulatorFanout s.claims live)).Settled (some 1) 9 ∧
      KeepsLonePin s.claims next ∧ (s.pass (some 1) 5 next).Settled (some 1) 9 := by
  intro s next live
  have hsees : ∀ c ∈ live, c.SeesPin (s.claims.get c.name) := by
    intro c hc p pin hp hpin
    rw [List.mem_singleton.mp hc] at hp ⊢
    cases hp
    cases hpin
    exact ⟨rfl, by rintro _ _ ⟨⟩ _ ⟨⟩; rfl⟩
  have hkeeps : KeepsLonePin s.claims next := by
    rintro claim r ⟨⟩ p ⟨⟩
    exact .inr rfl
  obtain ⟨-, hbuilt, hany⟩ := claimRecords_converge seconds
  exact ⟨hsees, hbuilt s (some 1) 5 9 live hsees, hkeeps, (hany s (some 1) 5 9 9 next).1 hkeeps⟩

/-- A pin that the next record names is merged into the old one, for a claim of the same
uid and for one that starts anew; and the next pass copies the pin of a record that the
last one did not name. -/
theorem claimRecords_not_cleared_nor_settled :
    (let prev := pinnedRecord "u1" none
     let next := pinnedRecord "u1" (snapshotPin "k1")
     rearmed (some prev) next = false ∧
       ((storedRecord (some prev)).fields.lookup "resolved").isSome = false ∧
       (afterMerge (some prev) next "resolved").isSome = true) ∧
    (let prev := pinnedRecord "u1" (snapshotPin "k1")
     let next := pinnedRecord "u2" (snapshotPin "k2")
     rearmed (some prev) next = true ∧
       (afterMerge (some prev) next "resolved").isSome = true) ∧
    (let s := noStatus.pass (some 1) 0 twoClaims
     ¬ (s.pass (some 1) 5 (loneClaims "data" (pinnedRecord "u1" none))).Settled (some 1) 9) := by
  refine ⟨⟨by decide, by decide, by decide⟩, ⟨by decide, by decide⟩, ?_⟩
  rintro s ⟨status, hstatus, hnoop⟩
  cases hstatus
  have hpin := congrArg (fun v => (v.fields.lookup "resolved").isSome) hnoop
  revert hpin
  decide

end

end Kopiur.Fanout
