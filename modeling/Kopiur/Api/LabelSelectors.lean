import Kopiur.Lib.SelectorStrings
import Kopiur.Lib.Results
import Kopiur.Api.Policy
import Mathlib.Data.List.Forall2
import Mathlib.Data.Option.Defs

/-!
# One selector, twice

A label selector is rendered for the API server and checked against labels in
process. The two agree where the rendering reads back as it was meant: for
valid keys and values, and lists that are not empty.
-/

namespace Kopiur

open Lib

structure LabelSelectorRequirement where
  key : String
  operator : String
  values : Option (List String) := none
deriving DecidableEq

structure LabelSelector where
  matchLabels : Option (List (String × String)) := none
  matchExpressions : Option (List LabelSelectorRequirement) := none
deriving DecidableEq

namespace LabelSelectorRequirement

/-- What is rendered of an expression: nothing of an unknown operator. -/
def term (e : LabelSelectorRequirement) : Option String :=
  let vals := String.intercalate "," (e.values.getD [])
  match e.operator with
  | "In" => some (e.key ++ " in (" ++ vals ++ ")")
  | "NotIn" => some (e.key ++ " notin (" ++ vals ++ ")")
  | "Exists" => some e.key
  | "DoesNotExist" => some ("!" ++ e.key)
  | _ => none

def ok (labels : List (String × String)) (e : LabelSelectorRequirement) : Bool :=
  let vals := e.values.getD []
  let present := labels.lookup e.key
  match e.operator with
  | "In" => present.any fun v => vals.any (· == v)
  | "NotIn" => present.all fun v => !vals.any (· == v)
  | "Exists" => present.isSome
  | "DoesNotExist" => present.isNone
  | _ => true

end LabelSelectorRequirement

def labelSelectorString (sel : LabelSelector) : String :=
  String.intercalate "," ((sel.matchLabels.getD []).map (fun (k, v) => k ++ "=" ++ v) ++
    (sel.matchExpressions.getD []).filterMap (·.term))

def labelsMatchSelector (labels : List (String × String)) (sel : LabelSelector) : Bool :=
  (sel.matchLabels.getD []).all (fun (k, v) => labels.lookup k == some v) &&
    (sel.matchExpressions.getD []).all (·.ok labels)

structure NamespaceSelector where
  matchNames : List String := []
deriving DecidableEq

/-- The fields of a policy's `pvcSelector`. -/
structure PvcSelectorSpec where
  namespaceSelector : Option NamespaceSelector := none
  labelSelector : Option LabelSelector := none
deriving DecidableEq

def validateMatchExpression (e : LabelSelectorRequirement) : Except ValidationError Unit :=
  let field := "spec.sources[].pvcSelector.labelSelector.matchExpressions[" ++ e.key ++ "]"
  match e.operator with
  | "In" | "NotIn" =>
    if (e.values.getD []).isEmpty then
      .error (.invalidFieldValue field ("operator `" ++ e.operator ++
        "` requires at least one value; an empty list renders as `" ++ e.key ++ " " ++
        e.operator.toLower ++ " ()`, which the API server rejects"))
    else .ok ()
  | "Exists" | "DoesNotExist" => .ok ()
  | other =>
    .error (.invalidFieldValue (field ++ ".operator") ("`" ++ other ++
      "` is not a label-selector operator. Fix: use In, NotIn, Exists or DoesNotExist"))

def validatePvcSelector (selector : PvcSelectorSpec) : Except ValidationError Unit :=
  if selector.namespaceSelector.any fun n => !n.matchNames.isEmpty then
    .error (.invalidFieldValue "spec.sources[].pvcSelector.namespaceSelector"
      ("a backup can only read PVCs in its own namespace. Fix: use one SnapshotPolicy per " ++
        "namespace (they can share a repository)"))
  else
    ((selector.labelSelector.bind (·.matchExpressions)).getD []).forM validateMatchExpression

namespace LabelSelectorRequirement

def setOperators : List String := ["In", "NotIn"]

def keyOperators : List String := ["Exists", "DoesNotExist"]

structure Spelled (e : LabelSelectorRequirement) : Prop where
  key : e.operator ∈ setOperators ++ keyOperators → validLabelKey e.key.toList = true
  values : e.operator ∈ setOperators →
    ∀ v ∈ e.values.getD [], validLabelValue v.toList = true

def Filled (e : LabelSelectorRequirement) : Prop :=
  e.operator ∈ setOperators → e.values.getD [] ≠ []

def requirement (e : LabelSelectorRequirement) : Option LabelRequirement :=
  match e.operator with
  | "In" => some ⟨e.key, .oneOf (e.values.getD [])⟩
  | "NotIn" => some ⟨e.key, .noneOf (e.values.getD [])⟩
  | "Exists" => some ⟨e.key, .present⟩
  | "DoesNotExist" => some ⟨e.key, .absent⟩
  | _ => none

theorem ok_iff (e : LabelSelectorRequirement) (labels : List (String × String)) :
    e.ok labels = true ↔ ∀ r ∈ e.requirement, r.Holds (labels.lookup ·) := by
  unfold ok requirement
  split
  all_goals simp only [Option.mem_some_iff, forall_eq', LabelRequirement.Holds,
    LabelRestriction.Holds]
  · cases labels.lookup e.key <;> simp
  · cases labels.lookup e.key with
    | none => simp
    | some v => simpa using ⟨fun h hv => h v hv rfl, fun h w hw hwv => h (hwv ▸ hw)⟩
  · exact Option.isNone_iff_eq_none
  · simp

theorem Spelled.term_reads {e : LabelSelectorRequirement} (hspelled : e.Spelled)
    (hfilled : e.Filled) :
    Option.Rel (fun term r => SelectorReads term.toList r) e.term e.requirement := by
  obtain ⟨hkey, hvalues⟩ := hspelled
  have hset : ∀ (op : List Char) (restriction : List String → LabelRestriction),
      e.operator ∈ setOperators → (∀ c ∈ op, c ∉ selectorMarks) → op ≠ [] →
      (∀ ts, restrictionOf (.word op :: .opened :: ts) = (labelValueSet ts).map restriction) →
      SelectorReads (e.key ++ (" " ++ String.ofList op ++ " (") ++
        String.intercalate "," (e.values.getD []) ++ ")").toList
        ⟨e.key, restriction (e.values.getD [])⟩ := by
    intro op restriction hop hchars hne hread
    have hvalid : ∀ v ∈ (e.values.getD []).map String.toList, validLabelValue v = true :=
      List.forall_mem_map.mpr (hvalues hop)
    have hreads := selectorReads_set (hkey (List.mem_append_left _ hop)) hchars hne hvalid
      (by simpa using hfilled hop) hread
    simpa [String.toList_append, Function.comp_def] using hreads
  have hplain : ∀ op : List Char, (∀ c ∈ op, isLabelNameChar c = true) →
      ∀ c ∈ op, c ∉ selectorMarks := fun _ hop c hc => not_mark_of_nameChar (hop c hc)
  unfold term requirement
  split
  case h_1 h =>
    exact .some (hset ['i', 'n'] .oneOf (by simp [h, setOperators])
      (hplain _ (List.all_eq_true.mp (by decide))) (by decide) fun _ => rfl)
  case h_2 h =>
    exact .some (hset ['n', 'o', 't', 'i', 'n'] .noneOf (by simp [h, setOperators])
      (hplain _ (List.all_eq_true.mp (by decide))) (by decide) fun _ => rfl)
  case h_3 h =>
    have hreads := selectorReads_present (hkey (by simp [h, keyOperators]))
    exact .some (by rwa [String.ofList_toList] at hreads)
  case h_4 h =>
    have hreads := selectorReads_absent (hkey (by simp [h, keyOperators]))
    rw [String.ofList_toList] at hreads
    exact .some (by simpa using hreads)
  case h_5 => exact .none

end LabelSelectorRequirement

namespace LabelSelector

structure Spelled (sel : LabelSelector) : Prop where
  labels : ∀ e ∈ sel.matchLabels.getD [],
    validLabelKey e.1.toList = true ∧ validLabelValue e.2.toList = true
  expressions : ∀ e ∈ sel.matchExpressions.getD [], e.Spelled

def Filled (sel : LabelSelector) : Prop := ∀ e ∈ sel.matchExpressions.getD [], e.Filled

def requirements (sel : LabelSelector) : List LabelRequirement :=
  (sel.matchLabels.getD []).map (fun (k, v) => ⟨k, .oneOf [v]⟩) ++
    (sel.matchExpressions.getD []).filterMap (·.requirement)

theorem labelsMatchSelector_iff (sel : LabelSelector) (labels : List (String × String)) :
    labelsMatchSelector labels sel = true ↔
      ∀ r ∈ sel.requirements, r.Holds (labels.lookup ·) := by
  have hlabels : ∀ e : String × String, (labels.lookup e.1 == some e.2) = true ↔
      LabelRequirement.Holds ⟨e.1, .oneOf [e.2]⟩ (labels.lookup ·) := by
    intro e
    cases h : labels.lookup e.1 <;>
      simp [LabelRequirement.Holds, LabelRestriction.Holds, h]
  rw [labelsMatchSelector, requirements, Bool.and_eq_true, List.all_eq_true, List.all_eq_true,
    List.forall_mem_append, List.forall_mem_map]
  refine and_congr (forall₂_congr fun e _ => hlabels e) ?_
  simp only [List.mem_filterMap, LabelSelectorRequirement.ok_iff]
  constructor
  · rintro h r ⟨e, he, hr⟩
    exact h e he r hr
  · exact fun h e he r hr => h r ⟨e, he, hr⟩

theorem parse_labelSelectorString {sel : LabelSelector} (hspelled : sel.Spelled)
    (hfilled : sel.Filled) : parseSelector (labelSelectorString sel) = some sel.requirements := by
  refine parseSelector_of_reads (List.rel_append ?_ ?_)
  · rw [List.forall₂_map_left_iff, List.forall₂_map_right_iff]
    refine List.forall₂_same.mpr fun e he => ?_
    obtain ⟨hkey, hvalue⟩ := hspelled.labels e he
    have hreads := selectorReads_equals hkey hvalue
    rw [String.ofList_toList, String.ofList_toList] at hreads
    simpa [String.toList_append] using hreads
  · refine List.rel_filterMap (R := fun e e' => e = e' ∧ e ∈ sel.matchExpressions.getD []) ?_
      (List.forall₂_same.mpr fun e he => ⟨rfl, he⟩)
    rintro e _ ⟨rfl, he⟩
    exact (hspelled.expressions e he).term_reads (hfilled e he)

end LabelSelector

/-- What the API server reads in the rendered string is what the predicate checks. -/
theorem labelSelectorString_admits_iff (sel : LabelSelector) (labels : List (String × String))
    (hspelled : sel.Spelled) (hfilled : sel.Filled) :
    SelectorAdmits (labelSelectorString sel) (labels.lookup ·) ↔
      labelsMatchSelector labels sel = true := by
  rw [sel.labelsMatchSelector_iff]
  constructor
  · rintro ⟨reqs, hreqs, hholds⟩
    rw [Option.mem_def, LabelSelector.parse_labelSelectorString hspelled hfilled,
      Option.some.injEq] at hreqs
    exact hreqs ▸ hholds
  · exact fun hholds => ⟨_, LabelSelector.parse_labelSelectorString hspelled hfilled, hholds⟩

/-- Objects without the key are not excluded. -/
theorem labelSelectorString_admits_unlabelled :
    SelectorAdmits (labelSelectorString
        { matchExpressions := some [⟨"tier", "NotIn", some ["gold", ""]⟩] })
      (([] : List (String × String)).lookup ·) := by
  refine (labelSelectorString_admits_iff _ [] ⟨by simp, ?_⟩ ?_).mpr (by decide)
  · simp only [Option.getD_some, List.forall_mem_singleton]
    exact ⟨fun _ => by decide, fun _ => by decide⟩
  · simp only [LabelSelector.Filled, Option.getD_some, List.forall_mem_singleton]
    exact fun _ => by simp

def commaSelector : LabelSelector := { matchLabels := some [("tier", "gold,app")] }

def emptySelector : LabelSelector := { matchExpressions := some [⟨"tier", "In", some []⟩] }

/-- An admitted value with a comma reads as a value and a key. A list without
values, which a schedule's selector may have, reads as one empty value. -/
theorem label_selector_readings_part :
    (validatePvcSelector { labelSelector := some commaSelector } = .ok () ∧
      SelectorAdmits (labelSelectorString commaSelector)
        ([("tier", "gold"), ("app", "db")].lookup ·) ∧
      labelsMatchSelector [("tier", "gold"), ("app", "db")] commaSelector = false) ∧
    (SelectorAdmits (labelSelectorString emptySelector) ([("tier", "")].lookup ·) ∧
      labelsMatchSelector [("tier", "")] emptySelector = false) := by
  refine ⟨⟨rfl, ?_, rfl⟩, ?_, rfl⟩
  · decide
  · decide

end Kopiur
