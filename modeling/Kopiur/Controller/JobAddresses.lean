import Kopiur.Api.GeneratedNames
import Kopiur.Controller.Hooks
import Kopiur.Controller.PinJobs

/-!
# How the Jobs of a run are addressed

A capture Job is created under the capped name of its Snapshot, and later passes
look it up, count it and clean up after it by a name they derive again. The Jobs
of pins and hooks take a suffix before the cap. The cleanup of a staged source
selects pods by the name without the cap, and a name with a suffix is also the
name that another Snapshot may have.
-/

namespace Kopiur

open Lib

def HookPhase.jobInfix : HookPhase → String
  | .before => "prehook"
  | .after => "posthook"

def hookJobNames (snapshotName : String) (phase : HookPhase) (index : Nat) :
    String × Option String :=
  let full := snapshotName ++ "-" ++ phase.jobInfix ++ "-" ++ Nat.repr index
  let current := cappedJobName full
  (current, legacyJobName (cappedName full) current)

def captureJobName (snapshot : String) : String := cappedJobName snapshot

inductive JobRole
  | capture
  | pin
  | hook (phase : HookPhase) (index : Nat)
deriving DecidableEq

namespace JobRole

def names (r : JobRole) (snapshot : String) : String × Option String :=
  match r with
  | .capture => (captureJobName snapshot, legacyJobName snapshot (captureJobName snapshot))
  | .pin => pinJobNames snapshot
  | .hook phase index => hookJobNames snapshot phase index

def jobName (r : JobRole) (snapshot : String) : String := (r.names snapshot).1

def suffix : JobRole → String
  | .capture => ""
  | .pin => "-pin"
  | .hook phase index => "-" ++ phase.jobInfix ++ "-" ++ Nat.repr index

def text (r : JobRole) (snapshot : String) : String := snapshot ++ r.suffix

end JobRole

section
variable {J : Type} (getJob : String → Option J)

def captureJob (snapshot : String) : Option J :=
  let current := cappedJobName snapshot
  match (legacyJobName snapshot current).bind getJob with
  | some job => some job
  | none => getJob current

def pinJob (snapshot : String) : Option J :=
  let (current, legacy) := pinJobNames snapshot
  match legacy.bind getJob with
  | some job => some job
  | none => getJob current

def hookJobName (snapshotName : String) (phase : HookPhase) (index : Nat) : String :=
  let (current, legacy) := hookJobNames snapshotName phase index
  match legacy.filter fun l => (getJob l).isSome with
  | some l => l
  | none => current

end

structure JobPod where
  name : String
  jobName : Option String
deriving DecidableEq

def podsOfJob (jobName : String) (pods : List JobPod) : List JobPod :=
  pods.filter fun pod => pod.jobName == some jobName

def stagedMoverPods (snapshotCr : String) (pods : List JobPod) : List JobPod :=
  pods.filter fun pod => pod.jobName == some snapshotCr

def poolGateJob (ns name : String) : String := jobKey ns (cappedJobName name)

structure SnapshotNames where
  snapshots : List String
  hooks : String → HookPhase → Nat
  valid : ∀ s ∈ snapshots, DnsSubdomain s

namespace SnapshotNames

def Has (w : SnapshotNames) (s : String) (r : JobRole) : Prop :=
  s ∈ w.snapshots ∧
    match r with
    | .capture | .pin => True
    | .hook phase index => index < w.hooks s phase

def Holds {J : Type} (w : SnapshotNames) (getJob : String → Option J) : Prop :=
  ∀ n, (getJob n).isSome = true → ∃ s r, w.Has s r ∧ n = r.jobName s

def HashesApart (w : SnapshotNames) : Prop :=
  ∀ s r s' r', w.Has s r → w.Has s' r' → jobNameMax < (r.text s).utf8ByteSize →
    jobNameMax < (r'.text s').utf8ByteSize → fnv1a (r.text s) = fnv1a (r'.text s') →
    r.text s = r'.text s'

/-- Every place addresses a Job under the name it was created under, and no two
Jobs share one. -/
structure Addressed (w : SnapshotNames) : Prop where
  capture_found : ∀ {J : Type} (getJob : String → Option J) (s : String), w.Holds getJob →
    w.Has s .capture → captureJob getJob s = getJob (JobRole.capture.jobName s)
  pin_found : ∀ {J : Type} (getJob : String → Option J) (s : String), w.Holds getJob →
    w.Has s .pin → pinJob getJob s = getJob (JobRole.pin.jobName s)
  hook_named : ∀ {J : Type} (getJob : String → Option J) (s : String) (phase : HookPhase)
    (index : Nat), w.Holds getJob → w.Has s (.hook phase index) →
      hookJobName getJob s phase index = (JobRole.hook phase index).jobName s
  cleaned : ∀ (s : String) (pods : List JobPod), w.Has s .capture →
    stagedMoverPods s pods = podsOfJob (JobRole.capture.jobName s) pods
  counted : ∀ (s ns : String), w.Has s .capture →
    poolGateJob ns s = jobKey ns (JobRole.capture.jobName s)
  distinct : ∀ s r s' r', w.Has s r → w.Has s' r' → r.jobName s = r'.jobName s' →
    s = s' ∧ r = r'

def ReadsAsHashed (short long : String) : Prop :=
  short = String.ofList (trimEndMatches (fun c => c == '-' || c == '.') (long.toList.take 40)) ++
    "-" ++ hex 16 (fnv1a long)

/-- No name is capped, no Snapshot is named as the pin or a hook of another, and
none reads as a name of theirs that is capped. -/
structure Plain (w : SnapshotNames) : Prop where
  short : ∀ s ∈ w.snapshots, s.utf8ByteSize ≤ jobNameMax
  no_suffix : ∀ s r, w.Has s r → r ≠ .capture → r.text s ∉ w.snapshots
  no_hashed : ∀ s r s' r', w.Has s r → w.Has s' r' → (r.text s).utf8ByteSize ≤ jobNameMax →
    jobNameMax < (r'.text s').utf8ByteSize → ¬ ReadsAsHashed (r.text s) (r'.text s')

end SnapshotNames

-- Names before the cap

theorem JobRole.jobName_eq (r : JobRole) (s : String) : r.jobName s = cappedJobName (r.text s) := by
  cases r with
  | capture => exact congrArg cappedJobName (String.append_empty).symm
  | pin => rfl
  | hook phase index =>
    simp only [jobName, names, hookJobNames, text, suffix, String.append_assoc]

theorem JobRole.text_capture (s : String) : JobRole.capture.text s = s := String.append_empty

theorem isLabelEnd_of_mem_digits {n : Nat} {c : Char} (h : c ∈ Nat.toDigits 10 n) :
    isLabelEnd c = true := by
  have hdigit := Nat.isDigit_of_mem_toDigits (by decide) (by decide) h
  rw [isLabelEnd, hdigit, Bool.or_true]

theorem jobInfix_chars (phase : HookPhase) : ∀ c ∈ phase.jobInfix.toList, isLabelEnd c = true := by
  cases phase with
  | before => exact List.all_eq_true.mp rfl
  | after => exact List.all_eq_true.mp rfl

theorem JobRole.text_hook (s : String) (phase : HookPhase) (index : Nat) :
    ((JobRole.hook phase index).text s).toList =
      (s.toList ++ '-' :: phase.jobInfix.toList) ++ '-' :: Nat.toDigits 10 index := by
  simp [text, suffix, Nat.repr]

theorem JobRole.text_pin (s : String) :
    (JobRole.pin.text s).toList = s.toList ++ '-' :: "pin".toList := by
  simp [text, suffix]

theorem JobRole.text_labels {s : String} (h : DnsLabels s) (r : JobRole) :
    DnsLabels (r.text s) := by
  have hdotted := dnsLabels_iff.mp h
  cases r with
  | capture => rwa [text_capture]
  | pin =>
    have htag : ∀ c ∈ "pin".toList, isLabelEnd c = true := List.all_eq_true.mp rfl
    have hplain : ∀ c ∈ ([] : List Char), Lib.isLabelChar c = true := fun c hc => by cases hc
    rw [dnsLabels_iff, text_pin]
    exact joined_tag hdotted.toBegun (last_ne_dot hdotted) hplain htag (by decide)
  | hook phase index =>
    have hplain : ∀ c ∈ phase.jobInfix.toList ++ ['-'], Lib.isLabelChar c = true := by
      intro c hc
      rcases List.mem_append.mp hc with hc | hc
      · exact isLabelChar_of_end (jobInfix_chars phase c hc)
      · rw [List.mem_singleton.mp hc]
        rfl
    have hjoined := joined_tag hdotted.toBegun (last_ne_dot hdotted) hplain
      (fun c (hc : c ∈ Nat.toDigits 10 index) => isLabelEnd_of_mem_digits hc) Nat.toDigits_ne_nil
    rw [dnsLabels_iff, text_hook]
    simpa using hjoined

theorem dash_not_mem_digits (n : Nat) : '-' ∉ Nat.toDigits 10 n :=
  fun h => isLabelEnd_ne_dash (isLabelEnd_of_mem_digits h) rfl

theorem jobInfix_dashless (phase : HookPhase) : '-' ∉ phase.jobInfix.toList :=
  fun h => isLabelEnd_ne_dash (jobInfix_chars phase _ h) rfl

theorem jobInfix_inj {phase phase' : HookPhase}
    (h : phase.jobInfix.toList = phase'.jobInfix.toList) : phase = phase' := by
  cases phase <;> cases phase' <;> first | rfl | exact absurd h (by decide)

theorem text_hook_inj {s s' : String} {phase phase' : HookPhase} {index index' : Nat}
    (h : (JobRole.hook phase index).text s = (JobRole.hook phase' index').text s') :
    s = s' ∧ phase = phase' ∧ index = index' := by
  have hlist := congrArg String.toList h
  rw [JobRole.text_hook, JobRole.text_hook] at hlist
  obtain ⟨hstart, hdigits⟩ :=
    append_cons_inj_right (dash_not_mem_digits index) (dash_not_mem_digits index') hlist
  obtain ⟨hname, hinfix⟩ :=
    append_cons_inj_right (jobInfix_dashless phase) (jobInfix_dashless phase') hstart
  have hindex : Nat.ofDigitChars 10 (Nat.toDigits 10 index) 0 =
      Nat.ofDigitChars 10 (Nat.toDigits 10 index') 0 := by rw [hdigits]
  rw [Nat.ofDigitChars_ten_toDigits, Nat.ofDigitChars_ten_toDigits] at hindex
  exact ⟨String.toList_inj.mp hname, jobInfix_inj hinfix, hindex⟩

theorem text_pin_ne_hook (s s' : String) (phase : HookPhase) (index : Nat) :
    JobRole.pin.text s ≠ (JobRole.hook phase index).text s' := by
  intro h
  have hlist := congrArg String.toList h
  rw [JobRole.text_pin, JobRole.text_hook] at hlist
  have hdash : '-' ∉ "pin".toList := by decide
  obtain ⟨-, hpin⟩ := append_cons_inj_right hdash (dash_not_mem_digits index) hlist
  have hdigit : 'p' ∈ Nat.toDigits 10 index := hpin ▸ List.mem_cons_self
  exact absurd (Nat.isDigit_of_mem_toDigits (by decide) (by decide) hdigit) (by decide)

/-- Two Jobs have one text only if they are the same, or the text is the name of
a Snapshot. -/
theorem text_cases {s s' : String} {r r' : JobRole} (h : r.text s = r'.text s') :
    (s = s' ∧ r = r') ∨ (r = .capture ∧ r' ≠ .capture ∧ s = r'.text s') ∨
      (r' = .capture ∧ r ≠ .capture ∧ s' = r.text s) := by
  cases r with
  | capture =>
    rw [JobRole.text_capture] at h
    cases r' with
    | capture => exact .inl ⟨h.trans (JobRole.text_capture s'), rfl⟩
    | pin => exact .inr (.inl ⟨rfl, by decide, h⟩)
    | hook phase index => exact .inr (.inl ⟨rfl, (fun hr => by cases hr), h⟩)
  | pin =>
    cases r' with
    | capture =>
      rw [JobRole.text_capture] at h
      exact .inr (.inr ⟨rfl, by decide, h.symm⟩)
    | pin => exact .inl ⟨(String.append_left_inj _).mp h, rfl⟩
    | hook phase index => exact absurd h (text_pin_ne_hook s s' phase index)
  | hook phase index =>
    cases r' with
    | capture =>
      rw [JobRole.text_capture] at h
      exact .inr (.inr ⟨rfl, (fun hr => by cases hr), h.symm⟩)
    | pin => exact absurd h.symm (text_pin_ne_hook s' s phase index)
    | hook phase' index' =>
      obtain ⟨hname, rfl, rfl⟩ := text_hook_inj h
      exact .inl ⟨hname, rfl⟩

-- Capped names

theorem hexDigit_inj {a b : Nat} (ha : a < 16) (hb : b < 16) (h : hexDigit a = hexDigit b) :
    a = b := by
  have hall : ∀ a < 16, ∀ b < 16, hexDigit a = hexDigit b → a = b := by decide
  exact hall a ha b hb h

theorem mod_pow_eq {n m : Nat} : ∀ {width : Nat}, (∀ i < width, n / 16 ^ i % 16 = m / 16 ^ i % 16) →
    n % 16 ^ width = m % 16 ^ width
  | 0, _ => by rw [Nat.pow_zero, Nat.mod_one, Nat.mod_one]
  | width + 1, h => by
    have hrest : n % 16 ^ width = m % 16 ^ width :=
      mod_pow_eq fun i hi => h i (Nat.lt_succ_of_lt hi)
    rw [Nat.mod_pow_succ, Nat.mod_pow_succ, hrest, h width (Nat.lt_succ_self width)]

theorem hex_inj {width n m : Nat} (h : hex width n = hex width m) :
    n % 16 ^ width = m % 16 ^ width := by
  have hlist := congrArg String.toList h
  simp only [hex, String.toList_ofList] at hlist
  refine mod_pow_eq fun i hi => ?_
  have hmem : i ∈ (List.range width).reverse := List.mem_reverse.mpr (List.mem_range.mpr hi)
  have hdigits := List.map_inj_left.mp hlist i hmem
  exact hexDigit_inj (Nat.mod_lt _ (by decide)) (Nat.mod_lt _ (by decide)) hdigits

theorem fnv1a_lt (s : String) : fnv1a s < 2 ^ 64 := by
  unfold fnv1a
  generalize utf8Bytes s = bytes
  have hfold : ∀ h, h < 2 ^ 64 →
      bytes.foldl (fun h b => (h ^^^ b.toNat) * 0x100000001b3 % 2 ^ 64) h < 2 ^ 64 := by
    induction bytes with
    | nil => exact fun h hh => hh
    | cons b rest ih => exact fun h _ => ih _ (Nat.mod_lt _ (by decide))
  exact hfold _ (by decide)

theorem dash_not_mem_hex (width n : Nat) : '-' ∉ (hex width n).toList :=
  fun h => isLabelEnd_ne_dash (isLabelEnd_of_mem_hex h) rfl

theorem cappedJobName_short {full : String} (h : full.utf8ByteSize ≤ jobNameMax) :
    cappedJobName full = full := if_pos h

theorem readsAsHashed_iff {name full : String} (h : jobNameMax < full.utf8ByteSize) :
    SnapshotNames.ReadsAsHashed name full ↔ name = cappedJobName full := by
  rw [SnapshotNames.ReadsAsHashed, cappedJobName, if_neg (Nat.not_le.mpr h)]
  rfl

theorem fnv1a_eq_of_capped {full full' : String} (h : jobNameMax < full.utf8ByteSize)
    (h' : jobNameMax < full'.utf8ByteSize) (heq : cappedJobName full = cappedJobName full') :
    fnv1a full = fnv1a full' := by
  rw [cappedJobName, cappedJobName, if_neg (Nat.not_le.mpr h), if_neg (Nat.not_le.mpr h')] at heq
  have hlist := congrArg String.toList heq
  simp only [String.toList_append, String.toList_ofList, List.append_assoc] at hlist
  obtain ⟨-, hhex⟩ := append_cons_inj_right (c := '-') (dash_not_mem_hex 16 _)
    (dash_not_mem_hex 16 _) hlist
  have hmod : fnv1a full % 2 ^ 64 = fnv1a full' % 2 ^ 64 := hex_inj (String.toList_inj.mp hhex)
  rwa [Nat.mod_eq_of_lt (fnv1a_lt full), Nat.mod_eq_of_lt (fnv1a_lt full')] at hmod

theorem short_of_capped_eq {full : String} (h : DnsLabels full) (heq : cappedJobName full = full) :
    full.utf8ByteSize ≤ jobNameMax := heq ▸ cappedJobName_size h

/-- Cut at 46 and cut at 40 characters, a name ends alike unless more than 40
characters are kept of it. -/
theorem trimmed_cut {l : List Char} (hl : Begun (l.take 46)) (hlen : 46 ≤ l.length)
    (hkept : (trimEndMatches (fun c => c == '-') (l.take 46)).length ≤ 40) :
    trimEndMatches (fun c => c == '-') (l.take 46) =
      trimEndMatches (fun c => c == '-' || c == '.') (l.take 40) := by
  obtain ⟨rest, hdashes, hsplit⟩ :=
    exists_append_trimEndMatches (fun c => c == '-') (l.take 46)
  have hne : rest ≠ [] := by
    rintro rfl
    rw [List.append_nil] at hsplit
    rw [← hsplit, List.length_take] at hkept
    omega
  have hdash : (l.take 46).getLast? = some '-' := by
    rw [hsplit, List.getLast?_append_of_ne_nil _ hne, List.getLast?_eq_some_getLast hne]
    exact congrArg some (beq_iff_eq.mp (hdashes _ (List.getLast_mem hne)))
  have hdotted := dotted_trim_dashes hl (by rw [hdash]; decide)
  generalize trimEndMatches (fun c => c == '-') (l.take 46) = kept at hkept hsplit hdotted ⊢
  have hcut : l.take 40 = kept ++ rest.take (40 - kept.length) := by
    have htake : (l.take 46).take 40 = l.take 40 := List.take_take
    rw [← htake, hsplit, List.take_append, List.take_of_length_le hkept]
  rw [hcut]
  obtain ⟨c, hc, hend⟩ := hdotted.last
  have hends : trimEndMatches (fun c => c == '-' || c == '.') kept = kept := by
    refine trimEndMatches_eq_self ⟨c, hc, ?_⟩
    rw [beq_eq_false_iff_ne.mpr (isLabelEnd_ne_dash hend),
      beq_eq_false_iff_ne.mpr (isLabelEnd_ne_dot hend), Bool.or_false]
  have hcutoff : ∀ d ∈ rest.take (40 - kept.length), (d == '-' || d == '.') = true := by
    intro d hd
    rw [hdashes d (List.mem_of_mem_take hd), Bool.true_or]
  exact ((trimEndMatches_append_of_forall hcutoff).trans hends).symm

theorem older_hook_long {full older : String} (h : DnsLabels full)
    (holder : legacyJobName (cappedName full) (cappedJobName full) = some older) :
    jobNameMax < older.utf8ByteSize := by
  obtain ⟨⟨hne, -⟩, rfl⟩ := by
    rw [legacyJobName, Option.ite_none_right_eq_some, Option.some.injEq] at holder
    exact holder
  by_contra hshort
  rw [Nat.not_lt] at hshort
  by_cases hfull : full.utf8ByteSize ≤ 63
  · have hself : cappedName full = full := if_pos hfull
    rw [hself] at hshort hne
    exact hne (cappedJobName_short hshort).symm
  · have hlong : ¬ full.utf8ByteSize ≤ jobNameMax := fun hle => hfull (hle.trans (by decide))
    have hcut : cappedName full =
        String.ofList (trimEndMatches (fun c => c == '-') (full.toList.take 46)) ++ "-" ++
          hex 16 (fnv1a full) := if_neg hfull
    have hchars := size_of_chars fun c hc => (dnsLabels_iff.mp h).chars c
      (List.mem_of_mem_take ((trimEndMatches_sublist (fun c => c == '-')
        (full.toList.take 46)).subset hc))
    have hdash : "-".utf8ByteSize = 1 := rfl
    rw [hcut, String.utf8ByteSize_append, String.utf8ByteSize_append, utf8ByteSize_hex, hchars,
      hdash] at hshort
    have hlen : 46 ≤ full.toList.length := by
      rw [← size_eq_length h]
      omega
    have hkept : (trimEndMatches (fun c => c == '-') (full.toList.take 46)).length ≤ 40 := by
      unfold jobNameMax at hshort
      omega
    have htrim := trimmed_cut (begun_take h (by decide)) hlen hkept
    refine hne ?_
    rw [hcut, htrim, cappedJobName, if_neg hlong]
    rfl

theorem older_text_long {full older : String}
    (holder : legacyJobName full (cappedJobName full) = some older) :
    jobNameMax < older.utf8ByteSize := by
  rw [legacyJobName, Option.ite_none_right_eq_some, Option.some.injEq] at holder
  obtain ⟨⟨hne, -⟩, rfl⟩ := holder
  by_contra hshort
  exact hne (cappedJobName_short (Nat.not_lt.mp hshort)).symm

theorem JobRole.older_long {r : JobRole} {s older : String} (h : DnsLabels s)
    (holder : (r.names s).2 = some older) : jobNameMax < older.utf8ByteSize := by
  cases r with
  | capture => exact older_text_long holder
  | pin => exact older_text_long holder
  | hook phase index =>
    have htext : s ++ "-" ++ phase.jobInfix ++ "-" ++ Nat.repr index =
        (JobRole.hook phase index).text s := by
      simp only [text, suffix, String.append_assoc]
    simp only [names, hookJobNames, htext] at holder
    exact older_hook_long (text_labels h _) holder

namespace SnapshotNames

variable {w : SnapshotNames} {J : Type} {getJob : String → Option J} {s s' : String}
  {r r' : JobRole}

theorem Has.labels (h : w.Has s r) : DnsLabels (r.text s) := JobRole.text_labels (w.valid s h.1).2 r

theorem Has.jobName_size (h : w.Has s r) : (r.jobName s).utf8ByteSize ≤ jobNameMax := by
  rw [r.jobName_eq]
  exact cappedJobName_size h.labels

theorem Holds.older_free (hjobs : w.Holds getJob) (h : w.Has s r) :
    (r.names s).2.bind getJob = none := by
  cases holder : (r.names s).2 with
  | none => rfl
  | some older =>
    rw [Option.bind_some]
    by_contra hjob
    obtain ⟨s', r', hhas, rfl⟩ := hjobs older (Option.isSome_iff_ne_none.mpr hjob)
    have hlong := JobRole.older_long (w.valid s h.1).2 holder
    exact absurd hhas.jobName_size (Nat.not_le.mpr hlong)

theorem Holds.capture_found (hjobs : w.Holds getJob) (h : w.Has s .capture) :
    captureJob getJob s = getJob (JobRole.capture.jobName s) := by
  have hfree : (legacyJobName s (cappedJobName s)).bind getJob = none := hjobs.older_free h
  rw [captureJob, hfree]
  rfl

theorem Holds.pin_found (hjobs : w.Holds getJob) (h : w.Has s .pin) :
    pinJob getJob s = getJob (JobRole.pin.jobName s) := by
  have hfree : (pinJobNames s).2.bind getJob = none := hjobs.older_free h
  change (match (pinJobNames s).2.bind getJob with
    | some job => some job
    | none => getJob (pinJobNames s).1) = _
  rw [hfree]
  rfl

theorem Holds.hook_named {phase : HookPhase} {index : Nat} (hjobs : w.Holds getJob)
    (h : w.Has s (.hook phase index)) :
    hookJobName getJob s phase index = (JobRole.hook phase index).jobName s := by
  have hfree : (hookJobNames s phase index).2.bind getJob = none := hjobs.older_free h
  have hnone : (hookJobNames s phase index).2.filter (fun l => (getJob l).isSome) = none := by
    rw [Option.filter_eq_none_iff]
    intro older holder
    rw [holder, Option.bind_some] at hfree
    rw [hfree]
    exact Bool.false_ne_true
  change (match (hookJobNames s phase index).2.filter fun l => (getJob l).isSome with
    | some l => l
    | none => (hookJobNames s phase index).1) = _
  rw [hnone]
  rfl

-- The condition

theorem Plain.distinct (h : w.Plain) (hashes : w.HashesApart) (hhas : w.Has s r)
    (hhas' : w.Has s' r') (heq : r.jobName s = r'.jobName s') : s = s' ∧ r = r' := by
  rw [r.jobName_eq, r'.jobName_eq] at heq
  have htext : r.text s = r'.text s' := by
    by_cases hshort : (r.text s).utf8ByteSize ≤ jobNameMax
    · rw [cappedJobName_short hshort] at heq
      by_cases hshort' : (r'.text s').utf8ByteSize ≤ jobNameMax
      · rwa [cappedJobName_short hshort'] at heq
      · rw [Nat.not_le] at hshort'
        exact absurd ((readsAsHashed_iff hshort').mpr heq)
          (h.no_hashed s r s' r' hhas hhas' hshort hshort')
    · rw [Nat.not_le] at hshort
      by_cases hshort' : (r'.text s').utf8ByteSize ≤ jobNameMax
      · rw [cappedJobName_short hshort'] at heq
        exact absurd ((readsAsHashed_iff hshort).mpr heq.symm)
          (h.no_hashed s' r' s r hhas' hhas hshort' hshort)
      · rw [Nat.not_le] at hshort'
        exact hashes s r s' r' hhas hhas' hshort hshort' (fnv1a_eq_of_capped hshort hshort' heq)
  rcases text_cases htext with hsame | ⟨-, hr, rfl⟩ | ⟨-, hr, rfl⟩
  · exact hsame
  · exact absurd hhas.1 (h.no_suffix s' r' hhas' hr)
  · exact absurd hhas'.1 (h.no_suffix s r hhas hr)

theorem Plain.addressed (h : w.Plain) (hashes : w.HashesApart) : w.Addressed where
  capture_found _ _ hjobs hhas := hjobs.capture_found hhas
  pin_found _ _ hjobs hhas := hjobs.pin_found hhas
  hook_named _ _ _ _ hjobs hhas := hjobs.hook_named hhas
  cleaned s pods hhas := by
    have hname : JobRole.capture.jobName s = s := cappedJobName_short (h.short s hhas.1)
    rw [hname]
    rfl
  counted _ _ _ := rfl
  distinct _ _ _ _ hhas hhas' heq := h.distinct hashes hhas hhas' heq

theorem Addressed.capture_uncapped (h : w.Addressed) (hs : s ∈ w.snapshots) :
    cappedJobName s = s := by
  have hcleaned := h.cleaned s [⟨s ++ "-0", some s⟩] ⟨hs, trivial⟩
  have hmine : stagedMoverPods s [⟨s ++ "-0", some s⟩] = [⟨s ++ "-0", some s⟩] := by
    simp [stagedMoverPods]
  rw [hmine] at hcleaned
  have hmem : (⟨s ++ "-0", some s⟩ : JobPod) ∈
      podsOfJob (JobRole.capture.jobName s) [⟨s ++ "-0", some s⟩] :=
    hcleaned ▸ List.mem_singleton_self _
  have hlabel := (List.mem_filter.mp hmem).2
  exact (Option.some.inj (beq_iff_eq.mp hlabel)).symm

theorem Addressed.plain (h : w.Addressed) : w.Plain where
  short s hs := short_of_capped_eq (w.valid s hs).2 (h.capture_uncapped hs)
  no_suffix s r hhas hr hs := by
    have hname : JobRole.capture.jobName (r.text s) = r.jobName s := (r.jobName_eq s).symm
    exact hr (h.distinct (r.text s) .capture s r ⟨hs, trivial⟩ hhas hname).2.symm
  no_hashed s r s' r' hhas hhas' hshort hlong hread := by
    have hname : r.jobName s = r'.jobName s' := by
      rw [r.jobName_eq, r'.jobName_eq, cappedJobName_short hshort]
      exact (readsAsHashed_iff hlong).mp hread
    obtain ⟨rfl, rfl⟩ := h.distinct s r s' r' hhas hhas' hname
    exact absurd hshort (Nat.not_le.mpr hlong)

/-- The Jobs of a namespace are addressed by their names exactly if these are
plain, where the hash tells its names apart. -/
theorem addressed_iff_plain (w : SnapshotNames) (hashes : w.HashesApart) :
    w.Addressed ↔ w.Plain :=
  ⟨Addressed.plain, fun h => h.addressed hashes⟩

theorem hashesApart_of_short
    (h : ∀ s r, w.Has s r → (r.text s).utf8ByteSize ≤ jobNameMax) : w.HashesApart :=
  fun s r _ _ hhas _ hlong _ _ => absurd (h s r hhas) (Nat.not_le.mpr hlong)

/-- Two Snapshots with one hook in each list. -/
def twoRuns : SnapshotNames where
  snapshots := ["db-1", "db-2"]
  hooks _ _ := 1
  valid s hs := by
    rcases List.mem_pair.mp hs with rfl | rfl
    · exact ⟨by decide, dnsLabels_of_chars ⟨'d', rfl, rfl⟩ ⟨'1', rfl, rfl⟩ rfl⟩
    · exact ⟨by decide, dnsLabels_of_chars ⟨'d', rfl, rfl⟩ ⟨'2', rfl, rfl⟩ rfl⟩

theorem twoRuns_short (hhas : twoRuns.Has s r) :
    (r.text s).utf8ByteSize ≤ jobNameMax ∧ (r ≠ .capture → r.text s ∉ twoRuns.snapshots) := by
  obtain ⟨hs, hr⟩ := hhas
  cases r with
  | capture => rcases List.mem_pair.mp hs with rfl | rfl <;> decide
  | pin => rcases List.mem_pair.mp hs with rfl | rfl <;> decide
  | hook phase index =>
    obtain rfl := Nat.lt_one_iff.mp hr
    cases phase <;> rcases List.mem_pair.mp hs with rfl | rfl <;> decide

theorem twoRuns_addressed : twoRuns.HashesApart ∧ twoRuns.Addressed := by
  have hashes : twoRuns.HashesApart := hashesApart_of_short fun _ _ hhas => (twoRuns_short hhas).1
  refine ⟨hashes, (addressed_iff_plain twoRuns hashes).mpr ⟨fun s hs => ?_, fun s r hhas => ?_,
    fun s r s' r' _ hhas' _ hlong => ?_⟩⟩
  · have hsize := (twoRuns_short (r := .capture) ⟨hs, trivial⟩).1
    rwa [JobRole.text_capture] at hsize
  · exact (twoRuns_short hhas).2
  · exact absurd (twoRuns_short hhas').1 (Nat.not_le.mpr hlong)

/-- One Snapshot whose name of 60 bytes is capped. -/
def longRun : SnapshotNames where
  snapshots := ["media-photos-nightly-2026-06-01t02-00-00z-pvc-originals-1a2b"]
  hooks _ _ := 0
  valid s hs := by
    obtain rfl := List.mem_singleton.mp hs
    exact ⟨by decide, dnsLabels_of_chars ⟨'m', rfl, rfl⟩ ⟨'b', rfl, rfl⟩ rfl⟩

theorem longRun_hashesApart : longRun.HashesApart := by
  have hne : fnv1a "media-photos-nightly-2026-06-01t02-00-00z-pvc-originals-1a2b" ≠
      fnv1a "media-photos-nightly-2026-06-01t02-00-00z-pvc-originals-1a2b-pin" := by
    decide +kernel
  intro s r s' r' hhas hhas' _ _ heq
  obtain rfl := List.mem_singleton.mp hhas.1
  obtain rfl := List.mem_singleton.mp hhas'.1
  cases r with
  | capture =>
    cases r' with
    | capture => rfl
    | pin => exact absurd heq hne
    | hook phase index => exact absurd hhas'.2 (Nat.not_lt_zero index)
  | pin =>
    cases r' with
    | capture => exact absurd heq.symm hne
    | pin => rfl
    | hook phase index => exact absurd hhas'.2 (Nat.not_lt_zero index)
  | hook phase index => exact absurd hhas.2 (Nat.not_lt_zero index)

/-- A Snapshot named as the pin of another. -/
def pinNamed : SnapshotNames where
  snapshots := ["db", "db-pin"]
  hooks _ _ := 0
  valid s hs := by
    rcases List.mem_pair.mp hs with rfl | rfl
    · exact ⟨by decide, dnsLabels_of_chars ⟨'d', rfl, rfl⟩ ⟨'b', rfl, rfl⟩ rfl⟩
    · exact ⟨by decide, dnsLabels_of_chars ⟨'d', rfl, rfl⟩ ⟨'n', rfl, rfl⟩ rfl⟩

theorem pinNamed_hashesApart : pinNamed.HashesApart := by
  refine hashesApart_of_short fun s r hhas => ?_
  obtain ⟨hs, hr⟩ := hhas
  cases r with
  | capture => rcases List.mem_pair.mp hs with rfl | rfl <;> decide
  | pin => rcases List.mem_pair.mp hs with rfl | rfl <;> decide
  | hook phase index => exact absurd hr (Nat.not_lt_zero index)

/-- The pods of a capped name are not cleaned up, and a pin shares its Job with
the run of another Snapshot. -/
theorem jobs_misaddressed : longRun.HashesApart ∧ ¬ longRun.Addressed ∧
    pinNamed.HashesApart ∧ ¬ pinNamed.Addressed := by
  refine ⟨longRun_hashesApart, fun h => ?_, pinNamed_hashesApart, fun h => ?_⟩
  · exact absurd (h.plain.short _ List.mem_cons_self) (by decide)
  · exact h.plain.no_suffix "db" .pin ⟨List.mem_cons_self, trivial⟩ (by decide) (by decide)

end SnapshotNames

end Kopiur
