import Kopiur.Api.MintedCells

/-!
# Firing a slot

One firing mints the children of one policy for one slot of a schedule. Their
names are joined from the schedule, the policy and the slot, so two firings can
only meet in a name when these join to the same text.
-/

namespace Kopiur

open Lib

def yearSign (t : DateTime) : List Char :=
  if t.year < 0 then ['-'] else if t.year ≤ 9999 then [] else ['+']

def stampDigits (t : DateTime) : List Char :=
  zeroPadded 4 t.year.natAbs ++ zeroPadded 2 t.month.toNat ++ zeroPadded 2 t.date.day.toNat ++
    zeroPadded 2 t.hour.toNat ++ zeroPadded 2 t.minute.toNat ++ zeroPadded 2 t.second.toNat

/-- `%Y%m%d%H%M%S` -/
def slotStamp (t : DateTime) : String := String.ofList (yearSign t ++ stampDigits t)

theorem isDigit_of_mem_stampDigits {t : DateTime} {c : Char} (h : c ∈ stampDigits t) :
    c.isDigit = true := by
  simp only [stampDigits, List.mem_append] at h
  rcases h with ((((h | h) | h) | h) | h) | h <;> exact isDigit_of_mem_zeroPadded h

theorem length_stampDigits (t : DateTime) : 14 ≤ (stampDigits t).length := by
  have hyear : 4 ≤ (zeroPadded 4 t.year.natAbs).length := width_le_length_zeroPadded
  have htwo : ∀ n, 2 ≤ (zeroPadded 2 n).length := fun n => width_le_length_zeroPadded
  have h1 := htwo t.month.toNat
  have h2 := htwo t.date.day.toNat
  have h3 := htwo t.hour.toNat
  have h4 := htwo t.minute.toNat
  have h5 := htwo t.second.toNat
  simp only [stampDigits, List.length_append]
  omega

def TwoDigits (n : Int) : Prop := 0 ≤ n ∧ n < 100

theorem TwoDigits.length {n : Int} (h : TwoDigits n) : (zeroPadded 2 n.toNat).length = 2 := by
  obtain ⟨h0, h1⟩ := h
  exact length_zeroPadded (by decide) (by omega)

theorem TwoDigits.eq {m n : Int} (hm : TwoDigits m) (hn : TwoDigits n)
    (h : zeroPadded 2 m.toNat = zeroPadded 2 n.toNat) : m = n := by
  have heq := zeroPadded_injective h
  obtain ⟨hm0, -⟩ := hm
  obtain ⟨hn0, -⟩ := hn
  omega

theorem twoDigits_fields (t : DateTime) :
    TwoDigits t.month ∧ TwoDigits t.date.day ∧ TwoDigits t.hour ∧ TwoDigits t.minute ∧
      TwoDigits t.second := by
  obtain ⟨⟨hm0, hm1⟩, hd0, hd1⟩ := civilFromDays_bounds t.days
  have hs0 : 0 ≤ t.secondOfDay := Int.emod_nonneg _ (by decide)
  have hs1 : t.secondOfDay < 86400 := Int.emod_lt_of_pos _ (by decide)
  simp only [TwoDigits, DateTime.month, DateTime.date, DateTime.hour, DateTime.minute,
    DateTime.second]
  omega

theorem yearSign_cases (t : DateTime) :
    t.year < 0 ∧ yearSign t = ['-'] ∨ (0 ≤ t.year ∧ t.year ≤ 9999) ∧ yearSign t = [] ∨
      9999 < t.year ∧ yearSign t = ['+'] := by
  simp only [yearSign]
  split
  case isTrue h => exact .inl ⟨h, rfl⟩
  case isFalse h0 =>
    split
    case isTrue h => exact .inr (.inl ⟨⟨not_lt.mp h0, h⟩, rfl⟩)
    case isFalse h => exact .inr (.inr ⟨not_le.mp h, rfl⟩)

theorem timestamp_eq_of_stamp {t u : DateTime} (hdigits : stampDigits t = stampDigits u)
    (hsign : yearSign t = yearSign u) : t.timestamp = u.timestamp := by
  obtain ⟨htmo, htd, hth, htmi, hts⟩ := twoDigits_fields t
  obtain ⟨humo, hud, huh, humi, hus⟩ := twoDigits_fields u
  simp only [stampDigits] at hdigits
  obtain ⟨hdigits, hsecond⟩ := List.append_inj' hdigits (hts.length.trans hus.length.symm)
  obtain ⟨hdigits, hminute⟩ := List.append_inj' hdigits (htmi.length.trans humi.length.symm)
  obtain ⟨hdigits, hhour⟩ := List.append_inj' hdigits (hth.length.trans huh.length.symm)
  obtain ⟨hdigits, hday⟩ := List.append_inj' hdigits (htd.length.trans hud.length.symm)
  obtain ⟨hyear, hmonth⟩ := List.append_inj' hdigits (htmo.length.trans humo.length.symm)
  have habs := zeroPadded_injective hyear
  have hyear' : t.year = u.year := by
    rcases yearSign_cases t with ⟨ht, hst⟩ | ⟨ht, hst⟩ | ⟨ht, hst⟩ <;>
      rcases yearSign_cases u with ⟨hu, hsu⟩ | ⟨hu, hsu⟩ | ⟨hu, hsu⟩ <;>
        simp [hst, hsu] at hsign <;> omega
  have hdate : t.date = u.date := by
    have hy : t.date.year = u.date.year := hyear'
    have hm : t.date.month = u.date.month := htmo.eq humo hmonth
    have hd := htd.eq hud hday
    cases ht : t.date
    cases hu : u.date
    simp_all
  exact DateTime.timestamp_eq_of_fields hdate (hth.eq huh hhour) (htmi.eq humi hminute)
    (hts.eq hus hsecond)

theorem slotStamp_eq_of_timestamp {t u : DateTime} (h : t.timestamp = u.timestamp) :
    slotStamp t = slotStamp u := by
  have hdate : t.date = u.date := by simp [DateTime.date, DateTime.days, h]
  have hsecond : t.secondOfDay = u.secondOfDay := by simp [DateTime.secondOfDay, h]
  have hyear : t.year = u.year := congrArg Date.year hdate
  have hsign : yearSign t = yearSign u := by
    unfold yearSign
    rw [hyear]
  simp only [slotStamp, hsign, hyear, stampDigits, DateTime.month, DateTime.hour, DateTime.minute,
    DateTime.second, hdate, hsecond]

-- The children of a slot

def scheduledBackupName (schedule : String) (slot : DateTime) : String :=
  schedule ++ "-" ++ slotStamp slot

def fanoutCap : Nat := 400

def fanoutCapExceeded (members repos : Nat) : Bool := decide (members * repos > fanoutCap)

structure FanoutCapSkip where
  policy : String
  members : Nat
  repos : Nat
deriving DecidableEq

inductive SlotMintPlan
  | nothingMatched
  | capSkipped (skip : FanoutCapSkip)
  | mint (cells : List MintCell)
deriving DecidableEq

def slotMintPlan (policy : SnapshotPolicy) (policyName baseName : String)
    (members : Option (List ExpandedMember)) : SlotMintPlan :=
  if members.any List.isEmpty then .nothingMatched
  else
    let memberCount := (members.map List.length).getD 1
    let repoCount := max policy.spec.repositories.length 1
    if fanoutCapExceeded memberCount repoCount then
      .capSkipped ⟨policyName, memberCount, repoCount⟩
    else .mint (mintCells policy baseName members)

theorem cells_of_slotMintPlan {policy : SnapshotPolicy} {policyName baseName : String}
    {members : Option (List ExpandedMember)} {cells : List MintCell}
    (h : slotMintPlan policy policyName baseName members = .mint cells) :
    cells = mintCells policy baseName members := by
  simp only [slotMintPlan] at h
  split at h
  case isTrue => cases h
  case isFalse =>
    split at h
    case isTrue => cases h
    case isFalse =>
      cases h
      rfl

/-- One target of one slot: the schedule, whether it names its policy by
reference or selects it, the policy as read, and the PVCs its selectors match. -/
structure Firing where
  schedule : String
  single : Bool
  policy : SnapshotPolicy
  slot : DateTime
  matched : Nat → List PvcTargetRef

namespace Firing

def baseName (f : Firing) : String :=
  if f.single then scheduledBackupName f.schedule f.slot
  else f.schedule ++ "-" ++ f.policy.nameAny ++ "-" ++ slotStamp f.slot

def plan (f : Firing) : Except ValidationError SlotMintPlan := do
  let members ← expandSources f.policy f.baseName f.matched
  .ok (slotMintPlan f.policy f.policy.nameAny f.baseName members)

def names (f : Firing) : List String :=
  match f.plan with
  | .ok (.mint cells) => cells.map MintCell.name
  | _ => []

-- What a firing covers, without its names.

def stem (f : Firing) : String :=
  if f.single then f.schedule else f.schedule ++ "-" ++ f.policy.nameAny

/-- The slot is minted: its expansion succeeds, is not empty and stays under
the cap. -/
def mints (f : Firing) : Bool :=
  match f.plan with
  | .ok (.mint _) => true
  | _ => false

/-- The PVCs of the selector sources; `none` stands for a policy without any. -/
def pvcs (f : Firing) : List (Option PvcTargetRef) :=
  if f.policy.spec.sources.any fun s => s.pvcSelector.isSome then
    (selectorMatches f.policy f.matched).map fun e => some e.target
  else [none]

/-- The repositories of a policy over several; `none` stands for the only one. -/
def repositories (f : Firing) : List (Option RepositoryRef) :=
  if isMultiRepo f.policy.spec then
    f.policy.spec.repositories.map fun r => some (normalizedRepositoryRef r f.policy.ns)
  else [none]

def childName (f : Firing) (pvc : Option PvcTargetRef) (repo : Option RepositoryRef) : String :=
  if pvc.isSome ∨ repo.isSome then fanoutChildNameFor f.baseName f.policy.ns pvc repo
  else f.baseName

theorem childName_some (f : Firing) (pvc : Option PvcTargetRef) (r : RepositoryRef) :
    f.childName pvc (some (normalizedRepositoryRef r f.policy.ns)) =
      fanoutChildNameFor f.baseName f.policy.ns pvc (some r) := by
  simp [childName, fanoutChildNameFor_normalized]

theorem pvcs_of_expand_none {f : Firing}
    (h : expandSources f.policy f.baseName f.matched = .ok none) : f.pvcs = [none] := by
  simp only [expandSources] at h
  split at h
  case isTrue hany => simpa [pvcs] using hany
  case isFalse =>
    simp only [bind, Except.bind] at h
    split at h <;> cases h

theorem pvcs_of_expand_some {f : Firing} {members : List ExpandedMember}
    (h : expandSources f.policy f.baseName f.matched = .ok (some members)) :
    f.pvcs = (selectorMatches f.policy f.matched).map fun e => some e.target := by
  simp only [expandSources] at h
  split at h
  case isTrue => cases h
  case isFalse hany =>
    rw [Bool.not_eq_true, Bool.not_eq_false'] at hany
    rw [pvcs, if_pos hany]

theorem mem_mintCells (f : Firing) {members : Option (List ExpandedMember)}
    (h : expandSources f.policy f.baseName f.matched = .ok members) (n : String) :
    n ∈ (mintCells f.policy f.baseName members).map MintCell.name ↔
      ∃ pvc ∈ f.pvcs, ∃ repo ∈ f.repositories, n = f.childName pvc repo := by
  cases members with
  | none =>
    rw [pvcs_of_expand_none h]
    cases hmulti : isMultiRepo f.policy.spec with
    | false => simp [mintCells, repositories, hmulti, childName]
    | true => simp [mintCells, repositories, hmulti, childName_some, eq_comm (a := n)]
  | some members =>
    rw [pvcs_of_expand_some h]
    obtain ⟨kept, rfl, -, hkept⟩ := expandSources_spec h
    cases hmulti : isMultiRepo f.policy.spec with
    | false =>
      simp [mintCells, repositories, hmulti, childName, hkept, SelectorMatch.member,
        fanoutChildName, eq_comm (a := n)]
    | true =>
      simp [mintCells, repositories, hmulti, childName_some, hkept, SelectorMatch.member,
        eq_comm (a := n)]

theorem mem_names (f : Firing) (n : String) :
    n ∈ f.names ↔
      f.mints = true ∧ ∃ pvc ∈ f.pvcs, ∃ repo ∈ f.repositories, n = f.childName pvc repo := by
  cases hx : expandSources f.policy f.baseName f.matched with
  | error e => simp [names, mints, plan, hx, bind, Except.bind]
  | ok members =>
    have hplan : f.plan = .ok (slotMintPlan f.policy f.policy.nameAny f.baseName members) := by
      simp [plan, hx, bind, Except.bind]
    rw [← f.mem_mintCells hx n]
    cases hslot : slotMintPlan f.policy f.policy.nameAny f.baseName members with
    | nothingMatched => simp [names, mints, hplan, hslot]
    | capSkipped skip => simp [names, mints, hplan, hslot]
    | mint cells => simp [names, mints, hplan, hslot, cells_of_slotMintPlan hslot]

/-- The names a firing is made of are names of Kubernetes objects. -/
structure Valid (f : Firing) : Prop where
  schedule : ValidName f.schedule
  policy : ValidName f.policy.nameAny
  ns : ValidName f.policy.ns
  pvcs : ∀ i, ∀ t ∈ f.matched i, ValidPvc t
  repositories : ∀ r ∈ f.policy.spec.repositories, ∀ n ∈ r.ns, ValidName n

theorem baseName_eq (f : Firing) : f.baseName = f.stem ++ "-" ++ slotStamp f.slot := by
  simp only [baseName, stem, scheduledBackupName]
  split <;> rfl

theorem stem_last {f : Firing} (hf : f.Valid) :
    ∃ init c, f.stem.toList = init ++ [c] ∧ (c.isLower || c.isDigit) = true := by
  have hlast : ∀ {name : String}, ValidName name →
      ∃ init c, name.toList = init ++ [c] ∧ (c.isLower || c.isDigit) = true := by
    intro name h
    rcases List.eq_nil_or_concat name.toList with hnil | ⟨init, c, heq⟩
    · exact absurd hnil h.1
    · rw [List.concat_eq_append] at heq
      exact ⟨init, c, heq, h.2.2.2.2 c (by simp [heq])⟩
  simp only [stem]
  split
  case isTrue => exact hlast hf.schedule
  case isFalse =>
    obtain ⟨init, c, hinit, hc⟩ := hlast hf.policy
    exact ⟨f.schedule.toList ++ '-' :: init, c, by simp [hinit], hc⟩

theorem newline_not_mem_baseName {f : Firing} (hf : f.Valid) : '\n' ∉ f.baseName.toList := by
  have hstem : '\n' ∉ f.stem.toList := by
    have h1 := hf.schedule.not_mem (c := '\n') (by decide)
    have h2 := hf.policy.not_mem (c := '\n') (by decide)
    simp only [stem]
    split <;> simp [h1, h2]
  have hsign : '\n' ∉ yearSign f.slot := by
    rcases yearSign_cases f.slot with ⟨-, h⟩ | ⟨-, h⟩ | ⟨-, h⟩ <;> simp [h]
  have hdigits : '\n' ∉ stampDigits f.slot := by
    intro h
    have := isDigit_of_mem_stampDigits h
    simp at this
  simp [baseName_eq, slotStamp, hstem, hsign, hdigits]

/-- The base name gives back its stem and its second: the digits of the stamp
follow a dash or a sign, and the stem ends in a letter or digit. -/
theorem baseName_inj {f g : Firing} (hf : f.Valid) (hg : g.Valid)
    (h : f.baseName = g.baseName) :
    f.stem = g.stem ∧ f.slot.timestamp = g.slot.timestamp := by
  have hlist := congrArg String.toList h
  simp only [baseName_eq, slotStamp, String.toList_append, String.toList_ofList,
    ← List.append_assoc] at hlist
  have hjoint : ∀ (l : List Char) (t : DateTime), ∃ init x, l ++ "-".toList ++ yearSign t =
      init ++ [x] ∧ x.isDigit = false := by
    intro l t
    rcases yearSign_cases t with ⟨-, h⟩ | ⟨-, h⟩ | ⟨-, h⟩
    · exact ⟨l ++ ['-'], '-', by simp [h], by decide⟩
    · exact ⟨l, '-', by simp [h], by decide⟩
    · exact ⟨l ++ ['-'], '+', by simp [h], by decide⟩
  obtain ⟨hhead, hdigits⟩ := append_inj_of_forall (hjoint _ _) (hjoint _ _)
    (fun _ => isDigit_of_mem_stampDigits) (fun _ => isDigit_of_mem_stampDigits) hlist
  have hstem : ∀ {f : Firing}, f.Valid → ∃ init c, f.stem.toList = init ++ [c] ∧
      (!(c.isLower || c.isDigit)) = false := by
    intro f hf
    obtain ⟨init, c, hinit, hc⟩ := stem_last hf
    exact ⟨init, c, hinit, by simp [hc]⟩
  have hsigns : ∀ (t : DateTime), ∀ x ∈ "-".toList ++ yearSign t,
      (!(x.isLower || x.isDigit)) = true := by
    intro t
    rcases yearSign_cases t with ⟨-, h⟩ | ⟨-, h⟩ | ⟨-, h⟩ <;> rw [h] <;>
      exact List.all_eq_true.mp (by decide)
  rw [List.append_assoc, List.append_assoc] at hhead
  obtain ⟨heq, hsign⟩ := append_inj_of_forall (p := fun c => !(c.isLower || c.isDigit))
    (hstem hf) (hstem hg) (hsigns _) (hsigns _) hhead
  exact ⟨String.toList_inj.mp heq, timestamp_eq_of_stamp hdigits (List.append_cancel_left hsign)⟩

-- Names of two firings

def tagInputs (f : Firing) : List String :=
  f.pvcs.flatMap fun pvc => f.repositories.filterMap fun repo =>
    if pvc.isSome ∨ repo.isSome then
      some (tagInput f.baseName pvc (repo.map (repoKey · f.policy.ns)))
    else none

def TagsDistinct (f g : Firing) : Prop :=
  ∀ a ∈ f.tagInputs, ∀ b ∈ g.tagInputs, fnv8 a = fnv8 b → a = b

instance (f g : Firing) : Decidable (f.TagsDistinct g) :=
  inferInstanceAs (Decidable (∀ a ∈ f.tagInputs, ∀ b ∈ g.tagInputs, fnv8 a = fnv8 b → a = b))

theorem mem_tagInputs {f : Firing} {pvc : Option PvcTargetRef} {repo : Option RepositoryRef}
    (hpvc : pvc ∈ f.pvcs) (hrepo : repo ∈ f.repositories) (h : pvc.isSome ∨ repo.isSome) :
    tagInput f.baseName pvc (repo.map (repoKey · f.policy.ns)) ∈ f.tagInputs := by
  refine List.mem_flatMap.mpr ⟨pvc, hpvc, List.mem_filterMap.mpr ⟨repo, hrepo, ?_⟩⟩
  rw [if_pos h]

theorem valid_of_mem_pvcs {f : Firing} (hf : f.Valid) {pvc : Option PvcTargetRef}
    (h : pvc ∈ f.pvcs) : ∀ t ∈ pvc, ValidPvc t := by
  rintro t rfl
  simp only [pvcs] at h
  split at h
  case isFalse => simp at h
  case isTrue =>
    obtain ⟨e, he, heq⟩ := List.mem_map.mp h
    cases heq
    exact hf.pvcs _ _ (mem_selectorMatches.mp he).2.2

theorem repositories_inj {f g : Firing} (hf : f.Valid) (hg : g.Valid)
    {repo repo' : Option RepositoryRef} (h : repo ∈ f.repositories) (h' : repo' ∈ g.repositories)
    (heq : repo.map (repoKey · f.policy.ns) = repo'.map (repoKey · g.policy.ns)) :
    repo = repo' := by
  have hpin : ∀ {f : Firing}, f.Valid → ∀ {repo : RepositoryRef}, some repo ∈ f.repositories →
      ∃ r, repo = normalizedRepositoryRef r f.policy.ns ∧
        '/' ∉ (r.ns.getD f.policy.ns).toList := by
    intro f hf repo h
    simp only [repositories] at h
    split at h
    case isFalse => simp at h
    case isTrue =>
      obtain ⟨r, hr, hnorm⟩ := List.mem_map.mp h
      refine ⟨r, (Option.some.inj hnorm).symm, ?_⟩
      cases hn : r.ns with
      | none => exact hf.ns.not_mem (by decide)
      | some n => exact (hf.repositories r hr n hn).not_mem (by decide)
  cases repo with
  | none =>
    cases repo' with
    | none => rfl
    | some r' => simp at heq
  | some r =>
    cases repo' with
    | none => simp at heq
    | some r' =>
      obtain ⟨x, rfl, hx⟩ := hpin hf h
      obtain ⟨y, rfl, hy⟩ := hpin hg h'
      simp only [Option.map_some, repoKey_normalized, Option.some.injEq] at heq
      rw [repoKey_inj hx hy heq]

theorem baseName_ne_tagged (f : Firing) {base ns : String} {pvc : Option PvcTargetRef}
    {repo : Option RepositoryRef} (h : pvc.isSome ∨ repo.isSome) :
    fanoutChildNameFor base ns pvc repo ≠ f.baseName := by
  intro heq
  obtain ⟨x, hx⟩ := fanoutChildNameFor_tagged base ns h
  rw [heq] at hx
  refine append_cons_ne_of_forall (p := Char.isDigit) (a := x) (c := '-')
    (x := f.stem.toList ++ '-' :: yearSign f.slot) (d := stampDigits f.slot) (by decide)
    (fun _ => isDigit_of_mem_stampDigits) ?_ (hx.symm.trans ?_)
  · have hlen := length_stampDigits f.slot
    rw [length_fnv8]
    omega
  · simp [baseName_eq, slotStamp]

/-- Children of two firings share a name exactly when the firings share the
stem and the second, and the children the PVC and the repository. -/
theorem childName_eq_iff {f g : Firing} (hf : f.Valid) (hg : g.Valid)
    (hns : f.policy.ns = g.policy.ns) (htags : f.TagsDistinct g)
    {pvc pvc' : Option PvcTargetRef} {repo repo' : Option RepositoryRef}
    (hpvc : pvc ∈ f.pvcs) (hpvc' : pvc' ∈ g.pvcs) (hrepo : repo ∈ f.repositories)
    (hrepo' : repo' ∈ g.repositories) :
    f.childName pvc repo = g.childName pvc' repo' ↔
      f.stem = g.stem ∧ f.slot.timestamp = g.slot.timestamp ∧ pvc = pvc' ∧ repo = repo' := by
  constructor
  · intro heq
    simp only [childName] at heq
    split at heq
    case isTrue h =>
      split at heq
      case isFalse => exact absurd heq (g.baseName_ne_tagged h)
      case isTrue h' =>
        rw [hns] at heq
        have hinput := htags _ (mem_tagInputs hpvc hrepo h) _ (mem_tagInputs hpvc' hrepo' h')
          (by rw [hns]; exact tag_eq_of_fanoutChildNameFor_eq h h' heq)
        rw [hns] at hinput
        obtain ⟨hbase, hmember, hkey⟩ := tagInput_inj (newline_not_mem_baseName hf)
          (newline_not_mem_baseName hg) (valid_of_mem_pvcs hf hpvc) (valid_of_mem_pvcs hg hpvc')
          h h' hinput
        obtain ⟨hstem, hslot⟩ := baseName_inj hf hg hbase
        exact ⟨hstem, hslot, hmember, repositories_inj hf hg hrepo hrepo' (by rw [hns]; exact hkey)⟩
    case isFalse h =>
      split at heq
      case isTrue h' => exact absurd heq.symm (f.baseName_ne_tagged h')
      case isFalse h' =>
        simp only [not_or, Bool.not_eq_true, Option.isSome_eq_false_iff, Option.isNone_iff_eq_none]
          at h h'
        obtain ⟨hstem, hslot⟩ := baseName_inj hf hg heq
        exact ⟨hstem, hslot, h.1.trans h'.1.symm, h.2.trans h'.2.symm⟩
  · rintro ⟨hstem, hslot, rfl, rfl⟩
    have hbase : f.baseName = g.baseName := by
      rw [baseName_eq, baseName_eq, hstem, slotStamp_eq_of_timestamp hslot]
    simp only [childName, hbase, hns]

/-- The two firings join to the same base name, and both mint a child for one
PVC and repository. -/
def Collides (f g : Firing) : Prop :=
  (f.stem = g.stem ∧ f.slot.timestamp = g.slot.timestamp) ∧ (f.mints = true ∧ g.mints = true) ∧
    (∃ pvc ∈ f.pvcs, pvc ∈ g.pvcs) ∧ ∃ repo ∈ f.repositories, repo ∈ g.repositories

instance (f g : Firing) : Decidable (f.Collides g) := inferInstanceAs (Decidable (_ ∧ _))

def target (f : Firing) : String × String × DateTime := (f.schedule, f.policy.nameAny, f.slot)

end Firing

/-- Two firings of one namespace for different schedules, policies or slots
mint disjoint sets of names exactly when they do not join to the same base
name with a PVC and repository in common. -/
theorem firing_names_disjoint_iff (f g : Firing) (hf : f.Valid) (hg : g.Valid)
    (hns : f.policy.ns = g.policy.ns) (htags : f.TagsDistinct g) :
    (f.target ≠ g.target → f.names.Disjoint g.names) ↔ ¬ (f.target ≠ g.target ∧ f.Collides g) := by
  have hshare : f.names.Disjoint g.names ↔ ¬ f.Collides g := by
    constructor
    · rintro hdis ⟨⟨hstem, hslot⟩, ⟨hmints, hmints'⟩, ⟨pvc, hpvc, hpvc'⟩, repo, hrepo, hrepo'⟩
      refine hdis ((f.mem_names _).mpr ⟨hmints, pvc, hpvc, repo, hrepo, rfl⟩)
        ((g.mem_names _).mpr ⟨hmints', pvc, hpvc', repo, hrepo', ?_⟩)
      exact (Firing.childName_eq_iff hf hg hns htags hpvc hpvc' hrepo hrepo').mpr
        ⟨hstem, hslot, rfl, rfl⟩
    · intro hnot n hn hn'
      obtain ⟨hmints, pvc, hpvc, repo, hrepo, rfl⟩ := (f.mem_names n).mp hn
      obtain ⟨hmints', pvc', hpvc', repo', hrepo', heq⟩ := (g.mem_names _).mp hn'
      obtain ⟨hstem, hslot, rfl, rfl⟩ :=
        (Firing.childName_eq_iff hf hg hns htags hpvc hpvc' hrepo hrepo').mp heq
      exact hnot ⟨⟨hstem, hslot⟩, ⟨hmints, hmints'⟩, ⟨pvc, hpvc, hpvc'⟩, repo, hrepo, hrepo'⟩
  rw [hshare, not_and]

/-- A policy of namespace `apps` over two repositories. -/
def fannedPolicy (name : String) (sources : List Source) : SnapshotPolicy where
  metadata :=
    { name := some name
      ns := some "apps" }
  spec :=
    { repositories := [{ name := "nas" }, { name := "offsite", ns := some "backup" }]
      sources }

/-- A firing of that policy at 02:00 on a day of August 2026. -/
def nightlyFiring (schedule : String) (single : Bool) (policyName : String) (day : Int) :
    Firing where
  schedule := schedule
  single := single
  policy := fannedPolicy policyName [{ pvcSelector := some {} }]
  slot := DateTime.fromTimestamp (1785549600 + 86400 * (day - 1))
  matched := fun _ => [⟨"apps", "data"⟩]

theorem nightlyFiring_valid {schedule policyName : String} (single : Bool) (day : Int)
    (hs : ValidName schedule) (hp : ValidName policyName) :
    (nightlyFiring schedule single policyName day).Valid where
  schedule := hs
  policy := hp
  ns := by
    show ValidName "apps"
    decide
  pvcs := by
    intro i t ht
    rw [List.mem_singleton.mp ht]
    decide
  repositories := by
    intro r hr n hn
    simp only [nightlyFiring, fannedPolicy, List.mem_cons, List.not_mem_nil, or_false] at hr
    rcases hr with rfl | rfl
    · simp at hn
    · cases hn
      decide

/-- Two slots of one schedule. -/
theorem firing_names_disjoint_iff_days :
    let f := nightlyFiring "nightly" true "db" 5
    let g := nightlyFiring "nightly" true "db" 6
    f.mints = true ∧ g.mints = true ∧ f.names.Disjoint g.names := by
  intro f g
  have hvalid : ∀ day, (nightlyFiring "nightly" true "db" day).Valid :=
    fun day => nightlyFiring_valid true day (by decide) (by decide)
  have htags : f.TagsDistinct g := by decide +kernel
  have htarget : f.target ≠ g.target := by decide +kernel
  refine ⟨by decide +kernel, by decide +kernel, ?_⟩
  exact (firing_names_disjoint_iff f g (hvalid 5) (hvalid 6) rfl htags).mpr
    (by decide +kernel) htarget

/-- Schedule `nightly` selecting policy `db`, and schedule `nightly-db` with a
reference to policy `app`, in the same slot. -/
theorem firing_names_meet_across_schedules :
    let f := nightlyFiring "nightly" false "db" 5
    let g := nightlyFiring "nightly-db" true "app" 5
    (f.Valid ∧ g.Valid ∧ f.policy.ns = g.policy.ns ∧ f.TagsDistinct g) ∧
      f.target ≠ g.target ∧ f.names = g.names ∧
      f.names = ["nightly-db-20260805020000-pvc-data-repo-nas-bfcbdde8",
        "nightly-db-20260805020000-pvc-data-repo-offsite-4f4d80ae"] := by
  intro f g
  refine ⟨⟨nightlyFiring_valid _ _ (by decide) (by decide),
    nightlyFiring_valid _ _ (by decide) (by decide), rfl, by decide +kernel⟩,
    by decide +kernel, by decide +kernel, by decide +kernel⟩

end Kopiur
