import Mathlib.Data.List.Nodup
import Kopiur.Controller.StatusWrites

/-!
# Slots and the Jobs that run them

A mode has one slot that is due, found from the last run that is recorded. The
slot is remembered only by the name of its Job, so what holds of the slots
depends on the Jobs and the records that are still there.
-/

namespace Kopiur

open Lib

variable {σ π ρ ε α μ : Type}

def RunCall.create? : RunCall π ρ → Option (String × ρ)
  | .create name run => some (name, run)
  | .patch _ | .delete _ => none

def RunCall.delete? : RunCall π ρ → Option String
  | .delete name => some name
  | .patch _ | .create .. => none

def creates (calls : List (RunCall π ρ)) : List (String × ρ) := calls.filterMap RunCall.create?

def deletes (calls : List (RunCall π ρ)) : List String := calls.filterMap RunCall.delete?

section Calls

variable (p : π) (name : String) (run : ρ) (calls more : List (RunCall π ρ))

@[simp] theorem creates_nil : creates ([] : List (RunCall π ρ)) = [] := rfl

@[simp] theorem creates_patch : creates (.patch p :: calls) = creates calls := rfl

@[simp] theorem creates_create : creates (.create name run :: calls) = (name, run) :: creates calls :=
  rfl

@[simp] theorem creates_delete : creates (.delete name :: calls) = creates calls := rfl

@[simp] theorem creates_append : creates (calls ++ more) = creates calls ++ creates more :=
  List.filterMap_append

@[simp] theorem deletes_nil : deletes ([] : List (RunCall π ρ)) = [] := rfl

@[simp] theorem deletes_patch : deletes (.patch p :: calls) = deletes calls := rfl

@[simp] theorem deletes_create : deletes (.create name run :: calls) = deletes calls := rfl

@[simp] theorem deletes_delete : deletes (.delete name :: calls) = name :: deletes calls := rfl

@[simp] theorem deletes_append : deletes (calls ++ more) = deletes calls ++ deletes more :=
  List.filterMap_append

end Calls

/-- An object with slots: which run is a slot's, the name of its Job, where the
search for the next slot starts and what is due; and what its passes keep of
them while no recorded run lies ahead of the clock (`Past`). -/
structure SlotKind (σ π ρ ε α μ : Type) extends RunKind σ π ρ ε α where
  slot : ρ → Option (μ × DateTime)
  jobName : σ → μ → DateTime → String
  after : σ → μ → DateTime → DateTime
  due : ε → σ → μ → DateTime → Option DateTime
  Past : σ → DateTime → Prop
  due_gt : ∀ {env cr m now s}, due env cr m now = some s → after cr m now < s
  spawns : ∀ env view cr, creates (reconcile env view cr) = [] ∨
    ∃ name run, creates (reconcile env view cr) = [(name, run)] ∧ view.active = false ∧
      view.job name = none ∧ ∀ m s, slot run = some (m, s) →
        name = jobName cr m s ∧ due env cr m view.now = some s
  reaps : ∀ env view cr, ∀ name ∈ deletes (reconcile env view cr), view.job name = some none
  patch_keeps : ∀ env view cr, ∀ p ∈ patches (reconcile env view cr), ∀ x, Past x view.now →
    Past (apply p x) view.now ∧ ∀ m, after x m view.now ≤ after (apply p x) m view.now ∧
      jobName (apply p x) m = jobName x m
  edit_keeps : ∀ a x now, Past x now → Past (edit a x) now ∧
    ∀ m, after x m now ≤ after (edit a x) m now ∧ jobName (edit a x) m = jobName x m
  stamp_keeps : ∀ run now x, Past x now → Past (stamp run now x) now ∧
    ∀ m, after x m now ≤ after (stamp run now x) m now ∧ jobName (stamp run now x) m = jobName x m
  tick_keeps : ∀ x now later, now ≤ later → Past x now →
    Past x later ∧ ∀ m, after x m now ≤ after x m later

namespace SlotKind

variable (k : SlotKind σ π ρ ε α μ)

/-- The conditions on the steps: a pass finds no slot due beside a failed Job of
another slot of the mode, and a Job that succeeded is reaped once its slot is
recorded. -/
def Orderly (w : RunWorld σ ρ) : RunEvent ε α → Prop
  | .pass env _ => ∀ j ∈ w.jobs, ∀ m s s', k.slot j.run = some (m, s) → j.terminal = some false →
    k.due env w.cr m w.clock = some s' → s' = s
  | .reap name => ∀ j ∈ w.jobs, ∀ m s, j.name = name → k.slot j.run = some (m, s) →
    j.terminal = some true → s ≤ k.after w.cr m w.clock
  | .tick _ | .edit _ | .stamp _ | .finish .. => True

instance (w : RunWorld σ ρ) : (e : RunEvent ε α) → Decidable (k.Orderly w e)
  | .pass env _ =>
    decidable_of_iff (∀ j ∈ w.jobs, ∀ p ∈ k.slot j.run, j.terminal = some false →
        ∀ s' ∈ k.due env w.cr p.1 w.clock, s' = p.2)
      ⟨fun h j hj m s s' hs hfailed => h j hj (m, s) hs hfailed s',
        fun h j hj p hp hfailed s' => h j hj p.1 p.2 s' hp hfailed⟩
  | .reap name =>
    decidable_of_iff (∀ j ∈ w.jobs, j.name = name → ∀ p ∈ k.slot j.run, j.terminal = some true →
        p.2 ≤ k.after w.cr p.1 w.clock)
      ⟨fun h j hj m s hname hs => h j hj hname (m, s) hs,
        fun h j hj hname p hp => h j hj p.1 p.2 hname hp⟩
  | .tick _ | .edit _ | .stamp _ | .finish .. => inferInstanceAs (Decidable True)

def unfinished (jobs : List (RunJob ρ)) : List (RunJob ρ) := jobs.filter fun j => j.terminal.isNone

/-- What holds in every run. -/
structure Named (w : RunWorld σ ρ) : Prop where
  past : k.Past w.cr w.clock
  names : (w.jobs.map RunJob.name).Nodup
  single : (unfinished w.jobs).length ≤ 1
  jobs : ∀ j ∈ w.jobs, ∀ m s, k.slot j.run = some (m, s) → j.name = k.jobName w.cr m s
  created : ∀ c ∈ w.created, ∀ m s, k.slot c.run = some (m, s) → c.name = k.jobName w.cr m s

def Covered (w : RunWorld σ ρ) : Prop :=
  ∀ r ∈ w.succeeded, ∀ m s, k.slot r = some (m, s) →
    (∃ j ∈ w.jobs, k.slot j.run = some (m, s) ∧ j.terminal = some true) ∨
      s ≤ k.after w.cr m w.clock

def Fresh (c : Creation ρ) : Prop :=
  ∀ m s, k.slot c.run = some (m, s) → (∀ r ∈ c.succeeded, k.slot r ≠ some (m, s)) ∧
    ∀ j ∈ c.jobs, ∀ s', k.slot j.run = some (m, s') → j.terminal ≠ some false

-- Inside a pass

def Spawns (env : ε) (start : RunWorld σ ρ) (name : String) (run : ρ) : Prop :=
  start.view.active = false ∧ start.view.job name = none ∧ ∀ m s, k.slot run = some (m, s) →
    name = k.jobName start.cr m s ∧ k.due env start.cr m start.clock = some s

/-- After some calls of a pass: what it changed of its start. -/
structure During (start w : RunWorld σ ρ) : Prop where
  named : k.Named w
  clock : w.clock = start.clock
  succeeded : w.succeeded = start.succeeded
  jobs : ∀ j ∈ w.jobs, j ∈ start.jobs ∨ j.terminal = none
  jobName : ∀ m, k.jobName w.cr m = k.jobName start.cr m
  after : ∀ m, k.after start.cr m start.clock ≤ k.after w.cr m start.clock

def KeptBy (now : DateTime) (p : π) : Prop := ∀ x, k.Past x now →
  k.Past (k.apply p x) now ∧ ∀ m, k.after x m now ≤ k.after (k.apply p x) m now ∧
    k.jobName (k.apply p x) m = k.jobName x m

variable {k} {start w : RunWorld σ ρ} {env : ε} {name : String} {run : ρ} {p : π}

theorem During.refl (h : k.Named start) : k.During start start :=
  ⟨h, rfl, rfl, fun _ hj => .inl hj, fun _ => rfl, fun _ => le_refl _⟩

theorem During.patch (h : k.During start w) (hp : k.KeptBy start.clock p) :
    k.During start (k.exec w (.patch p)) := by
  obtain ⟨hpast, hkeeps⟩ := hp w.cr (h.clock ▸ h.named.past)
  have hname : ∀ m, k.jobName (k.apply p w.cr) m = k.jobName w.cr m := fun m => (hkeeps m).2
  refine
    { named :=
        { past := by simpa [RunKind.exec, h.clock] using hpast
          names := h.named.names
          single := h.named.single
          jobs := fun j hj m s hs => ?_
          created := fun c hc m s hs => ?_ }
      clock := h.clock
      succeeded := h.succeeded
      jobs := h.jobs
      jobName := fun m => (hname m).trans (h.jobName m)
      after := fun m => (h.after m).trans (hkeeps m).1 }
  · exact (h.named.jobs j hj m s hs).trans (congrFun (hname m).symm s)
  · exact (h.named.created c hc m s hs).trans (congrFun (hname m).symm s)

theorem unfinished_filter_le (jobs : List (RunJob ρ)) (q : RunJob ρ → Bool) :
    (unfinished (jobs.filter q)).length ≤ (unfinished jobs).length :=
  List.Sublist.length_le (List.Sublist.filter _ List.filter_sublist)

theorem Named.filter (h : k.Named w) (q : RunJob ρ → Bool) :
    k.Named { w with jobs := w.jobs.filter q } where
  past := h.past
  names := h.names.sublist (List.Sublist.map _ List.filter_sublist)
  single := by exact Nat.le_trans (unfinished_filter_le w.jobs q) h.single
  jobs j hj := h.jobs j (List.mem_of_mem_filter hj)
  created := h.created

theorem During.delete (h : k.During start w) : k.During start (k.exec w (.delete name)) :=
  { h with
    named := h.named.filter _
    jobs := fun j hj => h.jobs j (List.mem_of_mem_filter hj) }

theorem During.create (h : k.During start w) (hspawns : k.Spawns env start name run)
    (hjobs : w.jobs ⊆ start.jobs) : k.During start (k.exec w (.create name run)) := by
  obtain ⟨hactive, hnone, hslot⟩ := hspawns
  have hfinished : unfinished w.jobs = [] := by
    refine List.filter_eq_nil_iff.mpr fun j hj => ?_
    simpa [Option.isNone_iff_eq_none] using RunWorld.view_not_active hactive j (hjobs hj)
  have hfresh : name ∉ w.jobs.map RunJob.name := by
    rintro hname
    obtain ⟨j, hj, rfl⟩ := List.mem_map.mp hname
    exact RunWorld.view_job_none hnone j (hjobs hj) rfl
  have hname : ∀ m s, k.slot run = some (m, s) → name = k.jobName w.cr m s := fun m s hs =>
    (hslot m s hs).1.trans (congrFun (h.jobName m).symm s)
  refine
    { named :=
        { past := h.named.past
          names := ?_
          single := ?_
          jobs := fun j hj m s hs => ?_
          created := fun c hc m s hs => ?_ }
      clock := h.clock
      succeeded := h.succeeded
      jobs := fun j hj => ?_
      jobName := h.jobName
      after := h.after }
  · simpa [RunKind.exec, List.nodup_append] using ⟨h.named.names, fun j hj heq =>
      hfresh (List.mem_map.mpr ⟨j, hj, heq⟩)⟩
  · have happend : unfinished (w.jobs ++ [⟨name, run, none⟩]) =
        unfinished w.jobs ++ [⟨name, run, none⟩] := by simp [unfinished, List.filter_append]
    simp [RunKind.exec, happend, hfinished]
  · rcases List.mem_append.mp hj with hj | hj
    · exact h.named.jobs j hj m s hs
    · obtain rfl := List.mem_singleton.mp hj
      exact hname m s hs
  · rcases List.mem_append.mp hc with hc | hc
    · exact h.named.created c hc m s hs
    · obtain rfl := List.mem_singleton.mp hc
      exact hname m s hs
  · rcases List.mem_append.mp hj with hj | hj
    · exact h.jobs j hj
    · obtain rfl := List.mem_singleton.mp hj
      exact .inr rfl

theorem pass_rule {P : RunWorld σ ρ → Prop}
    (hpatch : ∀ w p, k.During start w → k.KeptBy start.clock p → P w → P (k.exec w (.patch p)))
    (hdelete : ∀ w name, k.During start w → start.view.job name = some none → P w →
      P (k.exec w (.delete name)))
    (hcreate : ∀ w name run, k.During start w → k.Spawns env start name run →
      w.jobs ⊆ start.jobs → P w → P (k.exec w (.create name run)))
    (calls : List (RunCall π ρ)) (hpatches : ∀ p ∈ patches calls, k.KeptBy start.clock p)
    (hdeletes : ∀ name ∈ deletes calls, start.view.job name = some none)
    (hcreates : creates calls = [] ∨ (∃ name run, creates calls = [(name, run)] ∧
      k.Spawns env start name run) ∧ w.jobs ⊆ start.jobs)
    (hduring : k.During start w) (hP : P w) :
    k.During start (calls.foldl k.exec w) ∧ P (calls.foldl k.exec w) := by
  induction calls generalizing w with
  | nil => exact ⟨hduring, hP⟩
  | cons call calls ih =>
    rw [List.foldl_cons]
    cases call with
    | patch p =>
      have hp := hpatches p (by simp)
      exact ih (fun q hq => hpatches q (by simp [hq])) hdeletes hcreates (hduring.patch hp)
        (hpatch w p hduring hp hP)
    | delete name =>
      have hname := hdeletes name (by simp)
      refine ih hpatches (fun n hn => hdeletes n (by simp [hn])) (hcreates.imp_right ?_)
        hduring.delete (hdelete w name hduring hname hP)
      rintro ⟨hone, hjobs⟩
      exact ⟨hone, fun j hj => hjobs (List.mem_of_mem_filter hj)⟩
    | create name run =>
      rcases hcreates with hnone | ⟨⟨name', run', hone, hspawns⟩, hjobs⟩
      · simp at hnone
      · obtain ⟨⟨rfl, rfl⟩, hnone⟩ := by simpa using hone
        exact ih hpatches hdeletes (.inl hnone) (hduring.create hspawns hjobs)
          (hcreate w _ _ hduring hspawns hjobs hP)

theorem pass_calls (env : ε) {P : RunWorld σ ρ → Prop} (hnamed : k.Named start)
    (hpatch : ∀ w p, k.During start w → k.KeptBy start.clock p → P w → P (k.exec w (.patch p)))
    (hdelete : ∀ w name, k.During start w → start.view.job name = some none → P w →
      P (k.exec w (.delete name)))
    (hcreate : ∀ w name run, k.During start w → k.Spawns env start name run →
      w.jobs ⊆ start.jobs → P w → P (k.exec w (.create name run)))
    (hP : P start) (n : Nat) :
    let after := ((k.reconcile env start.view start.cr).take n).foldl k.exec start
    k.During start after ∧ P after := by
  have hsplit := List.take_append_drop n (k.reconcile env start.view start.cr)
  refine pass_rule hpatch hdelete hcreate _ ?_ ?_ ?_ (.refl hnamed) hP
  · intro p hp
    have hmem : p ∈ patches (k.reconcile env start.view start.cr) := by
      rw [← hsplit, patches_append]
      exact List.mem_append_left _ hp
    exact k.patch_keeps env start.view start.cr p hmem
  · intro name hname
    have hmem : name ∈ deletes (k.reconcile env start.view start.cr) := by
      rw [← hsplit, deletes_append]
      exact List.mem_append_left _ hname
    exact k.reaps env start.view start.cr name hmem
  · have hcreates := congrArg creates hsplit
    rw [creates_append] at hcreates
    rcases k.spawns env start.view start.cr with hnone | ⟨name, run, hone, hspawns⟩
    · rw [hnone] at hcreates
      exact .inl (List.append_eq_nil_iff.mp hcreates).1
    · rw [hone] at hcreates
      rcases List.append_eq_singleton_iff.mp hcreates with ⟨hnil, -⟩ | ⟨hall, -⟩
      · exact .inl hnil
      · exact .inr ⟨⟨name, run, hall, hspawns⟩, fun _ hj => hj⟩

-- One step

def done (name : String) (ok : Bool) (j : RunJob ρ) : RunJob ρ :=
  if j.name = name then { j with terminal := some ok } else j

theorem done_name (ok : Bool) (j : RunJob ρ) : (done name ok j).name = j.name := by
  unfold done
  split <;> rfl

theorem done_run (ok : Bool) (j : RunJob ρ) : (done name ok j).run = j.run := by
  unfold done
  split <;> rfl

theorem unfinished_done_le (ok : Bool) (jobs : List (RunJob ρ)) :
    (unfinished (jobs.map (done name ok))).length ≤ (unfinished jobs).length := by
  induction jobs with
  | nil => exact Nat.le_refl 0
  | cons j jobs ih =>
    have hdone : (done name ok j).terminal.isNone = true → j.terminal.isNone = true := by
      unfold done
      split <;> simp
    simp only [unfinished, List.map_cons, List.filter_cons] at ih ⊢
    split
    · next h => simpa [hdone h] using ih
    · split
      · exact Nat.le_succ_of_le ih
      · exact ih

theorem Named.finish (h : k.Named w) (ok : Bool) (succeeded : List ρ) :
    k.Named { w with jobs := w.jobs.map (done name ok), succeeded } where
  past := h.past
  names := by simpa [List.map_map, Function.comp_def, done_name] using h.names
  single := by exact Nat.le_trans (unfinished_done_le ok w.jobs) h.single
  jobs := by
    intro j hj m s hs
    obtain ⟨i, hi, rfl⟩ := List.mem_map.mp hj
    rw [done_name]
    exact h.jobs i hi m s (by simpa [done_run] using hs)
  created := h.created

theorem Named.pass (h : k.Named start) (env : ε) (n : Nat) :
    k.During start (((k.reconcile env start.view start.cr).take n).foldl k.exec start) :=
  (pass_calls env (P := fun _ => True) h (fun _ _ _ _ _ => trivial) (fun _ _ _ _ _ => trivial)
    (fun _ _ _ _ _ _ _ => trivial) trivial n).1

theorem Named.step {e : RunEvent ε α} {w' : RunWorld σ ρ} (h : k.Named w)
    (hstep : k.step w e = some w') : k.Named w' := by
  cases e with
  | pass env n =>
    cases hstep
    exact (h.pass env n).named
  | tick now =>
    obtain ⟨hle, rfl⟩ := k.step_tick hstep
    exact { h with past := (k.tick_keeps _ _ _ hle h.past).1 }
  | edit a =>
    cases hstep
    obtain ⟨hpast, hkeeps⟩ := k.edit_keeps a w.cr w.clock h.past
    exact
      { h with
        past := hpast
        jobs := fun j hj m s hs => (h.jobs j hj m s hs).trans (congrFun (hkeeps m).2.symm s)
        created := fun c hc m s hs => (h.created c hc m s hs).trans (congrFun (hkeeps m).2.symm s) }
  | stamp name =>
    obtain ⟨j, rfl⟩ := k.step_stamp hstep
    obtain ⟨hpast, hkeeps⟩ := k.stamp_keeps j.run w.clock w.cr h.past
    exact
      { h with
        past := hpast
        jobs := fun j hj m s hs => (h.jobs j hj m s hs).trans (congrFun (hkeeps m).2.symm s)
        created := fun c hc m s hs => (h.created c hc m s hs).trans (congrFun (hkeeps m).2.symm s) }
  | finish name ok =>
    obtain ⟨j, -, -, -, rfl⟩ := k.step_finish hstep
    exact h.finish ok _
  | reap name =>
    obtain ⟨j, -, rfl⟩ := Option.map_eq_some_iff.mp hstep
    exact h.filter _

theorem Named.jobName_step {e : RunEvent ε α} {w' : RunWorld σ ρ} (h : k.Named w)
    (hstep : k.step w e = some w') (m : μ) : k.jobName w'.cr m = k.jobName w.cr m := by
  cases e with
  | pass env n =>
    cases hstep
    exact (h.pass env n).jobName m
  | tick now =>
    obtain ⟨-, rfl⟩ := k.step_tick hstep
    rfl
  | edit a =>
    cases hstep
    exact ((k.edit_keeps a w.cr w.clock h.past).2 m).2
  | stamp name =>
    obtain ⟨j, rfl⟩ := k.step_stamp hstep
    exact ((k.stamp_keeps j.run w.clock w.cr h.past).2 m).2
  | finish name ok =>
    obtain ⟨j, -, -, -, rfl⟩ := k.step_finish hstep
    rfl
  | reap name =>
    obtain ⟨j, -, rfl⟩ := Option.map_eq_some_iff.mp hstep
    rfl

theorem Named.eq_of_name (h : k.Named w) {i j : RunJob ρ} (hi : i ∈ w.jobs) (hj : j ∈ w.jobs)
    (hname : i.name = j.name) : i = j :=
  List.inj_on_of_nodup_map h.names hi hj hname

theorem Covered.mono {w' : RunWorld σ ρ} (h : k.Covered w) (hjobs : w'.jobs = w.jobs)
    (hsucceeded : w'.succeeded = w.succeeded)
    (hafter : ∀ m, k.after w.cr m w.clock ≤ k.after w'.cr m w'.clock) : k.Covered w' := by
  intro r hr m s hs
  rw [hsucceeded] at hr
  rw [hjobs]
  exact (h r hr m s hs).imp_right fun hle => hle.trans (hafter m)

theorem Covered.remove (h : k.Covered w)
    (hgone : ∀ j ∈ w.jobs, ∀ m s, j.name = name → k.slot j.run = some (m, s) →
      j.terminal = some true → s ≤ k.after w.cr m w.clock) :
    k.Covered { w with jobs := w.jobs.filter fun j => j.name != name } := by
  intro r hr m s hs
  rcases h r hr m s hs with ⟨j, hj, hslot, hterminal⟩ | hle
  · by_cases hname : j.name = name
    · exact .inr (hgone j hj m s hname hslot hterminal)
    · exact .inl ⟨j, List.mem_filter.mpr ⟨hj, by simpa using hname⟩, hslot, hterminal⟩
  · exact .inr hle

theorem Covered.pass (hnamed : k.Named w) (h : k.Covered w) (n : Nat) :
    k.Covered (((k.reconcile env w.view w.cr).take n).foldl k.exec w) := by
  refine (pass_calls env hnamed ?_ ?_ ?_ h n).2
  · intro v p hduring hp hcovered
    obtain ⟨-, hkeeps⟩ := hp v.cr (hduring.clock ▸ hduring.named.past)
    refine hcovered.mono rfl rfl fun m => ?_
    change k.after v.cr m v.clock ≤ k.after (k.apply p v.cr) m v.clock
    rw [hduring.clock]
    exact (hkeeps m).1
  · intro v name hduring hview hcovered
    refine hcovered.remove fun j hj m s hname _ hterminal => ?_
    rcases hduring.jobs j hj with hstart | hunfinished
    · obtain ⟨i, hi, hiname, hirunning⟩ := RunWorld.view_job_some hview
      obtain rfl := hnamed.eq_of_name hi hstart (hiname.trans hname.symm)
      simp [hirunning] at hterminal
    · simp [hunfinished] at hterminal
  · intro v name run hduring hspawns hjobs hcovered r hr m s hs
    rcases hcovered r hr m s hs with ⟨j, hj, hslot, hterminal⟩ | hle
    · exact .inl ⟨j, List.mem_append_left _ hj, hslot, hterminal⟩
    · exact .inr hle

theorem Covered.step {e : RunEvent ε α} {w' : RunWorld σ ρ} (hnamed : k.Named w) (h : k.Covered w)
    (horderly : k.Orderly w e) (hstep : k.step w e = some w') : k.Covered w' := by
  cases e with
  | pass env n =>
    cases hstep
    exact h.pass hnamed n
  | tick now =>
    obtain ⟨hle, rfl⟩ := k.step_tick hstep
    exact h.mono rfl rfl (k.tick_keeps _ _ _ hle hnamed.past).2
  | edit a =>
    cases hstep
    exact h.mono rfl rfl fun m => ((k.edit_keeps a w.cr w.clock hnamed.past).2 m).1
  | stamp name =>
    obtain ⟨j, rfl⟩ := k.step_stamp hstep
    exact h.mono rfl rfl fun m => ((k.stamp_keeps j.run w.clock w.cr hnamed.past).2 m).1
  | finish name ok =>
    obtain ⟨j, hmem, rfl, hrunning, rfl⟩ := k.step_finish hstep
    intro r hr m s hs
    by_cases hnew : ok = true ∧ r = j.run
    · obtain ⟨rfl, rfl⟩ := hnew
      exact .inl ⟨done j.name true j, List.mem_map.mpr ⟨j, hmem, rfl⟩, by rwa [done_run],
        by simp [done]⟩
    · have hold : r ∈ w.succeeded := by
        cases ok with
        | false => exact hr
        | true => exact (List.mem_cons.mp hr).resolve_left fun heq => hnew ⟨rfl, heq⟩
      rcases h r hold m s hs with ⟨i, hi, hslot, hterminal⟩ | hle
      · have hother : i.name ≠ j.name := by
          intro hname
          obtain rfl := hnamed.eq_of_name hi hmem hname
          simp [hterminal] at hrunning
        exact .inl ⟨i, List.mem_map.mpr ⟨i, hi, if_neg hother⟩, hslot, hterminal⟩
      · exact .inr hle
  | reap name =>
    obtain ⟨j, -, rfl⟩ := Option.map_eq_some_iff.mp hstep
    exact h.remove fun j hj m s hname hslot hterminal => horderly j hj m s hname hslot hterminal

/-- A Job that a pass creates is of a slot that did not succeed, of a mode
without a failed Job. -/
theorem fresh_of_spawns {n : Nat} (hnamed : k.Named start) (hcovered : k.Covered start)
    (horderly : k.Orderly start (.pass env n)) (hspawns : k.Spawns env start name run)
    {jobs : List (RunJob ρ)} (hjobs : jobs ⊆ start.jobs) :
    k.Fresh ⟨name, run, jobs, start.succeeded⟩ := by
  intro m s hs
  obtain ⟨-, hnone, hslot⟩ := hspawns
  obtain ⟨hname, hdue⟩ := hslot m s hs
  have hgone : ∀ j ∈ start.jobs, k.slot j.run ≠ some (m, s) := fun j hj hjob =>
    RunWorld.view_job_none hnone j hj ((hnamed.jobs j hj m s hjob).trans hname.symm)
  constructor
  · intro r hr hrslot
    rcases hcovered r hr m s hrslot with ⟨j, hj, hjob, -⟩ | hle
    · exact hgone j hj hjob
    · exact absurd (k.due_gt hdue) (not_lt.mpr hle)
  · intro j hj s' hjob hfailed
    obtain rfl := horderly j (hjobs hj) m s' s hjob hfailed hdue
    exact hgone j (hjobs hj) hjob

structure Ordered (w : RunWorld σ ρ) : Prop where
  named : k.Named w
  covered : k.Covered w
  fresh : ∀ c ∈ w.created, k.Fresh c

theorem Ordered.step {e : RunEvent ε α} {w' : RunWorld σ ρ} (h : k.Ordered w)
    (horderly : k.Orderly w e) (hstep : k.step w e = some w') : k.Ordered w' := by
  refine ⟨h.named.step hstep, h.covered.step h.named horderly hstep, ?_⟩
  cases e with
  | pass env n =>
    cases hstep
    refine (pass_calls env (P := fun v => ∀ c ∈ v.created, k.Fresh c) h.named
      (fun _ _ _ _ hfresh => hfresh) (fun _ _ _ _ hfresh => hfresh) ?_ h.fresh n).2
    intro v name run hduring hspawns hjobs hfresh c hc
    rcases List.mem_append.mp hc with hc | hc
    · exact hfresh c hc
    · obtain rfl := List.mem_singleton.mp hc
      rw [hduring.succeeded]
      exact fresh_of_spawns h.named h.covered horderly hspawns hjobs
  | tick now =>
    obtain ⟨-, rfl⟩ := k.step_tick hstep
    exact h.fresh
  | edit a =>
    cases hstep
    exact h.fresh
  | stamp name =>
    obtain ⟨j, rfl⟩ := k.step_stamp hstep
    exact h.fresh
  | finish name ok =>
    obtain ⟨j, -, -, -, rfl⟩ := k.step_finish hstep
    exact h.fresh
  | reap name =>
    obtain ⟨j, -, rfl⟩ := Option.map_eq_some_iff.mp hstep
    exact h.fresh

theorem Named.init {cr : σ} {now : DateTime} (hpast : k.Past cr now) :
    k.Named { cr, clock := now } where
  past := hpast
  names := List.nodup_nil
  single := Nat.zero_le 1
  jobs := by simp
  created := by simp

theorem named_of_run {cr : σ} {now : DateTime} (hpast : k.Past cr now)
    (h : Reaches k.step (fun _ _ => True) { cr, clock := now } w) :
    k.Named w ∧ ∀ m, k.jobName w.cr m = k.jobName cr m :=
  h.invariant (fun w => k.Named w ∧ ∀ m, k.jobName w.cr m = k.jobName cr m)
    ⟨.init hpast, fun _ => rfl⟩ fun _ _ _ hinv _ hstep =>
      ⟨hinv.1.step hstep, fun m => (hinv.1.jobName_step hstep m).trans (hinv.2 m)⟩

theorem ordered_of_run {cr : σ} {now : DateTime} (hpast : k.Past cr now)
    (h : Reaches k.step k.Orderly { cr, clock := now } w) : k.Ordered w :=
  h.invariant k.Ordered
    ⟨.init hpast, fun r hr => by simp at hr, fun c hc => by simp at hc⟩
    fun _ _ _ hinv horderly hstep => hinv.step horderly hstep

end SlotKind

end Kopiur
