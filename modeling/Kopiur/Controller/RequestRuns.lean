import Kopiur.Controller.SlotRuns

/-!
# Requests and the Jobs that answer them

A request is a text that a user sets on the object. Its Job has a name made of
the text, the status one record that names one text. Whether a request was run
before is read off these two.
-/

namespace Kopiur

open Lib

variable {σ π ρ ε α κ τ : Type}

/-- An object with requests: the request of a run, the request that is asked now,
the name of its Job and the record of the status; and what a pass does with
them. -/
structure RequestKind (σ π ρ ε α κ τ : Type) extends RunKind σ π ρ ε α where
  origin : ρ → Option (String × κ)
  asked : σ → Option (String × κ)
  requestName : σ → String × κ → String
  record : σ → Option τ
  record? : π → Option τ
  -- What a record says of a text, and of a request.
  answers : τ → String → Bool
  succeeds : τ → String → Bool
  fails : τ → String → Bool
  running : τ → String × κ → Bool
  -- The pass comes to the requests.
  opens : ε → σ → Bool
  apply_record : ∀ p x, record (apply p x) = (record? p <|> record x)
  apply_asked : ∀ p x, asked (apply p x) = asked x ∧ requestName (apply p x) = requestName x
  stamp_keeps : ∀ run now x, record (stamp run now x) = record x ∧
    asked (stamp run now x) = asked x ∧ requestName (stamp run now x) = requestName x
  edit_keeps : ∀ a x, record (edit a x) = record x ∧ requestName (edit a x) = requestName x
  spawns : ∀ env view cr, creates (reconcile env view cr) = [] ∨
    ∃ name run, creates (reconcile env view cr) = [(name, run)] ∧ view.job name = none ∧
      (origin run = none → ∀ q, name ≠ requestName cr q) ∧
      ∀ q, origin run = some q → asked cr = some q ∧ name = requestName cr q ∧
        (record cr).any (answers · q.1) = false ∧ (record cr).any (running · q) = false
  reaps : ∀ env view cr, ∀ name ∈ deletes (reconcile env view cr), ∀ q, name ≠ requestName cr q
  records : ∀ env view cr, (patches (reconcile env view cr)).filterMap record? = [] ∨
    ∃ t q, (patches (reconcile env view cr)).filterMap record? = [t] ∧ asked cr = some q ∧
      (record cr).any (answers · q.1) = false ∧
      (answers t q.1 = true ∨ running t q = true ∨ (record cr).any (running · q) = false) ∧
      ∀ raw, succeeds t raw = true →
        raw = q.1 ∧ view.job (requestName cr q) = some (some true)
  -- The Job of a running request is gone.
  fails_lost : ∀ {env view cr q}, opens env cr = true → asked cr = some q →
    (record cr).any (answers · q.1) = false → (record cr).any (running · q) = true →
    view.job (requestName cr q) = none →
    (record (toRunKind.patched cr (patches (reconcile env view cr)))).any (fails · q.1) = true

namespace RequestKind

variable (k : RequestKind σ π ρ ε α κ τ)

def isFor (raw : String) (run : ρ) : Bool := (k.origin run).any fun q => q.1 == raw

def Known (cr : σ) (q : String × κ) : Prop :=
  (k.record cr).any (k.answers · q.1) = true ∨ (k.record cr).any (k.running · q) = true

def HasJob (w : RunWorld σ ρ) (q : String × κ) : Prop :=
  ∃ j ∈ w.jobs, j.name = k.requestName w.cr q

def Ran (w : RunWorld σ ρ) (raw : String) : Prop := ∃ c ∈ w.created, k.isFor raw c.run = true

def Traced (w : RunWorld σ ρ) (q : String × κ) : Prop :=
  k.Ran w q.1 → k.HasJob w q ∨ k.Known w.cr q

def Unaliased (w : RunWorld σ ρ) (q : String × κ) : Prop :=
  ∀ j ∈ w.jobs, j.name = k.requestName w.cr q → k.origin j.run = some q

/-- The conditions on the steps: an edit asks for something whose former Job can
be told, under a name no other request's Job has; the Job of the request is
reaped once the status knows it. -/
def Orderly (w : RunWorld σ ρ) : RunEvent ε α → Prop
  | .edit a => ∀ q, k.asked (k.edit a w.cr) = some q → k.asked w.cr ≠ some q →
    k.Traced w q ∧ k.Unaliased w q
  | .reap name => ∀ q, k.asked w.cr = some q → name = k.requestName w.cr q → k.Known w.cr q
  | .pass .. | .tick _ | .stamp _ | .finish .. => True

/-- What holds in every orderly run. -/
structure Answered (w : RunWorld σ ρ) : Prop where
  names : (w.jobs.map RunJob.name).Nodup
  ended : ∀ j ∈ w.jobs, j.terminal = some true → j.run ∈ w.succeeded
  ran : ∀ j ∈ w.jobs, ∀ q, k.origin j.run = some q → k.Ran w q.1
  unaliased : ∀ q, k.asked w.cr = some q → k.Unaliased w q
  traced : ∀ q, k.asked w.cr = some q → k.Traced w q
  once : ∀ raw, (w.created.countP fun c => k.isFor raw c.run) ≤ 1
  honest : ∀ t ∈ k.record w.cr, ∀ raw, k.succeeds t raw = true →
    ∃ r ∈ w.succeeded, k.isFor raw r = true

-- The calls of a pass

section Exec

variable {k : RequestKind σ π ρ ε α κ τ} (calls : List (RunCall π ρ)) (w : RunWorld σ ρ)

theorem cr_exec : (calls.foldl k.exec w).cr = k.patched w.cr (patches calls) := by
  induction calls generalizing w with
  | nil => rfl
  | cons call calls ih =>
    rw [List.foldl_cons, ih]
    cases call <;> rfl

theorem succeeded_exec : (calls.foldl k.exec w).succeeded = w.succeeded := by
  induction calls generalizing w with
  | nil => rfl
  | cons call calls ih =>
    rw [List.foldl_cons, ih]
    cases call <;> rfl

theorem created_exec : (calls.foldl k.exec w).created.map Creation.run =
    w.created.map Creation.run ++ (creates calls).map Prod.snd := by
  induction calls generalizing w with
  | nil => simp
  | cons call calls ih =>
    rw [List.foldl_cons, ih]
    cases call <;> simp [RunKind.exec]

theorem names_exec (h : (w.jobs.map RunJob.name ++ (creates calls).map Prod.fst).Nodup) :
    ((calls.foldl k.exec w).jobs.map RunJob.name).Nodup := by
  induction calls generalizing w with
  | nil => simpa using h
  | cons call calls ih =>
    rw [List.foldl_cons]
    apply ih
    cases call with
    | patch p => simpa [RunKind.exec] using h
    | create name run => simpa [RunKind.exec] using h
    | delete name =>
      exact h.sublist (List.Sublist.append_right (List.Sublist.map _ List.filter_sublist) _)

theorem of_mem_jobs_exec {j : RunJob ρ} (h : j ∈ (calls.foldl k.exec w).jobs) :
    j ∈ w.jobs ∨ (j.name, j.run) ∈ creates calls ∧ j.terminal = none := by
  induction calls generalizing w with
  | nil => exact .inl h
  | cons call calls ih =>
    rw [List.foldl_cons] at h
    rcases ih _ h with hj | ⟨hcreated, hterminal⟩
    · cases call with
      | patch p => exact .inl hj
      | create name run =>
        rcases List.mem_append.mp hj with hj | hj
        · exact .inl hj
        · obtain rfl := List.mem_singleton.mp hj
          exact .inr ⟨by simp, rfl⟩
      | delete name => exact .inl (List.mem_of_mem_filter hj)
    · refine .inr ⟨?_, hterminal⟩
      cases call <;> simp [hcreated]

theorem mem_jobs_exec {j : RunJob ρ} (hj : j ∈ w.jobs) (hkept : j.name ∉ deletes calls) :
    j ∈ (calls.foldl k.exec w).jobs := by
  induction calls generalizing w with
  | nil => exact hj
  | cons call calls ih =>
    rw [List.foldl_cons]
    cases call with
    | patch p => exact ih _ hj hkept
    | create name run => exact ih _ (List.mem_append_left _ hj) hkept
    | delete name =>
      obtain ⟨hname, hkept⟩ : j.name ≠ name ∧ j.name ∉ deletes calls := by simpa using hkept
      exact ih _ (List.mem_filter.mpr ⟨hj, by simpa using hname⟩) hkept

theorem mem_jobs_of_create {name : String} {run : ρ} (hcreate : (name, run) ∈ creates calls)
    (hkept : name ∉ deletes calls) : ⟨name, run, none⟩ ∈ (calls.foldl k.exec w).jobs := by
  induction calls generalizing w with
  | nil => simp at hcreate
  | cons call calls ih =>
    rw [List.foldl_cons]
    cases call with
    | patch p => exact ih _ (by simpa using hcreate) (by simpa using hkept)
    | create name' run' =>
      rw [creates_create] at hcreate
      rcases List.mem_cons.mp hcreate with heq | hcreate
      · cases heq
        exact mem_jobs_exec _ _ (by simp [RunKind.exec]) (by simpa using hkept)
      · exact ih _ hcreate (by simpa using hkept)
    | delete name' =>
      refine ih _ (by simpa using hcreate) fun hmem => hkept ?_
      simp [hmem]

end Exec

section Patched

variable {k : RequestKind σ π ρ ε α κ τ} {writes : List π} {cr : σ} {t : τ}

theorem asked_patched (writes : List π) (cr : σ) : k.asked (k.patched cr writes) = k.asked cr ∧
    k.requestName (k.patched cr writes) = k.requestName cr := by
  induction writes generalizing cr with
  | nil => exact ⟨rfl, rfl⟩
  | cons p writes ih =>
    obtain ⟨hasked, hname⟩ := ih (k.apply p cr)
    exact ⟨hasked.trans (k.apply_asked p cr).1, hname.trans (k.apply_asked p cr).2⟩

theorem record_patched_nil (h : writes.filterMap k.record? = []) :
    k.record (k.patched cr writes) = k.record cr := by
  induction writes generalizing cr with
  | nil => rfl
  | cons p writes ih =>
    cases hp : k.record? p with
    | some t => simp [hp] at h
    | none =>
      rw [RunKind.patched_cons, ih (by simpa [hp] using h), k.apply_record, hp]
      rfl

theorem record_patched_one (h : writes.filterMap k.record? = [t]) :
    k.record (k.patched cr writes) = some t := by
  induction writes generalizing cr with
  | nil => simp at h
  | cons p writes ih =>
    cases hp : k.record? p with
    | none => exact ih (by simpa [hp] using h)
    | some t' =>
      obtain ⟨rfl, hnil⟩ := by simpa [hp] using h
      rw [RunKind.patched_cons, record_patched_nil (List.filterMap_eq_nil_iff.mpr hnil),
        k.apply_record, hp]
      rfl

end Patched

-- One step

section Steps

variable {k : RequestKind σ π ρ ε α κ τ} {w : RunWorld σ ρ}

/-- What a pass that ends after `n` calls did: the Job it created, the record it
wrote. -/
structure Passed (k : RequestKind σ π ρ ε α κ τ) (env : ε) (w w' : RunWorld σ ρ) : Prop where
  asked : k.asked w'.cr = k.asked w.cr ∧ k.requestName w'.cr = k.requestName w.cr
  succeeded : w'.succeeded = w.succeeded
  names : (w'.jobs.map RunJob.name).Nodup
  kept : ∀ j ∈ w.jobs, ∀ q, j.name = k.requestName w.cr q → j ∈ w'.jobs
  created : (w'.created.map Creation.run = w.created.map Creation.run ∧
      ∀ j ∈ w'.jobs, j ∈ w.jobs) ∨
    ∃ name run, w'.created.map Creation.run = w.created.map Creation.run ++ [run] ∧
      (∀ j ∈ w'.jobs, j ∈ w.jobs ∨ j = ⟨name, run, none⟩) ∧ w.view.job name = none ∧
      (k.origin run = none → ∀ q, name ≠ k.requestName w.cr q) ∧
      ∀ q, k.origin run = some q → k.asked w.cr = some q ∧ name = k.requestName w.cr q ∧
        ⟨name, run, none⟩ ∈ w'.jobs ∧ ¬ k.Known w.cr q
  recorded : k.record w'.cr = k.record w.cr ∨
    ∃ t q, k.record w'.cr = some t ∧ k.asked w.cr = some q ∧
      (k.record w.cr).any (k.answers · q.1) = false ∧
      (k.answers t q.1 = true ∨ k.running t q = true ∨
        (k.record w.cr).any (k.running · q) = false) ∧
      ∀ raw, k.succeeds t raw = true →
        raw = q.1 ∧ w.view.job (k.requestName w.cr q) = some (some true)

theorem passed (hnames : (w.jobs.map RunJob.name).Nodup) (env : ε) (n : Nat) :
    Passed k env w (((k.reconcile env w.view w.cr).take n).foldl k.exec w) := by
  have hsplit := List.take_append_drop n (k.reconcile env w.view w.cr)
  generalize hcalls : (k.reconcile env w.view w.cr).take n = calls at hsplit ⊢
  have hdeletes : ∀ name ∈ deletes calls, ∀ q, name ≠ k.requestName w.cr q := by
    intro name hname
    refine k.reaps env w.view w.cr name ?_
    rw [← hsplit, deletes_append]
    exact List.mem_append_left _ hname
  have hcreates := congrArg creates hsplit
  rw [creates_append] at hcreates
  have hspawned : creates calls = [] ∨ creates calls = creates (k.reconcile env w.view w.cr) := by
    rcases k.spawns env w.view w.cr with hnone | ⟨name, run, hone, -⟩
    · rw [hnone] at hcreates
      exact .inl (List.append_eq_nil_iff.mp hcreates).1
    · rw [hone] at hcreates ⊢
      exact (List.append_eq_singleton_iff.mp hcreates).imp And.left And.left
  have hrecords := congrArg (fun calls => (patches calls).filterMap k.record?) hsplit
  simp only [patches_append, List.filterMap_append] at hrecords
  refine
    { asked := by rw [cr_exec]; exact asked_patched _ _
      succeeded := succeeded_exec calls w
      names := ?_
      kept := fun j hj q hq => mem_jobs_exec calls w hj fun hmem => hdeletes _ hmem q hq
      created := ?_
      recorded := ?_ }
  · apply names_exec
    rcases hspawned with hnone | hall
    · simpa [hnone] using hnames
    · rcases k.spawns env w.view w.cr with hnone | ⟨name, run, hone, hview, -⟩
      · simpa [hall, hnone] using hnames
      · have hfresh := RunWorld.view_job_none hview
        simpa [hall, hone, List.nodup_append] using ⟨hnames, fun j hj => hfresh j hj⟩
  · have hnothing : creates calls = [] → (calls.foldl k.exec w).created.map Creation.run =
        w.created.map Creation.run ∧ ∀ j ∈ (calls.foldl k.exec w).jobs, j ∈ w.jobs := by
      intro hnone
      refine ⟨by simp [created_exec, hnone], fun j hj => ?_⟩
      simpa [hnone] using of_mem_jobs_exec calls w hj
    rcases hspawned with hnone | hall
    · exact .inl (hnothing hnone)
    · rcases k.spawns env w.view w.cr with hnone | ⟨name, run, hone, hview, hcron, horigin⟩
      · exact .inl (hnothing (hall.trans hnone))
      · refine .inr ⟨name, run, by simp [created_exec, hall, hone], fun j hj => ?_, hview, hcron,
          fun q hq => ?_⟩
        · rcases of_mem_jobs_exec calls w hj with hj | ⟨hcreated, hterminal⟩
          · exact .inl hj
          · rw [hall, hone] at hcreated
            cases j
            simp_all
        · obtain ⟨hasked, rfl, hanswers, hrunning⟩ := horigin q hq
          refine ⟨hasked, rfl, mem_jobs_of_create calls w (by simp [hall, hone]) fun hmem =>
            hdeletes _ hmem q rfl, ?_⟩
          rintro (hknown | hknown)
          · simp [hanswers] at hknown
          · simp [hrunning] at hknown
  · rw [cr_exec]
    rcases k.records env w.view w.cr with hnone | ⟨t, q, hone, hasked, hfacts⟩
    · rw [hnone] at hrecords
      exact .inl (record_patched_nil (List.append_eq_nil_iff.mp hrecords).1)
    · rw [hone] at hrecords
      rcases List.append_eq_singleton_iff.mp hrecords with ⟨hnil, -⟩ | ⟨hall, -⟩
      · exact .inl (record_patched_nil hnil)
      · exact .inr ⟨t, q, record_patched_one hall, hasked, hfacts⟩

section Ran

variable {w' : RunWorld σ ρ} {raw : String} {run : ρ}

theorem ran_iff : k.Ran w raw ↔ ∃ r ∈ w.created.map Creation.run, k.isFor raw r = true := by
  constructor
  · rintro ⟨c, hc, hfor⟩
    exact ⟨c.run, List.mem_map.mpr ⟨c, hc, rfl⟩, hfor⟩
  · rintro ⟨r, hr, hfor⟩
    obtain ⟨c, hc, rfl⟩ := List.mem_map.mp hr
    exact ⟨c, hc, hfor⟩

theorem Ran.mono (hcreated : w.created.map Creation.run ⊆ w'.created.map Creation.run)
    (h : k.Ran w raw) : k.Ran w' raw := by
  obtain ⟨r, hr, hfor⟩ := ran_iff.mp h
  exact ran_iff.mpr ⟨r, hcreated hr, hfor⟩

theorem ran_append (hcreated : w'.created.map Creation.run = w.created.map Creation.run ++ [run]) :
    k.Ran w' raw ↔ k.Ran w raw ∨ k.isFor raw run = true := by
  rw [ran_iff, hcreated, ran_iff]
  constructor
  · rintro ⟨r, hr, hfor⟩
    rcases List.mem_append.mp hr with hr | hr
    · exact .inl ⟨r, hr, hfor⟩
    · obtain rfl := List.mem_singleton.mp hr
      exact .inr hfor
  · rintro (⟨r, hr, hfor⟩ | hfor)
    · exact ⟨r, List.mem_append_left _ hr, hfor⟩
    · exact ⟨run, by simp, hfor⟩

theorem count_created (w : RunWorld σ ρ) (raw : String) :
    (w.created.countP fun c => k.isFor raw c.run) =
      (w.created.map Creation.run).countP (k.isFor raw) := by
  rw [List.countP_map]
  rfl

theorem count_eq_zero (h : ¬ k.Ran w raw) :
    (w.created.map Creation.run).countP (k.isFor raw) = 0 := by
  refine List.countP_eq_zero.mpr fun r hr hfor => h (ran_iff.mpr ⟨r, hr, hfor⟩)

theorem isFor_iff {q : String × κ} (horigin : k.origin run = some q) :
    k.isFor raw run = true ↔ raw = q.1 := by
  rw [isFor, horigin, Option.any_some, beq_iff_eq]
  exact eq_comm

end Ran

section Pass

variable {w' : RunWorld σ ρ} {env : ε} {q : String × κ}

theorem Passed.known (h : Passed k env w w') (hasked : k.asked w.cr = some q)
    (hknown : k.Known w.cr q) : k.Known w'.cr q := by
  unfold Known at hknown ⊢
  rcases h.recorded with hsame | ⟨t, q', hrecord, hasked', hanswers, hstill, -⟩
  · rwa [hsame]
  · obtain rfl : q' = q := by simpa [hasked'] using hasked
    rw [hrecord]
    rcases hknown with hknown | hknown
    · simp [hanswers] at hknown
    · rcases hstill with hstill | hstill | hstill
      · exact .inl (by simpa using hstill)
      · exact .inr (by simpa using hstill)
      · simp [hstill] at hknown

theorem Answered.traced_pass (h : k.Answered w) (hpass : Passed k env w w')
    (hasked : k.asked w.cr = some q) : k.Traced w' q := by
  intro hran
  have hold : k.Ran w q.1 → k.HasJob w' q ∨ k.Known w'.cr q := by
    intro hran
    refine (h.traced q hasked hran).imp ?_ (hpass.known hasked)
    rintro ⟨j, hj, hname⟩
    exact ⟨j, hpass.kept j hj q hname, by rw [hpass.asked.2, hname]⟩
  rcases hpass.created with ⟨hsame, -⟩ | ⟨name, run, hcreated, -, -, hcron, horigin⟩
  · exact hold (hran.mono (by simp [hsame]))
  · rcases (ran_append hcreated).mp hran with hran | hfor
    · exact hold hran
    · cases hrun : k.origin run with
      | none => simp [isFor, hrun] at hfor
      | some q' =>
        obtain ⟨hasked', rfl, hjob, -⟩ := horigin q' hrun
        obtain rfl : q' = q := by simpa [hasked'] using hasked
        exact .inl ⟨_, hjob, by rw [hpass.asked.2]⟩

theorem Answered.once_pass (h : k.Answered w) (hpass : Passed k env w w') (raw : String) :
    (w'.created.countP fun c => k.isFor raw c.run) ≤ 1 := by
  have hold := h.once raw
  rw [count_created] at hold ⊢
  rcases hpass.created with ⟨hsame, -⟩ | ⟨name, run, hcreated, -, hview, -, horigin⟩
  · rwa [hsame]
  · rw [hcreated, List.countP_append]
    by_cases hfor : k.isFor raw run = true
    · cases hrun : k.origin run with
      | none => simp [isFor, hrun] at hfor
      | some q =>
        obtain rfl := (isFor_iff hrun).mp hfor
        obtain ⟨hasked, rfl, -, hunknown⟩ := horigin q hrun
        have hnever : ¬ k.Ran w q.1 := by
          intro hran
          rcases h.traced q hasked hran with ⟨j, hj, hname⟩ | hknown
          · exact RunWorld.view_job_none hview j hj hname
          · exact hunknown hknown
        simp [count_eq_zero hnever, hfor]
    · simpa [hfor] using hold

theorem Answered.pass (h : k.Answered w) (hpass : Passed k env w w') : k.Answered w' where
  names := hpass.names
  ended := by
    intro j hj hterminal
    rw [hpass.succeeded]
    rcases hpass.created with ⟨-, hjobs⟩ | ⟨name, run, -, hjobs, -⟩
    · exact h.ended j (hjobs j hj) hterminal
    · rcases hjobs j hj with hj | rfl
      · exact h.ended j hj hterminal
      · cases hterminal
  ran := by
    intro j hj q hq
    rcases hpass.created with ⟨hsame, hjobs⟩ | ⟨name, run, hcreated, hjobs, -⟩
    · exact (h.ran j (hjobs j hj) q hq).mono (by simp [hsame])
    · refine (ran_append hcreated).mpr ?_
      rcases hjobs j hj with hj | rfl
      · exact .inl (h.ran j hj q hq)
      · exact .inr ((isFor_iff hq).mpr rfl)
  unaliased := by
    intro q hasked j hj hname
    rw [hpass.asked.1] at hasked
    rw [hpass.asked.2] at hname
    rcases hpass.created with ⟨-, hjobs⟩ | ⟨name, run, -, hjobs, -, hcron, horigin⟩
    · exact h.unaliased q hasked j (hjobs j hj) hname
    · rcases hjobs j hj with hj | rfl
      · exact h.unaliased q hasked j hj hname
      · cases hrun : k.origin run with
        | none => exact absurd hname (hcron hrun q)
        | some q' =>
          obtain rfl : q' = q := by simpa [hasked] using (horigin q' hrun).1.symm
          rfl
  traced q hasked := h.traced_pass hpass (hpass.asked.1 ▸ hasked)
  once := h.once_pass hpass
  honest := by
    intro t ht raw hsucceeds
    rw [hpass.succeeded]
    rcases hpass.recorded with hsame | ⟨t', q, hrecord, hasked, -, -, hhonest⟩
    · exact h.honest t (hsame ▸ ht) raw hsucceeds
    · obtain rfl : t' = t := by simpa [hrecord] using ht
      obtain ⟨rfl, hview⟩ := hhonest raw hsucceeds
      obtain ⟨j, hj, hname, hterminal⟩ := RunWorld.view_job_some hview
      exact ⟨j.run, h.ended j hj hterminal, (isFor_iff (h.unaliased q hasked j hj hname)).mpr rfl⟩

end Pass

section Events

variable {w' : RunWorld σ ρ} {e : RunEvent ε α}

theorem Answered.rewrite (h : k.Answered w) {cr : σ} (hrecord : k.record cr = k.record w.cr)
    (hname : k.requestName cr = k.requestName w.cr)
    (hasked : ∀ q, k.asked cr = some q → k.asked w.cr ≠ some q →
      k.Traced w q ∧ k.Unaliased w q) : k.Answered { w with cr } := by
  have hboth : ∀ q, k.asked cr = some q → k.Traced w q ∧ k.Unaliased w q := by
    intro q hq
    by_cases hsame : k.asked w.cr = some q
    · exact ⟨h.traced q hsame, h.unaliased q hsame⟩
    · exact hasked q hq hsame
  refine { h with
    unaliased := fun q hq j hj hjob => (hboth q hq).2 j hj (by rwa [← hname])
    traced := fun q hq hran => ?_
    honest := fun t ht => h.honest t (hrecord ▸ ht) }
  refine ((hboth q hq).1 hran).imp ?_ ?_
  · rintro ⟨j, hj, hjob⟩
    exact ⟨j, hj, by rwa [hname]⟩
  · unfold Known
    rw [hrecord]
    exact id

theorem Answered.finish (h : k.Answered w) {name : String} {ok : Bool} {j : RunJob ρ}
    (hj : j ∈ w.jobs) (hname : j.name = name) :
    k.Answered
      { w with
        jobs := w.jobs.map (SlotKind.done name ok)
        succeeded := if ok then j.run :: w.succeeded else w.succeeded } := by
  have hmore : w.succeeded ⊆ if ok then j.run :: w.succeeded else w.succeeded := by
    cases ok with
    | true => exact List.subset_cons_self _ _
    | false => exact List.Subset.refl _
  refine
    { names := by simpa [List.map_map, Function.comp_def, SlotKind.done_name] using h.names
      ended := ?_
      ran := ?_
      unaliased := ?_
      traced := ?_
      once := h.once
      honest := ?_ }
  · intro i hi hterminal
    obtain ⟨i, hold, rfl⟩ := List.mem_map.mp hi
    rw [SlotKind.done_run]
    by_cases hsame : i.name = name
    · obtain rfl := List.inj_on_of_nodup_map h.names hold hj (hsame.trans hname.symm)
      obtain rfl : ok = true := by simpa [SlotKind.done, hsame] using hterminal
      exact List.mem_cons_self ..
    · exact hmore (h.ended i hold (by simpa [SlotKind.done, hsame] using hterminal))
  · intro i hi q hq
    obtain ⟨i, hold, rfl⟩ := List.mem_map.mp hi
    exact h.ran i hold q (by rwa [SlotKind.done_run] at hq)
  · intro q hasked i hi hjob
    obtain ⟨i, hold, rfl⟩ := List.mem_map.mp hi
    rw [SlotKind.done_run]
    exact h.unaliased q hasked i hold (by rwa [SlotKind.done_name] at hjob)
  · intro q hasked hran
    refine (h.traced q hasked hran).imp_left ?_
    rintro ⟨i, hi, hjob⟩
    exact ⟨_, List.mem_map.mpr ⟨i, hi, rfl⟩, by rwa [SlotKind.done_name]⟩
  · intro t ht raw hsucceeds
    obtain ⟨r, hr, hfor⟩ := h.honest t ht raw hsucceeds
    exact ⟨r, hmore hr, hfor⟩

theorem Answered.reap (h : k.Answered w) {name : String}
    (horderly : ∀ q, k.asked w.cr = some q → name = k.requestName w.cr q → k.Known w.cr q) :
    k.Answered { w with jobs := w.jobs.filter fun j => j.name != name } where
  names := h.names.sublist (List.Sublist.map _ List.filter_sublist)
  ended j hj := h.ended j (List.mem_of_mem_filter hj)
  ran j hj := h.ran j (List.mem_of_mem_filter hj)
  unaliased q hasked j hj := h.unaliased q hasked j (List.mem_of_mem_filter hj)
  traced := by
    intro q hasked hran
    rcases h.traced q hasked hran with ⟨j, hj, hjob⟩ | hknown
    · by_cases hsame : name = k.requestName w.cr q
      · exact .inr (horderly q hasked hsame)
      · refine .inl ⟨j, List.mem_filter.mpr ⟨hj, ?_⟩, hjob⟩
        simpa [hjob] using fun heq : k.requestName w.cr q = name => hsame heq.symm
    · exact .inr hknown
  once := h.once
  honest := h.honest

theorem Answered.step (h : k.Answered w) (horderly : k.Orderly w e)
    (hstep : k.step w e = some w') : k.Answered w' := by
  cases e with
  | pass env n =>
    cases hstep
    exact h.pass (passed h.names env n)
  | tick now =>
    obtain ⟨-, rfl⟩ := k.step_tick hstep
    exact { h with }
  | edit a =>
    cases hstep
    obtain ⟨hrecord, hname⟩ := k.edit_keeps a w.cr
    exact h.rewrite hrecord hname horderly
  | stamp name =>
    obtain ⟨j, rfl⟩ := k.step_stamp hstep
    obtain ⟨hrecord, hasked, hname⟩ := k.stamp_keeps j.run w.clock w.cr
    exact h.rewrite hrecord hname fun q hq hother => absurd (hasked ▸ hq) hother
  | finish name ok =>
    obtain ⟨j, hmem, hname, -, rfl⟩ := k.step_finish hstep
    exact h.finish hmem hname
  | reap name =>
    obtain ⟨j, -, rfl⟩ := Option.map_eq_some_iff.mp hstep
    exact h.reap horderly

theorem answered_of_run {cr : σ} {clock : DateTime} (hrecord : k.record cr = none)
    (h : Reaches k.step k.Orderly { cr, clock } w) : k.Answered w := by
  refine h.invariant k.Answered ?_ fun _ _ _ hanswered horderly hstep =>
    hanswered.step horderly hstep
  constructor
  case names => exact .nil
  case ended => exact fun j hj => nomatch hj
  case ran => exact fun j hj => nomatch hj
  case unaliased => exact fun q _ j hj => nomatch hj
  case traced => exact fun q _ hran => nomatch hran
  case once => exact fun raw => Nat.zero_le 1
  case honest =>
    intro t ht
    simp [hrecord] at ht

theorem Answered.running (h : k.Answered w) {q : String × κ} (hasked : k.asked w.cr = some q)
    (hran : k.Ran w q.1) (hgone : w.view.job (k.requestName w.cr q) = none)
    (hunanswered : (k.record w.cr).any (k.answers · q.1) = false) :
    (k.record w.cr).any (k.running · q) = true := by
  rcases h.traced q hasked hran with ⟨j, hj, hname⟩ | hknown | hknown
  · exact absurd hname (RunWorld.view_job_none hgone j hj)
  · simp [hunanswered] at hknown
  · exact hknown

end Events

end Steps

/-- What users are promised of their requests. -/
structure Promised (k : RequestKind σ π ρ ε α κ τ) (w : RunWorld σ ρ) : Prop where
  -- At most one Job is created for a text.
  once : ∀ raw, (w.created.countP fun c => k.isFor raw c.run) ≤ 1
  -- A success is that of a Job created for the text.
  honest : ∀ t ∈ k.record w.cr, ∀ raw, k.succeeds t raw = true →
    ∃ r ∈ w.succeeded, k.isFor raw r = true
  -- A request whose Job is gone unanswered is failed by the next whole pass.
  lost : ∀ q, k.asked w.cr = some q → k.Ran w q.1 →
    w.view.job (k.requestName w.cr q) = none →
    (k.record w.cr).any (k.answers · q.1) = false →
    ∀ env n w', k.opens env w.cr = true → (k.reconcile env w.view w.cr).length ≤ n →
      k.step w (.pass env n) = some w' → (k.record w'.cr).any (k.fails · q.1) = true

theorem Answered.promised {k : RequestKind σ π ρ ε α κ τ} {w : RunWorld σ ρ} (h : k.Answered w) :
    k.Promised w where
  once := h.once
  honest := h.honest
  lost := by
    intro q hasked hran hgone hanswers env n w' hopens hlength hstep
    cases hstep
    rw [List.take_of_length_le hlength, cr_exec]
    exact k.fails_lost hopens hasked hanswers (h.running hasked hran hgone hanswers) hgone

end RequestKind

end Kopiur
