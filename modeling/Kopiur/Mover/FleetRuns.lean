import Kopiur.Mover.ReplicateFleet

/-!
# What replications reach

The labels of a copy's object name the replication and the manifest. They are
right as long as runs make objects only of what their own migrations wrote.
-/

namespace Kopiur

open Lib

variable {ι : Type} {F : Fleet ι} {rfc : Rfc3339}

/-- What a run is about to do: apply objects of manifests its migrations wrote
and that have no object of another name, delete objects of copies. -/
structure RunKept (F : Fleet ι) (rfc : Rfc3339) (w : FleetWorld ι) (i : ι) (run : FleetRun) :
    Prop where
  applies : ∀ sync destAfter, run.stage = .syncing sync destAfter →
    ∀ t ∈ sync.tasks, ∀ snap, .apply snap ∈ t.2 →
      snap = (buildCopySnapshot rfc (F.party i) t.1).1 ∧ w.Wrote F i t.1.destEntry.id ∧
        ∀ ns, ∀ row ∈ w.objects ns, row.standsFor F (F.dest i) t.1.destEntry.id = true →
          ns = F.home i ∧ row.metadata.nameAny = F.crName i t.1.destEntry.id
  names : ∀ names, run.stage = .pruning names → ∀ name ∈ names,
    ∃ id, w.Wrote F i id ∧ name = F.crName i id

structure FleetInv (F : Fleet ι) (rfc : Rfc3339) (w : FleetWorld ι) : Prop where
  distinct : ∀ ns, Distinct (w.objects ns)
  writer : ∀ x ∈ w.written, ∀ y ∈ w.written, x.store = y.store → x.id = y.id → x.writer = y.writer
  apart : ∀ {i j id id'}, w.Wrote F i id → w.Wrote F j id' → F.home i = F.home j →
    F.crName i id = F.crName j id' → i = j ∧ id = id'
  named : ∀ {i id}, w.Wrote F i id → ∀ row ∈ w.objects (F.home i),
    row.metadata.nameAny = F.crName i id → AppliedAs F i id row
  owned : ∀ i, ∀ row ∈ w.objects (F.home i), row.isCopyOf (F.party i) = true →
    ∃ id, w.Wrote F i id ∧ row.metadata.nameAny = F.crName i id
  single : ∀ {store id ns ns' row row'}, row ∈ w.objects ns → row' ∈ w.objects ns' →
    row.standsFor F store id = true → row'.standsFor F store id = true →
      ns = ns' ∧ row.metadata.nameAny = row'.metadata.nameAny
  runs : ∀ i run, w.runs i = some run → RunKept F rfc w i run
  pruned : ∀ p ∈ w.pruned, ∃ id, w.Wrote F p.1 id ∧ AppliedAs F p.1 id p.2

theorem FleetInv.init : FleetInv F rfc {} where
  distinct _ := .nil
  writer _ hx := nomatch hx
  apart h := nomatch h
  named h := nomatch h
  owned _ _ hrow := nomatch hrow
  single hrow := nomatch hrow
  runs _ _ hrun := nomatch hrun
  pruned _ hp := nomatch hp

section Objects

variable {w : FleetWorld ι} {i : ι} {run : FleetRun} {ns : String} {rows : List CopySnapshot}
  {row row' : CopySnapshot}

theorem SameMeta.appliedAs {id : String} (h : SameMeta row row') (hrow : AppliedAs F i id row) :
    AppliedAs F i id row' := by
  unfold SameMeta at h
  constructor <;> rw [h]
  · exact hrow.name
  · exact hrow.origin
  · exact hrow.snapshotId
  · exact hrow.repositoryUid
  · exact hrow.replication

def NoneNew (w : FleetWorld ι) (objects : String → List CopySnapshot) : Prop :=
  ∀ ns, ∀ row' ∈ objects ns, ∃ row ∈ w.objects ns, SameMeta row row'

theorem NoneNew.update (h : ∀ row' ∈ rows, ∃ row ∈ w.objects ns, SameMeta row row') :
    NoneNew w (Function.update w.objects ns rows) := by
  intro ns' row' hrow'
  by_cases hns : ns' = ns
  · subst hns
    exact h row' (by simpa using hrow')
  · exact ⟨row', by simpa [hns] using hrow', rfl⟩

theorem RunKept.keep {objects : String → List CopySnapshot} (h : RunKept F rfc w i run)
    (hnew : NoneNew w objects) : RunKept F rfc { w with objects } i run where
  applies := by
    intro sync destAfter hstage t ht snap hsnap
    obtain ⟨hbuilt, hwrote, halone⟩ := h.applies sync destAfter hstage t ht snap hsnap
    refine ⟨hbuilt, hwrote, fun ns row' hrow' hstands => ?_⟩
    obtain ⟨row, hrow, hsame⟩ := hnew ns row' hrow'
    rw [hsame.standsFor] at hstands
    rw [hsame]
    exact halone ns row hrow hstands
  names := h.names

theorem FleetInv.keep {objects : String → List CopySnapshot} (h : FleetInv F rfc w)
    (hnew : NoneNew w objects) (hdistinct : ∀ ns, Distinct (objects ns)) :
    FleetInv F rfc { w with objects } where
  distinct := hdistinct
  writer := h.writer
  apart := h.apart
  named := by
    intro i id hwrote row' hrow' hname
    obtain ⟨row, hrow, hsame⟩ := hnew _ row' hrow'
    exact hsame.appliedAs (h.named hwrote row hrow (hsame ▸ hname))
  owned := by
    intro i row' hrow' hcopy
    obtain ⟨row, hrow, hsame⟩ := hnew _ row' hrow'
    rw [hsame.isCopyOf] at hcopy
    rw [hsame]
    exact h.owned i row hrow hcopy
  single := by
    intro store id ns ns' row₁ row₂ hrow₁ hrow₂ hstands₁ hstands₂
    obtain ⟨row, hrow, hsame⟩ := hnew _ row₁ hrow₁
    obtain ⟨row', hrow', hsame'⟩ := hnew _ row₂ hrow₂
    rw [hsame.standsFor] at hstands₁
    rw [hsame'.standsFor] at hstands₂
    rw [hsame, hsame']
    exact h.single hrow hrow' hstands₁ hstands₂
  runs i run hrun := (h.runs i run hrun).keep hnew
  pruned := h.pruned

theorem distinct_update (h : ∀ ns, Distinct (w.objects ns)) (hrows : Distinct rows) (ns' : String) :
    Distinct (Function.update w.objects ns rows ns') := by
  by_cases hns : ns' = ns
  · subst hns
    simpa using hrows
  · simpa [hns] using h ns'

theorem FleetInv.setObjects (h : FleetInv F rfc w)
    (hrows : ∀ row' ∈ rows, ∃ row ∈ w.objects ns, SameMeta row row') (hdistinct : Distinct rows) :
    FleetInv F rfc (w.setObjects ns rows) :=
  h.keep (.update hrows) (distinct_update h.distinct hdistinct)

end Objects

-- Objects that come and go

section Changes

variable {w : FleetWorld ι} {i : ι} {ns name : String} {row : CopySnapshot}
  {item : CopyCorrespondence}

theorem mem_update {rows : List CopySnapshot} {ns' : String}
    (h : row ∈ (w.setObjects ns rows).objects ns') :
    (ns' = ns ∧ row ∈ rows) ∨ (ns' ≠ ns ∧ row ∈ w.objects ns') := by
  by_cases hns : ns' = ns
  · subst hns
    exact .inl ⟨rfl, by simpa [FleetWorld.setObjects] using h⟩
  · exact .inr ⟨hns, by simpa [FleetWorld.setObjects, hns] using h⟩

theorem FleetInv.delete (h : FleetInv F rfc w) :
    FleetInv F rfc (w.setObjects ns ((CopyCall.delete name).exec (w.objects ns))) :=
  h.setObjects (fun row' hrow' => ⟨row', (List.mem_filter.mp hrow').1, rfl⟩)
    ((h.distinct ns).sublist (List.filter_sublist.map _))

theorem FleetInv.amend (h : FleetInv F rfc w) {f : CopySnapshot → CopySnapshot}
    (hf : ∀ row, SameMeta row (f row)) : FleetInv F rfc (w.setObjects ns ((w.objects ns).map f)) := by
  refine h.setObjects ?_ ?_
  · intro row' hrow'
    obtain ⟨row, hrow, rfl⟩ := List.mem_map.mp hrow'
    exact ⟨row, hrow, hf row⟩
  · have hnames : ((w.objects ns).map f).map (fun row => row.metadata.nameAny) =
        (w.objects ns).map fun row => row.metadata.nameAny := by
      rw [List.map_map]
      refine List.map_congr_left fun row _ => ?_
      rw [Function.comp_apply, hf row]
    rw [Distinct, hnames]
    exact h.distinct ns

theorem distinct_apply {rows : List CopySnapshot} {snap : CopySnapshot} (h : Distinct rows) :
    Distinct ((CopyCall.apply snap).exec rows) := by
  rw [CopyCall.exec]
  split
  · have hnames : (rows.map fun row =>
        if row.named snap.metadata.nameAny then mergeApplied snap row else row).map
          (fun row => row.metadata.nameAny) = rows.map fun row => row.metadata.nameAny := by
      rw [List.map_map]
      refine List.map_congr_left fun row _ => ?_
      simp only [Function.comp_apply]
      split <;> rfl
    rw [Distinct, hnames]
    exact h
  · next hnone =>
    have hfree : ∀ row ∈ rows, row.named snap.metadata.nameAny = false := by
      simpa using hnone
    have hexec := h.exec (c := .apply snap) (by rintro _ ⟨⟩; exact hfree)
    rwa [exec_apply hfree] at hexec

/-- A run applies the object of a manifest that its migration wrote and that has
no object of another name. -/
theorem FleetInv.apply (h : FleetInv F rfc w) (hwrote : w.Wrote F i item.destEntry.id)
    (halone : ∀ ns, ∀ row ∈ w.objects ns, row.standsFor F (F.dest i) item.destEntry.id = true →
      ns = F.home i ∧ row.metadata.nameAny = F.crName i item.destEntry.id) :
    FleetInv F rfc (w.setObjects (F.home i)
      ((CopyCall.apply (buildCopySnapshot rfc (F.party i) item).1).exec (w.objects (F.home i)))) := by
  -- An object is an old one of another name, or the one that is applied.
  have hcases : ∀ {ns row}, row ∈ (w.setObjects (F.home i) ((CopyCall.apply
      (buildCopySnapshot rfc (F.party i) item).1).exec (w.objects (F.home i)))).objects ns →
      (row ∈ w.objects ns ∧ (ns = F.home i → row.metadata.nameAny ≠ F.crName i item.destEntry.id)) ∨
        ns = F.home i ∧ AppliedAs F i item.destEntry.id row := by
    intro ns row hrow
    rcases mem_update hrow with ⟨rfl, hnew⟩ | ⟨hns, hrow⟩
    · rcases mem_apply hnew with ⟨hold, hname⟩ | happlied
      · exact .inl ⟨hold, fun _ => hname⟩
      · exact .inr ⟨rfl, happlied⟩
    · exact .inl ⟨hrow, fun heq => absurd heq hns⟩
  have hstanding : ∀ {store id ns ns' row row'}, row ∈ w.objects ns → ns' = F.home i →
      AppliedAs F i item.destEntry.id row' → row.standsFor F store id = true →
        row'.standsFor F store id = true →
          ns = ns' ∧ row.metadata.nameAny = row'.metadata.nameAny := by
    intro store id ns ns' row row' hrow hns happlied hstands hstands'
    obtain ⟨rfl, rfl⟩ := happlied.standsFor_iff.mp hstands'
    obtain ⟨hhome, hname⟩ := halone ns row hrow hstands
    exact ⟨hhome.trans hns.symm, hname.trans happlied.name.symm⟩
  refine
    { distinct := distinct_update h.distinct (distinct_apply (h.distinct _))
      writer := h.writer
      apart := h.apart
      named := ?_
      owned := ?_
      single := ?_
      runs := ?_
      pruned := h.pruned }
  · intro j id hj row hrow hname
    rcases hcases hrow with ⟨hold, -⟩ | ⟨hhome, happlied⟩
    · exact h.named hj row hold hname
    · obtain ⟨rfl, rfl⟩ := h.apart hj hwrote hhome (hname.symm.trans happlied.name)
      exact happlied
  · intro j row hrow hcopy
    rcases hcases hrow with ⟨hold, -⟩ | ⟨hhome, happlied⟩
    · exact h.owned j row hold hcopy
    · have hsame : (F.party j).replName = (F.party i).replName := by
        simp only [CopySnapshot.isCopyOf, happlied.replication, Bool.and_eq_true, beq_iff_eq,
          Option.some.injEq] at hcopy
        exact hcopy.1.1.symm
      obtain rfl := F.distinct hhome hsame
      exact ⟨_, hwrote, happlied.name⟩
  · intro store id ns ns' row row' hrow hrow' hstands hstands'
    rcases hcases hrow with ⟨hold, -⟩ | ⟨hhome, happlied⟩
    · rcases hcases hrow' with ⟨hold', -⟩ | ⟨hhome', happlied'⟩
      · exact h.single hold hold' hstands hstands'
      · exact hstanding hold hhome' happlied' hstands hstands'
    · rcases hcases hrow' with ⟨hold', -⟩ | ⟨hhome', happlied'⟩
      · obtain ⟨hns, hname⟩ := hstanding hold' hhome happlied hstands' hstands
        exact ⟨hns.symm, hname.symm⟩
      · exact ⟨hhome.trans hhome'.symm, happlied.name.trans happlied'.name.symm⟩
  · intro j run hrun
    obtain ⟨happlies, hnames⟩ := h.runs j run hrun
    refine ⟨fun sync destAfter hstage t ht snap hsnap => ?_, hnames⟩
    obtain ⟨hbuilt, hwrote', halone'⟩ := happlies sync destAfter hstage t ht snap hsnap
    refine ⟨hbuilt, hwrote', fun ns row hrow hstands => ?_⟩
    rcases hcases hrow with ⟨hold, -⟩ | ⟨rfl, happlied⟩
    · exact halone' ns row hold hstands
    · -- A manifest has one writer.
      obtain ⟨hid, hdest⟩ := happlied.standsFor_iff.mp hstands
      have hwriter := h.writer _ hwrote' _ hwrote hdest hid
      obtain rfl : j = i := Option.some_inj.mp hwriter
      exact ⟨rfl, hid ▸ happlied.name⟩

theorem FleetInv.place (h : FleetInv F rfc w) (hok : FleetOk F w (.place ns row))
    (hlabel : row.metadata.labels.lookup snapshotReplicationLabel = none) :
    FleetInv F rfc (w.setObjects ns
      ((w.objects ns).filter (fun old => !old.named row.metadata.nameAny) ++ [row])) := by
  obtain ⟨hfree, halone⟩ := hok
  have hcases : ∀ {ns' row'}, row' ∈ (w.setObjects ns ((w.objects ns).filter
      (fun old => !old.named row.metadata.nameAny) ++ [row])).objects ns' →
      row' ∈ w.objects ns' ∨ ns' = ns ∧ row' = row := by
    intro ns' row' hrow'
    rcases mem_update hrow' with ⟨rfl, hmem⟩ | ⟨-, hold⟩
    · rcases List.mem_append.mp hmem with hold | hnew
      · exact .inl (List.mem_of_mem_filter hold)
      · exact .inr ⟨rfl, List.mem_singleton.mp hnew⟩
    · exact .inl hold
  refine
    { distinct := distinct_update h.distinct ?_
      writer := h.writer
      apart := h.apart
      named := ?_
      owned := ?_
      single := ?_
      runs := ?_
      pruned := h.pruned }
  · rw [Distinct, List.map_append, List.map_singleton]
    refine List.Nodup.append ((h.distinct ns).sublist (List.filter_sublist.map _))
      (List.nodup_singleton _) ?_
    rintro n hn hn'
    obtain ⟨old, hold, rfl⟩ := List.mem_map.mp hn
    have hother := (List.mem_filter.mp hold).2
    simp [CopySnapshot.named, List.mem_singleton.mp hn'] at hother
  · intro j id hj row' hrow' hname
    rcases hcases hrow' with hold | ⟨hns, rfl⟩
    · exact h.named hj row' hold hname
    · have hother := hfree _ hj j rfl hns
      simp [CopySnapshot.named, hname] at hother
  · intro j row' hrow' hcopy
    rcases hcases hrow' with hold | ⟨-, rfl⟩
    · exact h.owned j row' hold hcopy
    · simp [CopySnapshot.isCopyOf, hlabel] at hcopy
  · intro store id ns₁ ns₂ row₁ row₂ hrow₁ hrow₂ hstands₁ hstands₂
    rcases hcases hrow₁ with hold₁ | ⟨rfl, rfl⟩
    · rcases hcases hrow₂ with hold₂ | ⟨rfl, rfl⟩
      · exact h.single hold₁ hold₂ hstands₁ hstands₂
      · exact (halone store id hstands₂).2 ns₁ row₁ hold₁ hstands₁
    · rcases hcases hrow₂ with hold₂ | ⟨rfl, rfl⟩
      · obtain ⟨hns, hname⟩ := (halone store id hstands₁).2 ns₂ row₂ hold₂ hstands₂
        exact ⟨hns.symm, hname.symm⟩
      · exact ⟨rfl, rfl⟩
  · intro j run hrun
    obtain ⟨happlies, hnames⟩ := h.runs j run hrun
    refine ⟨fun sync destAfter hstage t ht snap hsnap => ?_, hnames⟩
    obtain ⟨hbuilt, hwrote, halone'⟩ := happlies sync destAfter hstage t ht snap hsnap
    refine ⟨hbuilt, hwrote, fun ns' row' hrow' hstands => ?_⟩
    rcases hcases hrow' with hold | ⟨rfl, rfl⟩
    · exact halone' ns' row' hold hstands
    · refine absurd ?_ (halone _ _ hstands).1
      exact ⟨j, run, sync, destAfter, hrun, hstage, rfl, t, ht, rfl, snap, hsnap⟩

end Changes

section Writes

variable {w w' : FleetWorld ι} {i : ι} {store id : String} {entry : SnapshotListEntry}
  {writer : Option ι} {run : FleetRun}

theorem of_add (h : w.add store entry writer = some w') :
    w' = { w with
        manifests := w'.manifests
        written := ⟨store, entry.id, writer⟩ :: w.written } ∧
      ∀ x ∈ w.written, x.store = store → x.id ≠ entry.id := by
  unfold FleetWorld.add at h
  split at h
  · cases h
  · next hfresh =>
    cases h
    refine ⟨rfl, fun x hx hstore hid => hfresh (List.any_eq_true.mpr ⟨x, hx, ?_⟩)⟩
    simp [hstore, hid]

theorem RunKept.mono (h : RunKept F rfc w i run) (hobjects : w'.objects = w.objects)
    (hwritten : w.written ⊆ w'.written) : RunKept F rfc w' i run where
  applies := by
    intro sync destAfter hstage t ht snap hsnap
    obtain ⟨hbuilt, hwrote, halone⟩ := h.applies sync destAfter hstage t ht snap hsnap
    rw [hobjects]
    exact ⟨hbuilt, hwritten hwrote, halone⟩
  names := by
    intro names hstage name hname
    obtain ⟨id, hwrote, heq⟩ := h.names names hstage name hname
    exact ⟨id, hwritten hwrote, heq⟩

/-- A manifest is written under a fresh id; the object of a copy has a free
name. -/
theorem FleetInv.add (h : FleetInv F rfc w) (hadd : w.add store entry writer = some w')
    (hcopy : ∀ i, writer = some i →
      (∀ row ∈ w.objects (F.home i), row.named (F.crName i entry.id) = false) ∧
        ∀ x ∈ w.written, ∀ j, x.writer = some j → F.home j = F.home i →
          F.crName j x.id ≠ F.crName i entry.id) : FleetInv F rfc w' := by
  obtain ⟨heq, hfresh⟩ := of_add hadd
  have hobjects : w'.objects = w.objects := by rw [heq]
  have hwritten : w'.written = ⟨store, entry.id, writer⟩ :: w.written := by rw [heq]
  have hold : w.written ⊆ w'.written := by
    rw [hwritten]
    exact List.subset_cons_self _ _
  have hwrote : ∀ {j id}, w'.Wrote F j id → w.Wrote F j id ∨ writer = some j ∧ id = entry.id := by
    intro j id hj
    unfold FleetWorld.Wrote at hj
    rw [hwritten] at hj
    rcases List.mem_cons.mp hj with hnew | hj
    · cases hnew
      exact .inr ⟨rfl, rfl⟩
    · exact .inl hj
  refine
    { distinct := hobjects ▸ h.distinct
      writer := ?_
      apart := ?_
      named := ?_
      owned := ?_
      single := by rw [hobjects]; exact h.single
      runs := ?_
      pruned := ?_ }
  · intro x hx y hy hstore hid
    rw [hwritten] at hx hy
    rcases List.mem_cons.mp hx with rfl | hx
    · rcases List.mem_cons.mp hy with rfl | hy
      · rfl
      · exact absurd hid.symm (hfresh y hy hstore.symm)
    · rcases List.mem_cons.mp hy with rfl | hy
      · exact absurd hid (hfresh x hx hstore)
      · exact h.writer x hx y hy hstore hid
  · intro j j' id id' hj hj' hhome hname
    rcases hwrote hj with hj | ⟨hwriter, rfl⟩
    · rcases hwrote hj' with hj' | ⟨hwriter', rfl⟩
      · exact h.apart hj hj' hhome hname
      · exact absurd hname ((hcopy j' hwriter').2 _ hj j rfl hhome)
    · rcases hwrote hj' with hj' | ⟨hwriter', rfl⟩
      · exact absurd hname.symm ((hcopy j hwriter).2 _ hj' j' rfl hhome.symm)
      · exact ⟨Option.some_inj.mp (hwriter.symm.trans hwriter'), rfl⟩
  · intro j id hj row hrow hname
    rw [hobjects] at hrow
    rcases hwrote hj with hj | ⟨hwriter, rfl⟩
    · exact h.named hj row hrow hname
    · have hfree := (hcopy j hwriter).1 row hrow
      simp [CopySnapshot.named, hname] at hfree
  · intro j row hrow hcopyOf
    rw [hobjects] at hrow
    obtain ⟨id, hj, hname⟩ := h.owned j row hrow hcopyOf
    exact ⟨id, hold hj, hname⟩
  · intro j run hrun
    have hruns : w'.runs = w.runs := by rw [heq]
    exact (h.runs j run (hruns ▸ hrun)).mono hobjects hold
  · intro p hp
    have hpruned : w'.pruned = w.pruned := by rw [heq]
    obtain ⟨id, hj, happlied⟩ := h.pruned p (hpruned ▸ hp)
    exact ⟨id, hold hj, happlied⟩

end Writes

-- Runs

section Runs

variable {w w' : FleetWorld ι} {i : ι} {run : FleetRun} {sync : ReplRun}
  {destAfter : List SnapshotListEntry} {task : Nat} {item : CopyCorrespondence}
  {calls rest : List CopyCall}

theorem RunKept.idle (hstage : run.stage = .copying) : RunKept F rfc w i run where
  applies := by simp [hstage]
  names := by simp [hstage]

theorem RunKept.advance (h : RunKept F rfc w i run) (hstage : run.stage = .syncing sync destAfter)
    (hget : sync.tasks[task]? = some (item, calls)) (hrest : rest ⊆ calls) (failed : Bool) :
    RunKept F rfc w i { run with
      stage := .syncing { advance sync task item rest with failed } destAfter } where
  applies := by
    rintro _ _ ⟨⟩ t ht snap hsnap
    rcases List.mem_or_eq_of_mem_set ht with ht | rfl
    · exact h.applies sync destAfter hstage t ht snap hsnap
    · exact h.applies sync destAfter hstage (item, calls) (List.mem_of_getElem? hget) snap
        (hrest hsnap)
  names := by rintro _ ⟨⟩

theorem RunKept.plan (hok : FleetOk F w (.sync i)) (hrun : w.runs i = some run) :
    RunKept F rfc w i { run with
      stage := .syncing (reconcileCopyCrs rfc (F.party i) (w.objects (F.home i))
        (correspondenceSet run.source run.selected (w.manifests (F.dest i))))
        (w.manifests (F.dest i)) } where
  applies := by
    rintro _ _ ⟨⟩ t ht snap hsnap
    obtain ⟨item, hitem, rfl⟩ := List.mem_map.mp ht
    unfold syncOne at hsnap
    rcases List.mem_append.mp hsnap with happly | hdelete
    · split at happly
      · cases happly
      · next hnone =>
        have hunlisted : w.Unlisted F i item.destEntry.id := by
          intro row hrow hlisted
          by_contra hdiscovered
          refine hnone (List.any_eq_true.mpr ⟨row, List.mem_filter.mpr ⟨hrow, hlisted⟩, ?_⟩)
          simpa using hdiscovered
        obtain ⟨hwrote, halone⟩ := hok run hrun item hitem hunlisted
        obtain rfl : snap = (buildCopySnapshot rfc (F.party i) item).1 := by simpa using happly
        refine ⟨rfl, hwrote, fun ns row hrow hstands => ?_⟩
        simp [halone ns row hrow] at hstands
    · simp at hdelete
  names := by rintro _ ⟨⟩

theorem FleetInv.runKept_prune (h : FleetInv F rfc w) {pruning : PruningSpec}
    {sourceKeys : Finset SnapKey} : RunKept F rfc w i { run with
      stage := .pruning (pruneNames pruning (listCopyRows rfc (F.party i) (w.objects (F.home i)))
        sourceKeys) } where
  applies := by rintro _ _ ⟨⟩
  names := by
    rintro _ ⟨⟩ name hname
    obtain ⟨c, hc, rfl⟩ := exists_of_mem_pruneNames (names_listCopyRows (h.distinct _)) hname
    obtain ⟨row, hrow, hcopy, hread⟩ := mem_listCopyRows.mp hc
    obtain ⟨id, hwrote, hcr⟩ := h.owned i row hrow hcopy
    exact ⟨id, hwrote, (name_of_copyRow hread).trans hcr⟩

variable [DecidableEq ι]

theorem FleetInv.setRun (h : FleetInv F rfc w) {next : Option FleetRun}
    (hnext : ∀ run, next = some run → RunKept F rfc w i run) : FleetInv F rfc (w.setRun i next) :=
  { h with
    runs := by
      intro j run hrun
      by_cases hj : j = i
      · subst hj
        exact (hnext run (by simpa [FleetWorld.setRun] using hrun)).mono rfl (List.Subset.refl _)
      · exact (h.runs j run (by simpa [FleetWorld.setRun, hj] using hrun)).mono rfl
          (List.Subset.refl _) }

theorem FleetInv.setStage (h : FleetInv F rfc w) {stage : FleetStage}
    (hstage : RunKept F rfc w i { run with stage }) : FleetInv F rfc (w.setStage i run stage) :=
  h.setRun (by rintro _ ⟨⟩; exact hstage)

theorem FleetInv.call (h : FleetInv F rfc w) (hrun : w.runs i = some run)
    (hstage : run.stage = .syncing sync destAfter) {c : CopyCall}
    (hget : sync.tasks[task]? = some (item, c :: rest)) :
    FleetInv F rfc ((w.setObjects (F.home i) (c.exec (w.objects (F.home i)))).setStage i run
      (.syncing (Kopiur.advance sync task item rest) destAfter)) := by
  have hkept : FleetInv F rfc (w.setObjects (F.home i) (c.exec (w.objects (F.home i)))) := by
    cases c with
    | apply snap =>
      obtain ⟨hsnap, hwrote, halone⟩ := (h.runs i run hrun).applies sync destAfter hstage _
        (List.mem_of_getElem? hget) snap (by simp)
      rw [hsnap]
      exact h.apply hwrote halone
    | patchStatus name status =>
      refine h.amend fun row => ?_
      split <;> rfl
    | delete name => exact h.delete
  have hrest : rest ⊆ c :: rest := List.subset_cons_self _ _
  exact hkept.setStage ((hkept.runs i run hrun).advance hstage hget hrest sync.failed)

theorem FleetInv.pruneOne (h : FleetInv F rfc w) (hrun : w.runs i = some run) {name : String}
    {names : List String} (hstage : run.stage = .pruning (name :: names)) :
    FleetInv F rfc (w.setStage i run (.pruning names)) ∧
      FleetInv F rfc
        { (w.setStage i run (.pruning names)).setObjects (F.home i)
            ((CopyCall.delete name).exec (w.objects (F.home i))) with
          pruned := ((w.objects (F.home i)).filter (CopySnapshot.named name)).map (i, ·) ++
            w.pruned } := by
  have hnames := (h.runs i run hrun).names _ hstage
  have hkept : FleetInv F rfc (w.setStage i run (.pruning names)) := by
    refine h.setStage ⟨?_, ?_⟩
    · rintro _ _ ⟨⟩
    · rintro _ ⟨⟩ name' hname'
      exact hnames name' (List.mem_cons_of_mem _ hname')
  have hdeleted : FleetInv F rfc ((w.setStage i run (.pruning names)).setObjects (F.home i)
      ((CopyCall.delete name).exec (w.objects (F.home i)))) := hkept.delete
  refine ⟨hkept, { hdeleted with
    pruned := ?_
    runs := fun j run hrun => (hdeleted.runs j run hrun).mono rfl (List.Subset.refl _) }⟩
  intro p hp
  rcases List.mem_append.mp hp with hp | hp
  · obtain ⟨row, hrow, rfl⟩ := List.mem_map.mp hp
    obtain ⟨hold, hnamed⟩ := List.mem_filter.mp hrow
    obtain ⟨id, hwrote, rfl⟩ := hnames name (List.mem_cons_self ..)
    exact ⟨id, hwrote, h.named hwrote row hold (named_iff.mp hnamed)⟩
  · exact h.pruned p hp

theorem FleetInv.step_start {op : ReplicateOp} (h : FleetInv F rfc w)
    (hstep : fleetStep F rfc w (.start i op) = some w') : FleetInv F rfc w' := by
  simp only [fleetStep] at hstep
  split at hstep
  · cases hstep
  · split at hstep
    · cases hstep
    · cases hstep
      exact h.setRun (by rintro _ ⟨⟩; exact .idle rfl)

theorem FleetInv.step_copy {entry : SnapshotListEntry} (h : FleetInv F rfc w)
    (hok : FleetOk F w (.copy i entry))
    (hstep : fleetStep F rfc w (.copy i entry) = some w') : FleetInv F rfc w' := by
  obtain ⟨run, -, hcopy⟩ := Option.bind_eq_some_iff.mp hstep
  split at hcopy
  · split at hcopy
    · exact h.add hcopy (by rintro _ ⟨⟩; exact hok)
    · cases hcopy
  · cases hcopy
  · cases hcopy

theorem FleetInv.step_sync (h : FleetInv F rfc w) (hok : FleetOk F w (.sync i))
    (hstep : fleetStep F rfc w (.sync i) = some w') : FleetInv F rfc w' := by
  obtain ⟨run, hrun, hsync⟩ := Option.bind_eq_some_iff.mp hstep
  split at hsync
  · cases hsync
    exact h.setStage (.plan hok hrun)
  · cases hsync
  · cases hsync

theorem FleetInv.step_call (h : FleetInv F rfc w)
    (hstep : fleetStep F rfc w (.call i task) = some w') : FleetInv F rfc w' := by
  obtain ⟨run, hrun, hcall⟩ := Option.bind_eq_some_iff.mp hstep
  split at hcall
  · next sync destAfter hstage =>
    split at hcall
    · next item c rest hget =>
      cases hcall
      exact h.call hrun hstage hget
    · cases hcall
    · cases hcall
  · cases hcall
  · cases hcall

theorem FleetInv.step_tolerate (h : FleetInv F rfc w)
    (hstep : fleetStep F rfc w (.tolerate i task) = some w') : FleetInv F rfc w' := by
  obtain ⟨run, hrun, hgo⟩ := Option.bind_eq_some_iff.mp hstep
  split at hgo
  · next sync destAfter hstage =>
    split at hgo
    · next item name rest hget =>
      cases hgo
      have hrest : rest ⊆ .delete name :: rest := List.subset_cons_self _ _
      exact h.setStage ((h.runs i run hrun).advance hstage hget hrest sync.failed)
    · cases hgo
    · cases hgo
    · cases hgo
    · cases hgo
  · cases hgo
  · cases hgo

theorem FleetInv.step_fail (h : FleetInv F rfc w)
    (hstep : fleetStep F rfc w (.fail i task) = some w') : FleetInv F rfc w' := by
  obtain ⟨run, hrun, hfail⟩ := Option.bind_eq_some_iff.mp hstep
  split at hfail
  · next sync destAfter hstage =>
    split at hfail
    · next item c rest hget =>
      cases hfail
      exact h.setStage ((h.runs i run hrun).advance hstage hget (List.nil_subset _) true)
    · cases hfail
    · cases hfail
  · cases hfail
  · cases hfail

theorem FleetInv.step_prune (h : FleetInv F rfc w)
    (hstep : fleetStep F rfc w (.prune i) = some w') : FleetInv F rfc w' := by
  obtain ⟨run, hrun, hprune⟩ := Option.bind_eq_some_iff.mp hstep
  split at hprune
  · split at hprune
    · cases hprune
      exact h.setStage h.runKept_prune
    · cases hprune
  · cases hprune
  · cases hprune

theorem FleetInv.step_pruneOne {deleted : Bool} (h : FleetInv F rfc w)
    (hstep : fleetStep F rfc w (.pruneOne i deleted) = some w') : FleetInv F rfc w' := by
  obtain ⟨run, hrun, hone⟩ := Option.bind_eq_some_iff.mp hstep
  split at hone
  · next name names hstage =>
    obtain ⟨hskipped, hdeleted⟩ := h.pruneOne hrun hstage
    cases deleted with
    | true =>
      cases hone
      exact hdeleted
    | false =>
      cases hone
      exact hskipped
  · cases hone
  · cases hone
  · cases hone

theorem FleetInv.step (h : FleetInv F rfc w) {e : FleetStep ι} (hok : FleetOk F w e)
    (hstep : fleetStep F rfc w e = some w') : FleetInv F rfc w' := by
  cases e with
  | write store entry => exact h.add hstep nofun
  | forget store id =>
    cases hstep
    exact { h with runs := fun j run hrun => (h.runs j run hrun).mono rfl (List.Subset.refl _) }
  | place ns row =>
    simp only [fleetStep] at hstep
    split at hstep
    · next hlabel =>
      cases hstep
      exact h.place hok hlabel
    · cases hstep
  | amend ns row =>
    cases hstep
    refine h.amend fun old => ?_
    split
    · next hsame => exact hsame.symm
    · rfl
  | remove ns name =>
    cases hstep
    exact h.delete
  | start i op => exact h.step_start hstep
  | copy i entry => exact h.step_copy hok hstep
  | sync i => exact h.step_sync hok hstep
  | call i task => exact h.step_call hstep
  | tolerate i task => exact h.step_tolerate hstep
  | fail i task => exact h.step_fail hstep
  | prune i => exact h.step_prune hstep
  | pruneOne i deleted => exact h.step_pruneOne hstep
  | stop i =>
    obtain ⟨run, -, rfl⟩ := Option.map_eq_some_iff.mp hstep
    refine h.setRun fun run hnone => ?_
    cases hnone

end Runs

/-- In every run where each replication makes objects only of what its own
migrations wrote, and a manifest gets a second object from nobody: a prune
deletes only objects of manifests that its replication wrote, an object of a
replication's copy is of such a manifest and of none that another party wrote,
and no manifest has two objects that are not discovered. -/
theorem replications_reach_only_own_copies [DecidableEq ι] (F : Fleet ι) (rfc : Rfc3339)
    (w : FleetWorld ι) (h : Reaches (fleetStep F rfc) (FleetOk F) {} w) :
    (∀ p ∈ w.pruned, ∃ id, p.2.metadata.labels.lookup snapshotIdLabel = some id ∧
      w.Wrote F p.1 id) ∧
      (∀ i, ∀ row ∈ w.objects (F.home i), row.isCopyOf (F.party i) = true →
        ∃ id, row.metadata.labels.lookup snapshotIdLabel = some id ∧ w.Wrote F i id ∧
          ∀ writer, ⟨F.dest i, id, writer⟩ ∈ w.written → writer = some i) ∧
      ∀ store id ns ns' row row', row ∈ w.objects ns → row' ∈ w.objects ns' →
        row.standsFor F store id = true → row'.standsFor F store id = true →
          ns = ns' ∧ row = row' := by
  have hinv : FleetInv F rfc w := h.invariant (FleetInv F rfc) .init fun _ _ _ hinv hok hstep =>
    hinv.step hok hstep
  refine ⟨fun p hp => ?_, fun i row hrow hcopy => ?_, ?_⟩
  · obtain ⟨id, hwrote, happlied⟩ := hinv.pruned p hp
    exact ⟨id, happlied.snapshotId, hwrote⟩
  · obtain ⟨id, hwrote, hname⟩ := hinv.owned i row hrow hcopy
    exact ⟨id, (hinv.named hwrote row hrow hname).snapshotId, hwrote, fun writer hwriter =>
      hinv.writer _ hwriter _ hwrote rfl rfl⟩
  · intro store id ns ns' row row' hrow hrow' hstands hstands'
    obtain ⟨rfl, hname⟩ := hinv.single hrow hrow' hstands hstands'
    exact ⟨rfl, List.inj_on_of_nodup_map (hinv.distinct ns) hrow hrow' hname⟩

-- Two replications of one destination

/-- A replication, and another one of the same two repositories in another
namespace. -/
def twoCopies : Fleet Bool where
  party other := if other then { offsiteCopy with ns := "other" } else offsiteCopy
  sourceUid _ := "src"
  store uid := uid
  distinct := by decide

def keepingOne : ReplicateOp := { repl := offsiteCopy, pruning := .retention keepOne }

def twoDaysCopied : List (FleetStep Bool) :=
  [.write "src" (dayManifest "s1" 0), .write "src" (dayManifest "s2" 86400),
    .start false keepingOne, .copy false (dayManifest "d1" 0),
    .copy false (dayManifest "d2" 86400)]

def syncedAndPruned (i : Bool) : List (FleetStep Bool) :=
  [.sync i, .call i 0, .call i 0, .call i 1, .call i 1, .prune i, .pruneOne i true]

def FleetStep.unconditional {ι : Type} : FleetStep ι → Bool
  | .sync _ | .copy .. | .place .. => false
  | .write .. | .forget .. | .amend .. | .remove .. | .start .. | .call .. | .tolerate ..
  | .fail .. | .prune _ | .pruneOne .. | .stop _ => true

theorem FleetOk.of_unconditional (w : FleetWorld ι) (e : FleetStep ι)
    (h : e.unconditional = true) : FleetOk F w e := by
  cases e with
  | sync | copy | place => cases h
  | _ => exact trivial

def FleetStep.onlyManifests {ι : Type} : FleetStep ι → Bool
  | .write .. | .start .. | .copy .. => true
  | .forget .. | .place .. | .amend .. | .remove .. | .sync _ | .call .. | .tolerate .. | .fail ..
  | .prune _ | .pruneOne .. | .stop _ => false

theorem objects_of_onlyManifests [DecidableEq ι] {w w' : FleetWorld ι} {e : FleetStep ι}
    (h : e.onlyManifests = true) (hstep : fleetStep F rfc w e = some w') :
    w'.objects = w.objects := by
  cases e with
  | write store entry =>
    rw [(of_add hstep).1]
  | start i op =>
    simp only [fleetStep] at hstep
    split at hstep
    · cases hstep
    · split at hstep
      · cases hstep
      · cases hstep
        rfl
  | copy i entry =>
    obtain ⟨run, -, hcopy⟩ := Option.bind_eq_some_iff.mp hstep
    split at hcopy
    · split at hcopy
      · rw [(of_add hcopy).1]
      · cases hcopy
    · cases hcopy
    · cases hcopy
  | _ => cases h

/-- The first replication prunes what it copied. -/
theorem replications_reach_only_own_copies_pruned :
    ∃ w, Reaches (fleetStep twoCopies twoDays) (FleetOk twoCopies) {} w ∧
      w.pruned.map (fun p => p.2.metadata.labels.lookup snapshotIdLabel) = [some "d1"] ∧
      ∀ p ∈ w.pruned, ∃ id, p.2.metadata.labels.lookup snapshotIdLabel = some id ∧
        w.Wrote twoCopies p.1 id := by
  let step := fleetStep twoCopies twoDays
  have hruns : ((runSteps step (fun _ e => e.onlyManifests = true ∧ e.unconditional = true) {}
        (twoDaysCopied.take 3)).bind
      fun u => (step u (.copy false (dayManifest "d1" 0))).bind
        fun v => (step v (.copy false (dayManifest "d2" 86400))).bind
          fun w => (step w (.sync false)).bind
            fun x => (runSteps step (fun _ e => e.unconditional = true) x
              (syncedAndPruned false).tail).map fun y => (u, v, w, y)).any
      (fun (u, v, w, y) => decide
        ((∀ x ∈ u.written, x.writer = none) ∧
          (∀ x ∈ v.written, x.writer = none ∨ x.id = "d1" ∧ x.writer = some false) ∧
          (∀ e ∈ w.manifests (twoCopies.dest false),
            (⟨twoCopies.dest false, e.id, some false⟩ : Written Bool) ∈ w.written) ∧
          y.pruned.map (fun p => p.2.metadata.labels.lookup snapshotIdLabel) = [some "d1"])) =
        true := by
    decide
  obtain ⟨⟨u, v, w, y⟩, hsteps, hfacts⟩ := (Option.any_eq_true ..).mp hruns
  obtain ⟨u, hu, hsteps⟩ := Option.bind_eq_some_iff.mp hsteps
  obtain ⟨v, hv, hsteps⟩ := Option.bind_eq_some_iff.mp hsteps
  obtain ⟨w, hw, hsteps⟩ := Option.bind_eq_some_iff.mp hsteps
  obtain ⟨x, hx, hsteps⟩ := Option.bind_eq_some_iff.mp hsteps
  obtain ⟨y, hy, heq⟩ := Option.map_eq_some_iff.mp hsteps
  cases heq
  obtain ⟨hothers, hfirst, hown, hpruned⟩ := of_decide_eq_true hfacts
  -- No object is there until the run syncs.
  have hunone : u.objects = fun _ => [] :=
    (reaches_of_runSteps hu).invariant (fun w => w.objects = fun _ => []) rfl
      fun _ _ _ hnone he hstep => (objects_of_onlyManifests he.1 hstep).trans hnone
  have hvnone : v.objects = fun _ => [] := (objects_of_onlyManifests rfl hv).trans hunone
  have hwnone : w.objects = fun _ => [] := (objects_of_onlyManifests rfl hw).trans hvnone
  have hrunu : Reaches step (FleetOk twoCopies) {} u :=
    (reaches_of_runSteps hu).mono fun w e he => .of_unconditional w e he.2
  have hrunv : Reaches step (FleetOk twoCopies) {} v := by
    refine .tail (a := .copy false (dayManifest "d1" 0)) hrunu ⟨by simp [hunone], ?_⟩ hv
    intro z hz j hwriter
    simp [hothers z hz] at hwriter
  have hrunw : Reaches step (FleetOk twoCopies) {} w := by
    refine .tail (a := .copy false (dayManifest "d2" 86400)) hrunv ⟨by simp [hvnone], ?_⟩ hw
    intro z hz j hwriter _
    rcases hfirst z hz with hnone | ⟨hid, hfalse⟩
    · simp [hnone] at hwriter
    · obtain rfl : j = false := by simpa [hfalse] using hwriter.symm
      rw [hid]
      decide
  have hrunx : Reaches step (FleetOk twoCopies) {} x := by
    refine .tail (a := .sync false) hrunw (fun run _ item hitem _ => ?_) hx
    exact ⟨hown item.destEntry (mem_correspondenceSet.mp hitem).1, by simp [hwnone]⟩
  have hruny : Reaches step (FleetOk twoCopies) {} y :=
    hrunx.trans ((reaches_of_runSteps hy).mono .of_unconditional)
  exact ⟨y, hruny, hpruned, (replications_reach_only_own_copies twoCopies twoDays y hruny).1⟩

instance (w : FleetWorld Bool) (i : Bool) (id : String) : Decidable (w.Wrote twoCopies i id) :=
  inferInstanceAs (Decidable (_ ∈ _))

/-- The second replication takes the copies of the first for its own. -/
theorem replications_reach_other_copies :
    ∃ w, Reaches (fleetStep twoCopies twoDays) (fun _ _ => True) {} w ∧
      (∃ p ∈ w.pruned, p.2.metadata.labels.lookup snapshotIdLabel = some "d1" ∧
        ¬ w.Wrote twoCopies p.1 "d1") ∧
      (∃ row ∈ w.objects "other", row.isCopyOf (twoCopies.party true) = true ∧
        row.spec.deletionPolicy = some .delete ∧
        row.metadata.labels.lookup snapshotIdLabel = some "d2" ∧ ¬ w.Wrote twoCopies true "d2") ∧
      ∃ row ∈ w.objects offsiteCopy.ns, ∃ row' ∈ w.objects "other", offsiteCopy.ns ≠ "other" ∧
        row.standsFor twoCopies offsiteCopy.destRepo.uid "d2" = true ∧
          row'.standsFor twoCopies offsiteCopy.destRepo.uid "d2" = true := by
  exact exists_reaches (twoDaysCopied ++ syncedAndPruned false ++
    .start true keepingOne :: syncedAndPruned true) (by decide)

end Kopiur
