import Mathlib.Data.List.Nodup
import Kopiur.Controller.GroupCapture

/-!
# One capture for a group, kept until its members are done
-/

namespace Kopiur

open Lib

variable {w w' : GroupWorld} {m m' : GroupedSnapshot} {g : SnapshotSourceGroup}
  {key : ObjectName} {uid : Nat}

def GroupWorld.Active (w : GroupWorld) (m : GroupedSnapshot) : Prop :=
  (m.terminal = false ∧ m.deleting = false) ∨ (w.pvc? m.key).isSome

def GroupWorld.Trace (w : GroupWorld) (m : GroupedSnapshot) (uid : Nat) : Prop :=
  uid ∈ w.remnants m.key m.group ∨ m.observed = some uid

/-- A reap that will delete the group knows every Snapshot pinned to it, has
listed it as done, and has read the PVC of those it is past. -/
def GroupWorld.Accounted (w : GroupWorld) (r : GroupReap) (m : GroupedSnapshot) : Prop :=
  m.terminal = true ∧ ((∃ s ∈ r.unread, s.key = m.key) ∨ w.pvc? m.key = none)

structure GroupInv (w : GroupWorld) : Prop where
  keys : (w.snapshots.map GroupedSnapshot.key).Nodup
  home : ∀ m ∈ w.snapshots, m.key.1 = m.group.ns
  settled : ∀ m ∈ w.snapshots, w.Active m → ∀ uid, w.Trace m uid → w.uid? m.group = some uid
  reaps : ∀ r ∈ w.reaps, r.unused = true → ∀ m ∈ w.snapshots, m.group = r.group →
    w.Accounted r m
  sweeps : ∀ s ∈ w.sweeps, ∀ victims, s.victims = some victims → ∀ m ∈ w.snapshots,
    m.group ∉ victims
  captures : ∀ g uid uid', (g, uid) ∈ w.succeeded → (g, uid') ∈ w.succeeded → uid = uid'

theorem mem_remnants : uid ∈ w.remnants key g ↔
    (g, uid) ∈ w.succeeded ∨ (g, uid) ∈ w.members ∨ (key, uid) ∈ w.pvcs := by
  simp [GroupWorld.remnants]

theorem snapshot?_mem (h : w.snapshot? key = some m) : m ∈ w.snapshots ∧ m.key = key :=
  ⟨List.mem_of_find?_eq_some h, by simpa using List.find?_some h⟩

theorem snapshot?_none (h : w.snapshot? key = none) (hm : m ∈ w.snapshots) : m.key ≠ key := by
  simpa using List.find?_eq_none.mp h m hm

theorem pvc?_mem (h : w.pvc? key = some uid) : (key, uid) ∈ w.pvcs := by
  obtain ⟨⟨k, u⟩, hfind, rfl⟩ := Option.map_eq_some_iff.mp h
  obtain rfl : k = key := by simpa using List.find?_some hfind
  exact List.mem_of_find?_eq_some hfind

theorem pvc?_eq_none : w.pvc? key = none ↔ ∀ uid, (key, uid) ∉ w.pvcs := by
  constructor
  · rintro h uid hmem
    simpa using List.find?_eq_none.mp (Option.map_eq_none_iff.mp h) _ hmem
  · rintro h
    cases hpvc : w.pvc? key with
    | none => rfl
    | some uid => exact absurd (pvc?_mem hpvc) (h uid)

theorem Trace.of_pvc (h : w.pvc? m.key = some uid) : w.Trace m uid :=
  .inl (mem_remnants.mpr (.inr (.inr (pvc?_mem h))))

theorem condemned_iff : w.condemned g = true ↔
    (∃ r ∈ w.reaps, r.group = g ∧ r.unused = true) ∨
      ∃ s ∈ w.sweeps, ∃ victims, s.victims = some victims ∧ g ∈ victims := by
  simp [GroupWorld.condemned, Option.any_eq_true]

theorem uid?_deleteGroup_ne {g' : SnapshotSourceGroup} (hne : g' ≠ g) :
    (w.deleteGroup g).uid? g' = w.uid? g' := by
  simp only [GroupWorld.deleteGroup, GroupWorld.uid?, GroupWorld.group?, List.find?_filter]
  congr 2
  funext x
  by_cases hx : x.key = g' <;> simp [hx, hne]

theorem uid?_ensureGroup (h : w.uid? g = some uid) (g' : SnapshotSourceGroup) :
    (w.ensureGroup g').uid? g = some uid := by
  obtain ⟨v, hv, huid⟩ := Option.map_eq_some_iff.mp h
  unfold GroupWorld.ensureGroup
  split
  · exact h
  · have hv' : w.groups.find? (fun x => x.key == g) = some v := hv
    simp only [GroupWorld.uid?, GroupWorld.group?, List.find?_append, hv', Option.some_or,
      Option.map_some, huid]

-- What keeps the invariant

/-- `m'` is what the step makes of `m`. -/
structure Follows (w w' : GroupWorld) (m m' : GroupedSnapshot) : Prop where
  key : m'.key = m.key
  group : m'.group = m.group
  active : w'.Active m' → w.Active m
  uid : ∀ u, w'.Active m' → w.uid? m.group = some u → w'.uid? m.group = some u
  trace : ∀ u, w'.Active m' → w'.Trace m' u → w.Trace m u ∨ w.uid? m.group = some u
  terminal : m.terminal = true → w.condemned m.group = true → m'.terminal = true
  pvc : m.terminal = true → w.pvc? m.key = none → w'.pvc? m.key = none

theorem GroupInv.follow (h : GroupInv w) (hkeys : (w'.snapshots.map GroupedSnapshot.key).Nodup)
    (hfollows : ∀ m' ∈ w'.snapshots, ∃ m ∈ w.snapshots, Follows w w' m m')
    (hreaps : w'.reaps ⊆ w.reaps) (hsweeps : w'.sweeps ⊆ w.sweeps)
    (hcaptures : ∀ g uid uid', (g, uid) ∈ w'.succeeded → (g, uid') ∈ w'.succeeded → uid = uid') :
    GroupInv w' where
  keys := hkeys
  home m' hm' := by
    obtain ⟨m, hm, hf⟩ := hfollows m' hm'
    rw [hf.key, hf.group]
    exact h.home m hm
  settled m' hm' hactive uid htrace := by
    obtain ⟨m, hm, hf⟩ := hfollows m' hm'
    rw [hf.group]
    have huid : w.uid? m.group = some uid := by
      rcases hf.trace uid hactive htrace with hold | huid
      · exact h.settled m hm (hf.active hactive) uid hold
      · exact huid
    exact hf.uid uid hactive huid
  reaps r hr hunused m' hm' hgroup := by
    obtain ⟨m, hm, hf⟩ := hfollows m' hm'
    have hpinned : m.group = r.group := hf.group.symm.trans hgroup
    obtain ⟨hterminal, hpvc⟩ := h.reaps r (hreaps hr) hunused m hm hpinned
    have hcondemned : w.condemned m.group = true :=
      condemned_iff.mpr (.inl ⟨r, hreaps hr, hpinned.symm, hunused⟩)
    refine ⟨hf.terminal hterminal hcondemned, ?_⟩
    rw [hf.key]
    exact hpvc.imp_right (hf.pvc hterminal)
  sweeps s hs victims hv m' hm' := by
    obtain ⟨m, hm, hf⟩ := hfollows m' hm'
    rw [hf.group]
    exact h.sweeps s (hsweeps hs) victims hv m hm
  captures := hcaptures

/-- Where the step leaves a Snapshot as it is and takes nothing of its group
away or adds to it. -/
theorem Follows.same (hgroups : w'.groups = w.groups) (hsucceeded : w'.succeeded = w.succeeded)
    (hmembers : w'.members ⊆ w.members) (hpvcs : w'.pvcs ⊆ w.pvcs)
    (hkey : m'.key = m.key) (hgroup : m'.group = m.group) (hobserved : m'.observed = m.observed)
    (hlive : m'.terminal = false → m'.deleting = false → m.terminal = false ∧ m.deleting = false)
    (hterminal : m.terminal = true → w.condemned m.group = true → m'.terminal = true) :
    Follows w w' m m' := by
  have hpvc : w.pvc? m.key = none → w'.pvc? m.key = none := by
    simp only [pvc?_eq_none]
    exact fun hnone uid hmem => hnone uid (hpvcs hmem)
  refine
    { key := hkey, group := hgroup, active := ?_, uid := ?_, trace := ?_, terminal := hterminal,
      pvc := fun _ => hpvc }
  · rintro (⟨ht, hd⟩ | hsome)
    · exact .inl (hlive ht hd)
    · right
      rw [hkey] at hsome
      by_contra hnone
      simp [hpvc (by simpa using hnone)] at hsome
  · rintro uid - huid
    rwa [GroupWorld.uid?, GroupWorld.group?, hgroups]
  · rintro uid - htrace
    left
    rcases htrace with hremnant | hobs
    · left
      rw [mem_remnants, hkey, hgroup, hsucceeded] at hremnant
      exact mem_remnants.mpr (hremnant.imp_right (Or.imp (hmembers ·) (hpvcs ·)))
    · exact .inr (hobserved ▸ hobs)

theorem Follows.refl (hgroups : w'.groups = w.groups) (hsucceeded : w'.succeeded = w.succeeded)
    (hmembers : w'.members ⊆ w.members) (hpvcs : w'.pvcs ⊆ w.pvcs) : Follows w w' m m :=
  .same hgroups hsucceeded hmembers hpvcs rfl rfl rfl .intro fun h _ => h

variable {f : GroupedSnapshot → GroupedSnapshot}

theorem keys_update (hkey : ∀ m, (f m).key = m.key) :
    (w.update key f).snapshots.map GroupedSnapshot.key =
      w.snapshots.map GroupedSnapshot.key := by
  simp only [GroupWorld.update, List.map_map]
  refine List.map_congr_left fun m _ => ?_
  dsimp only [Function.comp]
  split
  · exact hkey m
  · rfl

theorem GroupInv.mem_update (h : GroupInv w) (hm : w.snapshot? key = some m)
    (hm' : m' ∈ (w.update key f).snapshots) : m' = f m ∨ m' ∈ w.snapshots := by
  obtain ⟨m₀, hm₀, rfl⟩ := List.mem_map.mp hm'
  split
  · next hkey =>
    obtain ⟨hmem, hname⟩ := snapshot?_mem hm
    rw [List.inj_on_of_nodup_map h.keys hm₀ hmem (hkey.trans hname.symm)]
    exact .inl rfl
  · exact .inr hm₀

theorem GroupInv.update (h : GroupInv w) (hm : w.snapshot? key = some m)
    (hkey : ∀ m, (f m).key = m.key) (hf : Follows w (w.update key f) m (f m)) :
    GroupInv (w.update key f) := by
  refine h.follow ?_ ?_ (List.Subset.refl _) (List.Subset.refl _) h.captures
  · rw [keys_update hkey]
    exact h.keys
  · rintro m' hm'
    rcases h.mem_update hm hm' with rfl | hm'
    · exact ⟨m, (snapshot?_mem hm).1, hf⟩
    · exact ⟨m', hm', .refl rfl rfl (List.Subset.refl _) (List.Subset.refl _)⟩

theorem GroupInv.pvc (h : GroupInv w) (hm : m ∈ w.snapshots) (hpvc : w.pvc? m.key = some uid) :
    w.uid? m.group = some uid :=
  h.settled m hm (.inr (by simp [hpvc])) uid (Trace.of_pvc hpvc)

theorem staging_live (h : m.staging = true) : m.terminal = false ∧ m.deleting = false := by
  simp only [GroupedSnapshot.staging, Bool.and_eq_true, Bool.not_eq_true', decide_eq_true_eq] at h
  refine ⟨?_, h.1⟩
  have hrun := h.2
  unfold GroupedSnapshot.terminal
  cases hphase : m.phase with
  | none => rfl
  | some phase =>
    rw [hphase] at hrun
    cases phase with
    | pending | running | deleting | discovered | unknown => rfl
    | succeeded | unchanged | failed => cases hrun

theorem GroupInv.deleteGroup (h : GroupInv w)
    (hidle : ∀ m ∈ w.snapshots, m.group = g → ¬ w.Active m) : GroupInv (w.deleteGroup g) := by
  refine h.follow h.keys (fun m hm => ⟨m, hm, ?_⟩) (List.Subset.refl _) (List.Subset.refl _)
    h.captures
  refine
    { key := rfl, group := rfl, active := id, uid := ?_, trace := fun _ _ => .inl,
      terminal := fun ht _ => ht, pvc := fun _ => id }
  rintro uid hactive huid
  by_cases hg : m.group = g
  · exact absurd hactive (hidle m hm hg)
  · rw [uid?_deleteGroup_ne hg]
    exact huid

-- The steps

/-- A capture that is gone after the step had no pinned Snapshot that was not
done. -/
def Spares (w w' : GroupWorld) : Prop := ∀ g uid, w.uid? g = some uid → w'.uid? g ≠ some uid →
  ∀ m ∈ w.snapshots, m.group = g → m.terminal = true

theorem Spares.same (h : w'.groups = w.groups) : Spares w w' := by
  rintro g uid huid hgone
  rw [GroupWorld.uid?, GroupWorld.group?, h] at hgone
  exact absurd huid hgone

theorem Spares.deleteGroup (h : ∀ m ∈ w.snapshots, m.group = g → m.terminal = true) :
    Spares w (w.deleteGroup g) := by
  rintro g' uid huid hgone m hm rfl
  by_cases hg : m.group = g
  · exact h m hm hg
  · rw [uid?_deleteGroup_ne hg] at hgone
    exact absurd huid hgone

theorem GroupInv.mint (h : GroupInv w) (hnew : (w.snapshot? key).isNone)
    (hok : MintedBeforeReap w (.mint key g)) :
    GroupInv { w with snapshots := w.snapshots ++ [⟨key, g, none, false, none⟩] } := by
  simp only [MintedBeforeReap, mintedBeforeReap, Bool.and_eq_true, beq_iff_eq, Bool.not_eq_true',
    List.all_eq_true] at hok
  obtain ⟨⟨hhome, hfree⟩, hremnants⟩ := hok
  have hsplit : ∀ {m}, m ∈ w.snapshots ++ [(⟨key, g, none, false, none⟩ : GroupedSnapshot)] →
      m ∈ w.snapshots ∨ m = ⟨key, g, none, false, none⟩ := by simp
  constructor
  · simp only [List.map_append, List.map_cons, List.map_nil]
    refine List.nodup_append.mpr ⟨h.keys, by simp, ?_⟩
    rintro k hk _ hkey rfl
    obtain ⟨m, hm, rfl⟩ := List.mem_map.mp hk
    rw [List.mem_singleton] at hkey
    exact snapshot?_none (by simpa using hnew) hm hkey
  · rintro m hm
    rcases hsplit hm with hm | rfl
    · exact h.home m hm
    · exact hhome
  · rintro m hm hactive uid htrace
    rcases hsplit hm with hm | rfl
    · exact h.settled m hm hactive uid htrace
    · rcases htrace with hremnant | hobs
      · exact hremnants uid hremnant
      · cases hobs
  · rintro r hr hunused m hm hgroup
    rcases hsplit hm with hm | rfl
    · exact h.reaps r hr hunused m hm hgroup
    · have hcondemned : w.condemned g = true :=
        condemned_iff.mpr (.inl ⟨r, hr, hgroup.symm, hunused⟩)
      exact absurd (hfree.symm.trans hcondemned) Bool.false_ne_true
  · rintro s hs victims hv m hm hmem
    rcases hsplit hm with hm | rfl
    · exact h.sweeps s hs victims hv m hm hmem
    · have hcondemned : w.condemned g = true :=
        condemned_iff.mpr (.inr ⟨s, hs, victims, hv, hmem⟩)
      exact absurd (hfree.symm.trans hcondemned) Bool.false_ne_true
  · exact h.captures

theorem GroupInv.ensureGroup (h : GroupInv w) (g : SnapshotSourceGroup) :
    GroupInv (w.ensureGroup g) := by
  cases hexists : (w.group? g).isSome with
  | true => simpa [GroupWorld.ensureGroup, hexists] using h
  | false =>
    have hsame : w.ensureGroup g =
        { w with
          groups := w.groups ++ [⟨g, w.nextUid, some w.clock, false⟩]
          nextUid := w.nextUid + 1 } := by
      simp [GroupWorld.ensureGroup, hexists]
    rw [hsame]
    refine h.follow h.keys (fun m hm => ⟨m, hm, ?_⟩) (List.Subset.refl _) (List.Subset.refl _)
      h.captures
    refine
      { key := rfl, group := rfl, active := id, uid := fun uid _ huid => ?_,
        trace := fun _ _ => .inl, terminal := fun ht _ => ht, pvc := fun _ => id }
    rw [← hsame]
    exact uid?_ensureGroup huid g

theorem uid?_ready (g' : SnapshotSourceGroup) :
    ((w.groups.map fun v => if v.key = g then { v with ready := true } else v).find?
      fun v => v.key == g').map VolumeGroupSnapshot.uid = w.uid? g' := by
  rw [GroupWorld.uid?, GroupWorld.group?]
  induction w.groups with
  | nil => rfl
  | cons v rest ih =>
    by_cases hv : v.key = g
    · by_cases hg : g = g' <;> simp_all
    · by_cases hg : v.key = g' <;> simp_all

theorem GroupInv.ready (h : GroupInv w) {v : VolumeGroupSnapshot} (hv : w.group? g = some v) :
    GroupInv
      { w with
        groups := w.groups.map fun v => if v.key = g then { v with ready := true } else v
        members := (g, v.uid) :: w.members } := by
  refine h.follow h.keys (fun m hm => ⟨m, hm, ?_⟩) (List.Subset.refl _) (List.Subset.refl _)
    h.captures
  refine
    { key := rfl, group := rfl, active := id, uid := fun uid _ huid => ?_, trace := ?_,
      terminal := fun ht _ => ht, pvc := fun _ => id }
  · exact (uid?_ready m.group).trans huid
  · rintro uid - (hremnant | hobs)
    · rcases mem_remnants.mp hremnant with hsucceeded | hmember | hpvc
      · exact .inl (.inl (mem_remnants.mpr (.inl hsucceeded)))
      · rcases List.mem_cons.mp hmember with heq | hmember
        · obtain ⟨rfl, rfl⟩ := Prod.mk.inj heq
          exact .inr (by simp [GroupWorld.uid?, hv])
        · exact .inl (.inl (mem_remnants.mpr (.inr (.inl hmember))))
      · exact .inl (.inl (mem_remnants.mpr (.inr (.inr hpvc))))
    · exact .inl (.inr hobs)

theorem GroupInv.observe (h : GroupInv w) (hm : w.snapshot? key = some m)
    (hmember : (m.group, uid) ∈ w.members) :
    GroupInv (w.update key fun m => { m with observed := some uid }) := by
  refine h.update hm (fun _ => rfl) ?_
  refine
    { key := rfl, group := rfl, active := id, uid := fun _ _ => id, trace := ?_,
      terminal := fun ht _ => ht, pvc := fun _ => id }
  rintro u - (hremnant | hobs)
  · exact .inl (.inl hremnant)
  · obtain rfl := Option.some.inj hobs
    exact .inl (.inl (mem_remnants.mpr (.inr (.inl hmember))))

theorem GroupInv.stage (h : GroupInv w) (hm : w.snapshot? key = some m)
    (hobserved : m.observed = some uid) (hstaging : m.staging = true) :
    GroupInv { w with pvcs := (key, uid) :: w.pvcs } := by
  obtain ⟨hmem, rfl⟩ := snapshot?_mem hm
  refine h.follow h.keys (fun m' hm' => ⟨m', hm', ?_⟩) (List.Subset.refl _) (List.Subset.refl _)
    h.captures
  by_cases hkey : m'.key = m.key
  · obtain rfl := List.inj_on_of_nodup_map h.keys hm' hmem hkey
    have hlive := staging_live hstaging
    refine
      { key := rfl, group := rfl, active := fun _ => .inl hlive, uid := fun _ _ => id, trace := ?_,
        terminal := fun ht _ => ht, pvc := fun ht => absurd ht (by simp [hlive.1]) }
    rintro u - (hremnant | hobs)
    · rcases mem_remnants.mp hremnant with hsucceeded | hmember | hpvc
      · exact .inl (.inl (mem_remnants.mpr (.inl hsucceeded)))
      · exact .inl (.inl (mem_remnants.mpr (.inr (.inl hmember))))
      · rcases List.mem_cons.mp hpvc with heq | hpvc
        · obtain rfl := (Prod.mk.inj heq).2
          exact .inl (.inr hobserved)
        · exact .inl (.inl (mem_remnants.mpr (.inr (.inr hpvc))))
    · exact .inl (.inr hobs)
  · have hpvc : GroupWorld.pvc? { w with pvcs := (m.key, uid) :: w.pvcs } m'.key =
        w.pvc? m'.key := by
      simp [GroupWorld.pvc?, Ne.symm hkey]
    refine
      { key := rfl, group := rfl, active := ?_, uid := fun _ _ => id, trace := ?_,
        terminal := fun ht _ => ht, pvc := fun _ => hpvc ▸ id }
    · rintro (hlive | hsome)
      · exact .inl hlive
      · exact .inr (hpvc ▸ hsome)
    · rintro u - (hremnant | hobs)
      · left; left
        simp only [mem_remnants, List.mem_cons, Prod.mk.injEq, hkey, false_and,
          false_or] at hremnant
        exact mem_remnants.mpr hremnant
      · exact .inl (.inr hobs)

theorem follows_patchPhase {phase : SnapshotPhase} {f : GroupedSnapshot → GroupedSnapshot}
    (hf : f m = { m with phase := some phase }) {pvc : Option Nat}
    (hturns : m.turns pvc phase = true)
    (hok : m.terminal = true → siblingTerminal (some phase) = true ∨ w.condemned m.group = false) :
    Follows w (w.update key f) m (f m) := by
  rw [hf]
  refine .same rfl rfl (List.Subset.refl _) (List.Subset.refl _) rfl rfl rfl ?_ ?_
  · rintro hterminal (hdeleting : m.deleting = false)
    refine ⟨?_, hdeleting⟩
    have hphase : siblingTerminal (some phase) = false := hterminal
    by_contra hdone
    -- A run that is over goes on to its deletion only.
    have hnext : phase = .deleting := by
      simpa [GroupedSnapshot.turns, hphase, hdone] using (Bool.and_eq_true_iff.mp hturns).1
    subst hnext
    simp [GroupedSnapshot.turns, hdeleting] at hturns
  · rintro hdone hcondemned
    rcases hok hdone with hphase | hfree
    · exact hphase
    · exact absurd (hfree.symm.trans hcondemned) Bool.false_ne_true

theorem GroupInv.succeed (h : GroupInv w) (hm : w.snapshot? key = some m)
    (hpvc : w.pvc? key = some uid) {f : GroupedSnapshot → GroupedSnapshot}
    (hkey : ∀ m, (f m).key = m.key) (hf : Follows w (w.update key f) m (f m)) :
    GroupInv { w.update key f with succeeded := (m.group, uid) :: w.succeeded } := by
  obtain ⟨hmem, rfl⟩ := snapshot?_mem hm
  have huid := h.pvc hmem hpvc
  have hbase := h.update hm hkey hf
  refine
    { hbase with
      settled := fun m' hm' hactive u htrace => ?_
      captures := fun g u u' hu hu' => ?_ }
  · have hold := hbase.settled m' hm' hactive u
    rcases htrace with hremnant | hobs
    · rcases mem_remnants.mp hremnant with hsucceeded | hrest
      · rcases List.mem_cons.mp hsucceeded with heq | hsucceeded
        · obtain ⟨hgroup, rfl⟩ := Prod.mk.inj heq
          rw [hgroup]
          exact huid
        · exact hold (.inl (mem_remnants.mpr (.inl hsucceeded)))
      · exact hold (.inl (mem_remnants.mpr (.inr hrest)))
    · exact hold (.inr hobs)
  · have hlast : ∀ {g u}, (g, u) ∈ (m.group, uid) :: w.succeeded → g = m.group → u = uid := by
      rintro g u hu rfl
      rcases List.mem_cons.mp hu with heq | hu
      · exact (Prod.mk.inj heq).2
      · have hold := h.settled m hmem (.inr (by simp [hpvc])) u
          (.inl (mem_remnants.mpr (.inl hu)))
        exact Option.some.inj (hold.symm.trans huid)
    by_cases hg : g = m.group
    · exact (hlast hu hg).trans (hlast hu' hg).symm
    · have hrest : ∀ {u}, (g, u) ∈ (m.group, uid) :: w.succeeded → (g, u) ∈ w.succeeded := by
        rintro u hu
        exact (List.mem_cons.mp hu).resolve_left fun heq => hg (Prod.mk.inj heq).1
      exact h.captures g u u' (hrest hu) (hrest hu')

theorem GroupInv.patchPhase (h : GroupInv w) {phase : SnapshotPhase}
    (hok : MintedBeforeReap w (.patchPhase key phase))
    (hstep : groupStep w (.patchPhase key phase) = some w') : GroupInv w' ∧ Spares w w' := by
  replace hstep := Option.bind_eq_some_iff.mp hstep
  simp only [Option.ite_none_right_eq_some] at hstep
  obtain ⟨m, hm, hturns, hstep⟩ := hstep
  have hfree : m.terminal = true →
      siblingTerminal (some phase) = true ∨ w.condemned m.group = false := by
    rintro hdone
    simpa [MintedBeforeReap, mintedBeforeReap, hm, hdone] using hok
  have hfollows : Follows w (w.update key fun m => { m with phase := some phase }) m
      { m with phase := some phase } :=
    follows_patchPhase (f := fun m => { m with phase := some phase }) rfl hturns hfree
  split at hstep
  · next hpvc =>
    cases hstep
    exact ⟨h.succeed hm hpvc (fun _ => rfl) hfollows, .same rfl⟩
  · next hpvc =>
    cases hstep
    exact ⟨h.succeed hm hpvc (fun _ => rfl) hfollows, .same rfl⟩
  · cases hstep
    exact ⟨h.update hm (fun _ => rfl) hfollows, .same rfl⟩

-- Reaps and sweeps

theorem siblings_pinned (h : GroupInv w) (hm : m ∈ w.snapshots) (hg : m.group = g) :
    m ∈ w.siblings g := by
  subst hg
  simp [GroupWorld.siblings, hm, h.home m hm]

theorem GroupInv.reapList (h : GroupInv w) :
    GroupInv { w with reaps := w.reaps ++ [⟨g, w.siblings g, []⟩] } := by
  refine { h with reaps := fun r hr hunused m hm hgroup => ?_ }
  rcases List.mem_append.mp hr with hr | hr
  · exact h.reaps r hr hunused m hm hgroup
  · obtain rfl := List.mem_singleton.mp hr
    have hlisted := siblings_pinned h hm hgroup
    have hdone : (w.siblings g).all GroupedSnapshot.terminal = true :=
      (Bool.and_eq_true_iff.mp hunused).2
    exact ⟨List.all_eq_true.mp hdone m hlisted, .inl ⟨m, hlisted, rfl⟩⟩

theorem GroupInv.reapRead (h : GroupInv w) {i : Nat} {r : GroupReap} (hr : w.reaps[i]? = some r)
    {rest : List GroupedSnapshot} (hunread : r.unread = m :: rest) :
    GroupInv
      { w with
        reaps := w.reaps.set i
          { r with
            unread := rest
            states := r.states ++ [w.siblingState r.group.ns m] } } := by
  refine { h with reaps := fun r' hr' hunused m' hm' hgroup => ?_ }
  rcases List.mem_or_eq_of_mem_set hr' with hr' | rfl
  · exact h.reaps r' hr' hunused m' hm' hgroup
  · simp only [GroupReap.unused, groupReapable, List.all_append, List.all_cons, List.all_nil,
      Bool.and_true, Bool.and_eq_true, Bool.not_eq_true'] at hunused
    obtain ⟨⟨hstates, hterminal, hpresent⟩, hrest⟩ := hunused
    have hbefore : r.unused = true := by
      simp only [GroupReap.unused, groupReapable, Bool.and_eq_true, hunread, List.all_cons]
      exact ⟨by simpa using hstates, hterminal, hrest⟩
    obtain ⟨hdone, hread⟩ :=
      h.reaps r (List.mem_of_getElem? hr) hbefore m' hm' hgroup
    refine ⟨hdone, ?_⟩
    rcases hread with ⟨s, hs, hkey⟩ | hnone
    · rw [hunread] at hs
      rcases List.mem_cons.mp hs with rfl | hs
      · right
        have hns : r.group.ns = m'.key.1 := by rw [h.home m' hm', hgroup]
        have hname : (r.group.ns, s.key.2) = m'.key := by rw [hns, hkey]
        rw [GroupWorld.siblingState, hname] at hpresent
        exact Option.isSome_eq_false_iff.mp hpresent |> Option.isNone_iff_eq_none.mp
      · exact .inl ⟨s, hs, hkey⟩
    · exact .inr hnone

theorem GroupInv.reapDelete (h : GroupInv w) {i : Nat} {r : GroupReap}
    (hr : w.reaps[i]? = some r) (hread : r.unread = [])
    (hreapable : groupReapable (some r.states) = true) :
    GroupInv { w.deleteGroup r.group with reaps := w.reaps.eraseIdx i } ∧
      Spares w { w.deleteGroup r.group with reaps := w.reaps.eraseIdx i } := by
  have hunused : r.unused = true := by simp [GroupReap.unused, hread, hreapable]
  have hdone : ∀ m ∈ w.snapshots, m.group = r.group →
      m.terminal = true ∧ w.pvc? m.key = none := by
    rintro m hm hgroup
    obtain ⟨hterminal, ⟨s, hs, -⟩ | hnone⟩ :=
      h.reaps r (List.mem_of_getElem? hr) hunused m hm hgroup
    · rw [hread] at hs
      cases hs
    · exact ⟨hterminal, hnone⟩
  have hdeleted : GroupInv (w.deleteGroup r.group) := by
    refine h.deleteGroup fun m hm hgroup hactive => ?_
    obtain ⟨hterminal, hnone⟩ := hdone m hm hgroup
    rcases hactive with ⟨hlive, -⟩ | hpvc
    · exact absurd (hlive.symm.trans hterminal) Bool.false_ne_true
    · simp [hnone] at hpvc
  exact ⟨{ hdeleted with reaps := fun r' hr' => hdeleted.reaps r' (List.mem_of_mem_eraseIdx hr') },
    Spares.deleteGroup fun m hm hgroup => (hdone m hm hgroup).1⟩

theorem GroupInv.sweepGroups (h : GroupInv w) {i : Nat} {s : GroupSweep} {minAgeSecs : Int}
    (hs : w.sweeps[i]? = some s) (hok : MintedBeforeReap w (.sweepGroups i minAgeSecs)) :
    GroupInv
      { w with
        sweeps := w.sweeps.set i
          { s with
            victims :=
              (groupSnapshotCandidates w.groups s.live minAgeSecs w.clock).map
                VolumeGroupSnapshot.key } } := by
  refine { h with sweeps := fun s' hs' victims hv m hm hmem => ?_ }
  rcases List.mem_or_eq_of_mem_set hs' with hs' | rfl
  · exact h.sweeps s' hs' victims hv m hm hmem
  · cases hv
    obtain ⟨g, hg, hkey⟩ := List.mem_map.mp hmem
    simp only [MintedBeforeReap, mintedBeforeReap, hs, Option.all_some, List.all_eq_true] at hok
    have hunnamed := hok g hg
    simp only [liveGroups, List.contains_eq_mem, List.mem_map, Bool.not_eq_true',
      decide_eq_false_iff_not, not_exists, not_and] at hunnamed
    exact hunnamed m hm hkey.symm

theorem GroupInv.sweepNext (h : GroupInv w) {i : Nat} {s : GroupSweep}
    (hs : w.sweeps[i]? = some s) {rest : List SnapshotSourceGroup}
    (hv : s.victims = some (g :: rest)) :
    GroupInv { w with sweeps := w.sweeps.set i { s with victims := some rest } } := by
  refine { h with sweeps := fun s' hs' victims hv' m hm hmem => ?_ }
  rcases List.mem_or_eq_of_mem_set hs' with hs' | rfl
  · exact h.sweeps s' hs' victims hv' m hm hmem
  · cases hv'
    exact h.sweeps s (List.mem_of_getElem? hs) _ hv m hm (List.mem_cons_of_mem _ hmem)

theorem GroupInv.sweepDelete (h : GroupInv w) {i : Nat} {ok : Bool}
    (hstep : groupStep w (.sweepDelete i ok) = some w') : GroupInv w' ∧ Spares w w' := by
  obtain ⟨s, hs, hstep⟩ := Option.bind_eq_some_iff.mp hstep
  cases hv : s.victims with
  | none => simp [hv] at hstep
  | some victims =>
    cases victims with
    | nil => simp [hv] at hstep
    | cons g rest =>
      simp only [hv, Option.some.injEq] at hstep
      have hunpinned : ∀ m ∈ w.snapshots, m.group ≠ g := by
        rintro m hm rfl
        exact h.sweeps s (List.mem_of_getElem? hs) _ hv m hm List.mem_cons_self
      cases ok with
      | false =>
        subst hstep
        exact ⟨h.sweepNext hs hv, .same rfl⟩
      | true =>
        subst hstep
        have hdeleted : GroupInv (w.deleteGroup g) :=
          h.deleteGroup fun m hm hgroup => absurd hgroup (hunpinned m hm)
        exact ⟨hdeleted.sweepNext hs hv,
          Spares.deleteGroup fun m hm hgroup => absurd hgroup (hunpinned m hm)⟩

theorem GroupInv.step_ensureGroup (h : GroupInv w)
    (hstep : groupStep w (.ensureGroup key) = some w') : GroupInv w' ∧ Spares w w' := by
  obtain ⟨m, -, hstep⟩ := Option.bind_eq_some_iff.mp hstep
  simp only [Option.ite_none_right_eq_some] at hstep
  obtain ⟨-, ⟨⟩⟩ := hstep
  exact ⟨h.ensureGroup m.group, fun _ _ huid hgone =>
    absurd (uid?_ensureGroup huid m.group) hgone⟩

theorem GroupInv.step_ready {group : SnapshotSourceGroup} (h : GroupInv w)
    (hstep : groupStep w (.ready group) = some w') : GroupInv w' ∧ Spares w w' := by
  obtain ⟨v, hv, ⟨⟩⟩ := Option.bind_eq_some_iff.mp hstep
  exact ⟨h.ready hv, fun g _ huid hgone => absurd ((uid?_ready g).trans huid) hgone⟩

theorem GroupInv.step_observe (h : GroupInv w) (hstep : groupStep w (.observe key uid) = some w') :
    GroupInv w' ∧ Spares w w' := by
  obtain ⟨m, hm, hstep⟩ := Option.bind_eq_some_iff.mp hstep
  simp only [Option.ite_none_right_eq_some] at hstep
  obtain ⟨⟨-, -, hmember⟩, ⟨⟩⟩ := hstep
  exact ⟨h.observe hm hmember, .same rfl⟩

theorem GroupInv.step_stage (h : GroupInv w) (hstep : groupStep w (.stage key) = some w') :
    GroupInv w' ∧ Spares w w' := by
  obtain ⟨m, hm, hstep⟩ := Option.bind_eq_some_iff.mp hstep
  obtain ⟨uid, huid, hstep⟩ := Option.bind_eq_some_iff.mp hstep
  simp only [Option.ite_none_right_eq_some] at hstep
  obtain ⟨⟨hstaging, -⟩, ⟨⟩⟩ := hstep
  exact ⟨h.stage hm huid hstaging, .same rfl⟩

theorem GroupInv.step_requestDelete (h : GroupInv w)
    (hstep : groupStep w (.requestDelete key) = some w') : GroupInv w' ∧ Spares w w' := by
  obtain ⟨m, hm, ⟨⟩⟩ := Option.bind_eq_some_iff.mp hstep
  exact ⟨h.update hm (fun _ => rfl) (.same rfl rfl (List.Subset.refl _) (List.Subset.refl _) rfl
    rfl rfl (fun _ hdeleting => by cases hdeleting) fun hdone _ => hdone), .same rfl⟩

theorem GroupInv.step_release (h : GroupInv w) (hstep : groupStep w (.release key) = some w') :
    GroupInv w' ∧ Spares w w' := by
  simp only [groupStep, Option.ite_none_right_eq_some] at hstep
  obtain ⟨-, ⟨⟩⟩ := hstep
  exact ⟨h.follow h.keys (fun m hm => ⟨m, hm, .refl rfl rfl (List.Subset.refl _)
    (List.filter_subset_self _)⟩) (List.Subset.refl _) (List.Subset.refl _) h.captures, .same rfl⟩

theorem GroupInv.step_vanish (h : GroupInv w) (hstep : groupStep w (.vanish key) = some w') :
    GroupInv w' ∧ Spares w w' := by
  obtain ⟨m, -, hstep⟩ := Option.bind_eq_some_iff.mp hstep
  simp only [Option.ite_none_right_eq_some] at hstep
  obtain ⟨-, ⟨⟩⟩ := hstep
  exact ⟨h.follow (h.keys.sublist (List.filter_sublist.map _))
    (fun m hm => ⟨m, List.mem_of_mem_filter hm, .refl rfl rfl (List.Subset.refl _)
      (List.Subset.refl _)⟩) (List.Subset.refl _) (List.Subset.refl _) h.captures, .same rfl⟩

theorem GroupInv.step_collect {group : SnapshotSourceGroup} (h : GroupInv w)
    (hstep : groupStep w (.collect group uid) = some w') : GroupInv w' ∧ Spares w w' := by
  simp only [groupStep, Option.ite_none_right_eq_some] at hstep
  obtain ⟨-, ⟨⟩⟩ := hstep
  exact ⟨h.follow h.keys (fun m hm => ⟨m, hm, .refl rfl rfl (List.filter_subset_self _)
    (List.Subset.refl _)⟩) (List.Subset.refl _) (List.Subset.refl _) h.captures, .same rfl⟩

theorem GroupInv.step_reapRead {i : Nat} (h : GroupInv w)
    (hstep : groupStep w (.reapRead i) = some w') : GroupInv w' ∧ Spares w w' := by
  obtain ⟨r, hr, hstep⟩ := Option.bind_eq_some_iff.mp hstep
  cases hunread : r.unread with
  | nil => simp [hunread] at hstep
  | cons m rest =>
    simp only [hunread, Option.some.injEq] at hstep
    subst hstep
    exact ⟨h.reapRead hr hunread, .same rfl⟩

theorem GroupInv.step_reapDelete {i : Nat} (h : GroupInv w)
    (hstep : groupStep w (.reapDelete i) = some w') : GroupInv w' ∧ Spares w w' := by
  obtain ⟨r, hr, hstep⟩ := Option.bind_eq_some_iff.mp hstep
  simp only [Option.ite_none_right_eq_some] at hstep
  obtain ⟨⟨hread, hreapable⟩, ⟨⟩⟩ := hstep
  exact h.reapDelete hr hread hreapable

theorem GroupInv.step_sweepList (h : GroupInv w) (hstep : groupStep w .sweepList = some w') :
    GroupInv w' ∧ Spares w w' := by
  cases hstep
  refine ⟨{ h with sweeps := fun s hs victims hv => ?_ }, .same rfl⟩
  rcases List.mem_append.mp hs with hs | hs
  · exact h.sweeps s hs victims hv
  · obtain rfl := List.mem_singleton.mp hs
    cases hv

theorem GroupInv.step_sweepGroups {i : Nat} {minAgeSecs : Int} (h : GroupInv w)
    (hok : MintedBeforeReap w (.sweepGroups i minAgeSecs))
    (hstep : groupStep w (.sweepGroups i minAgeSecs) = some w') : GroupInv w' ∧ Spares w w' := by
  obtain ⟨s, hs, hstep⟩ := Option.bind_eq_some_iff.mp hstep
  simp only [Option.ite_none_right_eq_some] at hstep
  obtain ⟨-, ⟨⟩⟩ := hstep
  exact ⟨h.sweepGroups hs hok, .same rfl⟩

theorem GroupInv.step (h : GroupInv w) {e : GroupEvent} (hok : MintedBeforeReap w e)
    (hstep : groupStep w e = some w') : GroupInv w' ∧ Spares w w' := by
  cases e with
  | mint key group =>
    simp only [groupStep, Option.ite_none_right_eq_some] at hstep
    obtain ⟨hnew, ⟨⟩⟩ := hstep
    exact ⟨h.mint hnew hok, .same rfl⟩
  | ensureGroup key => exact h.step_ensureGroup hstep
  | ready group => exact h.step_ready hstep
  | observe key uid => exact h.step_observe hstep
  | stage key => exact h.step_stage hstep
  | patchPhase key phase => exact h.patchPhase hok hstep
  | requestDelete key => exact h.step_requestDelete hstep
  | release key => exact h.step_release hstep
  | vanish key => exact h.step_vanish hstep
  | collect group uid => exact h.step_collect hstep
  | reapList key =>
    obtain ⟨m, -, hstep⟩ := Option.bind_eq_some_iff.mp hstep
    simp only [Option.ite_none_right_eq_some] at hstep
    obtain ⟨-, ⟨⟩⟩ := hstep
    exact ⟨h.reapList, .same rfl⟩
  | reapRead i => exact h.step_reapRead hstep
  | reapDelete i => exact h.step_reapDelete hstep
  | reapDrop i =>
    cases hstep
    exact ⟨{ h with reaps := fun r hr => h.reaps r (List.mem_of_mem_eraseIdx hr) }, .same rfl⟩
  | sweepList => exact h.step_sweepList hstep
  | sweepGroups i minAgeSecs => exact h.step_sweepGroups hok hstep
  | sweepDelete i ok => exact h.sweepDelete hstep
  | sweepDrop i =>
    cases hstep
    exact ⟨{ h with sweeps := fun s hs => h.sweeps s (List.mem_of_mem_eraseIdx hs) }, .same rfl⟩
  | tick secs =>
    cases hstep
    exact ⟨{ h with }, .same rfl⟩

theorem noGroups_inv : GroupInv noGroups := by
  constructor <;> simp [noGroups]

/-- No group is deleted under a Snapshot that is not done, and all members that
succeed were staged from one capture. -/
theorem one_capture_per_group (h : Reaches groupStep MintedBeforeReap noGroups w) :
    (∀ e w', MintedBeforeReap w e → groupStep w e = some w' →
      ∀ g uid, w.uid? g = some uid → w'.uid? g ≠ some uid →
        ∀ m ∈ w.snapshots, m.group = g → m.terminal = true) ∧
    ∀ g uid uid', (g, uid) ∈ w.succeeded → (g, uid') ∈ w.succeeded → uid = uid' := by
  have hinv : GroupInv w := h.invariant GroupInv noGroups_inv
    fun _ _ _ h hok hstep => (h.step hok hstep).1
  exact ⟨fun e w' hok hstep => (hinv.step hok hstep).2, hinv.captures⟩

def nightlyGroup : SnapshotSourceGroup := ⟨"db", "nightly-0-grp"⟩

def childKey (name : String) : ObjectName := ("db", name)

def capturedRun (name : String) (uid : Nat) : List GroupEvent :=
  [.ensureGroup (childKey name), .ready nightlyGroup, .observe (childKey name) uid,
    .stage (childKey name), .patchPhase (childKey name) .running,
    .patchPhase (childKey name) .succeeded]

theorem one_capture_per_group_reaped : ∃ w, Reaches groupStep MintedBeforeReap noGroups w ∧
    ∃ w', groupStep w (.reapDelete 0) = some w' ∧ w.uid? nightlyGroup = some 0 ∧
      w'.uid? nightlyGroup = none ∧ w.snapshots.length = 2 ∧ w.succeeded.length = 2 ∧
      (∀ m ∈ w.snapshots, m.group = nightlyGroup → m.terminal = true) ∧
      ∀ uid uid', (nightlyGroup, uid) ∈ w.succeeded → (nightlyGroup, uid') ∈ w.succeeded →
        uid = uid' := by
  obtain ⟨w, hreach, w', hstep, huid, hgone, hlength, hcount⟩ : ∃ w,
      Reaches groupStep MintedBeforeReap noGroups w ∧ ∃ w' ∈ groupStep w (.reapDelete 0),
        w.uid? nightlyGroup = some 0 ∧ w'.uid? nightlyGroup = none ∧ w.snapshots.length = 2 ∧
        w.succeeded.length = 2 :=
    exists_reaches ([.mint (childKey "a") nightlyGroup, .mint (childKey "b") nightlyGroup] ++
      capturedRun "a" 0 ++ [.release (childKey "a"), .reapList (childKey "a"), .reapRead 0,
        .reapRead 0, .reapDrop 0] ++
      capturedRun "b" 0 ++ [.release (childKey "b"), .reapList (childKey "b"), .reapRead 0,
        .reapRead 0]) (by decide)
  obtain ⟨hspares, hsame⟩ := one_capture_per_group hreach
  exact ⟨w, hreach, w', hstep, huid, hgone, hlength, hcount,
    hspares (.reapDelete 0) w' rfl hstep nightlyGroup 0 huid (by simp [hgone]),
    hsame nightlyGroup⟩

/-- The second child is minted while a pass of the first is about to delete the
group, or once that pass has deleted it. -/
theorem group_reaped_between_children :
    (∃ w w', Reaches groupStep (fun _ _ => True) noGroups w ∧
      groupStep w (.reapDelete 0) = some w' ∧ w.uid? nightlyGroup = some 0 ∧
      w'.uid? nightlyGroup = none ∧
      ∃ m ∈ w.snapshots, m.group = nightlyGroup ∧ m.terminal = false) ∧
    ∃ w, Reaches groupStep (fun _ _ => True) noGroups w ∧
      (nightlyGroup, 0) ∈ w.succeeded ∧ (nightlyGroup, 1) ∈ w.succeeded := by
  constructor
  · obtain ⟨w, hreach, w', hstep, hrest⟩ : ∃ w, Reaches groupStep (fun _ _ => True) noGroups w ∧
        ∃ w' ∈ groupStep w (.reapDelete 0), w.uid? nightlyGroup = some 0 ∧
          w'.uid? nightlyGroup = none ∧
          ∃ m ∈ w.snapshots, m.group = nightlyGroup ∧ m.terminal = false :=
      exists_reaches ([.mint (childKey "a") nightlyGroup] ++ capturedRun "a" 0 ++
        [.release (childKey "a"), .reapList (childKey "a"), .reapRead 0,
          .mint (childKey "b") nightlyGroup]) (by decide)
    exact ⟨w, w', hreach, hstep, hrest⟩
  · exact exists_reaches ([.mint (childKey "a") nightlyGroup] ++ capturedRun "a" 0 ++
      [.release (childKey "a"), .reapList (childKey "a"), .reapRead 0, .reapDelete 0,
        .collect nightlyGroup 0, .mint (childKey "b") nightlyGroup] ++ capturedRun "b" 1)
      (by decide)

end Kopiur
