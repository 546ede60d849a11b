import Mathlib.Data.List.Nodup
import Kopiur.Controller.CaptureRecords

/-!
# One kopia snapshot for each capture
-/

namespace Kopiur

open Lib

instance : IsTrans SnapshotListEntry EndsLater := ⟨fun _ _ _ h h' => le_trans h' h⟩

instance : Std.Total EndsLater := ⟨fun a b => le_total b.endTime a.endTime⟩

theorem not_find?_of_sublist {α : Type} {p : α → Bool} {l : List α} {a b : α} (hnodup : l.Nodup)
    (hab : [a, b].Sublist l) (ha : p a = true) : l.find? p ≠ some b := by
  induction l with
  | nil => cases hab
  | cons x rest ih =>
    obtain ⟨hx, hrest⟩ := List.nodup_cons.mp hnodup
    cases hab with
    | cons _ hsub =>
      rw [List.find?_cons]
      split
      · rintro ⟨⟩
        exact hx (hsub.subset (by simp))
      · exact ih hrest hsub
    | cons_cons _ hsub =>
      rw [List.find?_cons, ha]
      rintro ⟨⟩
      exact hx (hsub.subset (by simp))

theorem sublist_sorted_of_lt {l : List SnapshotListEntry} {a b : SnapshotListEntry} (ha : a ∈ l)
    (hb : b ∈ l) (hlt : b.endTime < a.endTime) :
    [a, b].Sublist (l.insertionSort EndsLater) := by
  have hsorted := List.pairwise_insertionSort EndsLater l
  obtain ⟨before, after, hsplit⟩ := List.append_of_mem ((List.mem_insertionSort EndsLater).mpr ha)
  have hb' := (List.mem_insertionSort EndsLater).mpr hb
  rw [hsplit] at hb' hsorted ⊢
  have hafter : b ∈ after := by
    rcases List.mem_append.mp hb' with hbefore | htail
    · have hle := (List.pairwise_append.mp hsorted).2.2 b hbefore a (by simp)
      exact absurd hlt (not_lt.mpr hle)
    · rcases List.mem_cons.mp htail with rfl | htail
      · exact absurd hlt (lt_irrefl _)
      · exact htail
  exact (List.Sublist.cons_cons a (List.singleton_sublist.mpr hafter)).trans
    (List.sublist_append_right _ _)

/-- The run of `name` has made this snapshot. -/
def Made (created : List (String × Option String)) (name : String) (info : SnapshotInfo) : Prop :=
  (info.kopiaSnapshotId, some name) ∈ created

structure Capture.Honest (created : List (String × Option String)) (c : Capture) : Prop where
  recorded : ∀ info, c.live.snapshot = some info → Made created c.name info
  reported : ∀ info, .succeeded info ∈ c.reports → Made created c.name info
  resolved : ∀ info, c.resolved = some (some info) → Made created c.name info

structure CaptureInv (w : CaptureWorld) : Prop where
  names : (w.captures.map Capture.name).Nodup
  ids : (w.created.map Prod.fst).Nodup
  entries : (w.manifests.map fun m => m.entry.id).Nodup
  manifests : ∀ m ∈ w.manifests, (m.entry.id, m.run) ∈ w.created
  captures : ∀ c ∈ w.captures, c.Honest w.created

variable {w w' : CaptureWorld} {name : String} {c : Capture} {f : Capture → Capture}
  {guard : Capture → Bool}

theorem Capture.Honest.mono {created created' : List (String × Option String)}
    (h : c.Honest created) (hsub : created ⊆ created') : c.Honest created' :=
  ⟨fun i hi => hsub (h.recorded i hi), fun i hi => hsub (h.reported i hi),
    fun i hi => hsub (h.resolved i hi)⟩

theorem capture?_mem (h : w.capture? name = some c) : c ∈ w.captures ∧ c.name = name :=
  ⟨List.mem_of_find?_eq_some h, by simpa using List.find?_some h⟩

theorem CaptureInv.capture? (h : CaptureInv w) (hc : c ∈ w.captures) :
    w.capture? c.name = some c := by
  have hfound : (w.capture? c.name).isSome :=
    List.find?_isSome.mpr ⟨c, hc, by simp⟩
  obtain ⟨c', hc'⟩ := Option.isSome_iff_exists.mp hfound
  obtain ⟨hmem, hname⟩ := capture?_mem hc'
  rw [hc', List.inj_on_of_nodup_map h.names hmem hc hname]

theorem CaptureInv.update (h : CaptureInv w) (hname : ∀ c, (f c).name = c.name)
    (hf : ∀ c, w.capture? name = some c → c.Honest w.created → (f c).Honest w.created) :
    CaptureInv (w.update name f) := by
  refine { h with names := ?_, captures := fun c hc => ?_ }
  · have hsame : (w.update name f).captures.map Capture.name = w.captures.map Capture.name := by
      simp only [CaptureWorld.update, List.map_map]
      refine List.map_congr_left fun c _ => ?_
      dsimp only [Function.comp]
      split
      · exact hname c
      · rfl
    rw [hsame]
    exact h.names
  · obtain ⟨c₀, hc₀, rfl⟩ := List.mem_map.mp hc
    split
    · next heq => exact hf c₀ (heq ▸ h.capture? hc₀) (h.captures c₀ hc₀)
    · exact h.captures c₀ hc₀

theorem CaptureInv.stepOf (h : CaptureInv w) (hstep : w.stepOf name guard f = some w')
    (hname : ∀ c, (f c).name = c.name)
    (hf : ∀ c, w.capture? name = some c → guard c = true → c.Honest w.created →
      (f c).Honest w.created) : CaptureInv w' := by
  obtain ⟨c, hc, hstep⟩ := Option.bind_eq_some_iff.mp hstep
  simp only [Option.ite_none_right_eq_some] at hstep
  obtain ⟨hguard, ⟨⟩⟩ := hstep
  refine h.update hname fun c' hc' => ?_
  obtain rfl : c = c' := Option.some.inj (hc.symm.trans hc')
  exact hf c hc hguard

theorem CaptureInv.write (h : CaptureInv w) {repo : String} {entry : SnapshotListEntry}
    {run : Option String} (hfresh : w.Fresh entry.id) : CaptureInv (w.write repo entry run) where
  names := h.names
  ids := List.nodup_cons.mpr ⟨hfresh, h.ids⟩
  entries := by
    simp only [CaptureWorld.write, List.map_append, List.map_cons, List.map_nil]
    refine List.nodup_append.mpr ⟨h.entries, by simp, ?_⟩
    rintro id hid _ hnew rfl
    obtain ⟨m, hm, rfl⟩ := List.mem_map.mp hid
    rw [List.mem_singleton] at hnew
    exact hfresh (List.mem_map.mpr ⟨_, h.manifests m hm, hnew⟩)
  manifests m hm := by
    rcases List.mem_append.mp hm with hm | hm
    · exact List.mem_cons_of_mem _ (h.manifests m hm)
    · obtain rfl := List.mem_singleton.mp hm
      exact List.mem_cons_self
  captures c hc := (h.captures c hc).mono (List.subset_cons_self _ _)

theorem mem_listing {repo : String} {e : SnapshotListEntry} :
    e ∈ w.listing repo ↔ ∃ m ∈ w.manifests, m.repo = repo ∧ m.entry = e := by
  simp [CaptureWorld.listing, and_assoc]

theorem CaptureInv.nodup_listing (h : CaptureInv w) (repo : String) :
    (w.listing repo).Nodup := by
  have hids : ((w.manifests.filter fun m => m.repo == repo).map fun m => m.entry.id).Nodup :=
    h.entries.sublist (List.filter_sublist.map _)
  refine List.Nodup.of_map SnapshotListEntry.id ?_
  rw [CaptureWorld.listing, List.map_map]
  exact hids

theorem sublist_listing {repo : String} {m m' : Manifest} (h : [m, m'].Sublist w.manifests)
    (hm : m.repo = repo) (hm' : m'.repo = repo) :
    [m.entry, m'.entry].Sublist (w.listing repo) := by
  have hfiltered := (h.filter fun m => m.repo == repo).map Manifest.entry
  simpa [hm, hm', CaptureWorld.listing] using hfiltered

/-- The newest manifest of the identity is the run's own, where all others are
behind such a one. -/
theorem CaptureInv.resolve (h : CaptureInv w) {repo : String} {identity : MoverIdentity}
    (hok : Attributed w (.resolve name (some (repo, identity)))) {info : SnapshotInfo}
    (hinfo : resolveSucceededSnapshot (w.listing repo) identity = some info) :
    Made w.created name info := by
  obtain ⟨e, hfind, rfl⟩ := Option.map_eq_some_iff.mp hinfo
  have hmatch := List.find?_some hfind
  have hmem := (List.mem_insertionSort EndsLater).mp (List.mem_of_find?_eq_some hfind)
  obtain ⟨m, hm, hrepo, rfl⟩ := mem_listing.mp hmem
  by_cases hrun : m.run = some name
  · have hmade := h.manifests m hm
    rwa [hrun] at hmade
  exfalso
  obtain ⟨own, hown, hownRepo, hownMatch, -, hprecedes⟩ := hok m hm hrepo hmatch hrun
  have hsorted : [own.entry, m.entry].Sublist ((w.listing repo).insertionSort EndsLater) := by
    rcases hprecedes with hlt | ⟨heq, hsub⟩
    · exact sublist_sorted_of_lt (mem_listing.mpr ⟨own, hown, hownRepo, rfl⟩) hmem hlt
    · exact List.pair_sublist_insertionSort (le_of_eq heq.symm)
        (sublist_listing hsub hownRepo hrepo)
  have hnodup := (List.perm_insertionSort EndsLater (w.listing repo)).nodup_iff.mpr
    (h.nodup_listing repo)
  exact not_find?_of_sublist hnodup hsorted hownMatch hfind

theorem CaptureInv.step (h : CaptureInv w) {e : CaptureEvent} (hok : Attributed w e)
    (hstep : captureStep w e = some w') : CaptureInv w' := by
  cases e with
  | add name =>
    simp only [captureStep, Option.ite_none_right_eq_some] at hstep
    obtain ⟨hnew, ⟨⟩⟩ := hstep
    refine { h with names := ?_, captures := fun c hc => ?_ }
    · simp only [List.map_append, List.map_cons, List.map_nil]
      refine List.nodup_append.mpr ⟨h.names, by simp, ?_⟩
      rintro n hn _ hname rfl
      obtain ⟨c, hc, rfl⟩ := List.mem_map.mp hn
      rw [List.mem_singleton] at hname
      simp [← hname, h.capture? hc] at hnew
    · rcases List.mem_append.mp hc with hc | hc
      · exact h.captures c hc
      · obtain rfl := List.mem_singleton.mp hc
        exact ⟨nofun, nofun, nofun⟩
  | create name entry =>
    obtain ⟨c, hc, hstep⟩ := Option.bind_eq_some_iff.mp hstep
    obtain ⟨j, -, hstep⟩ := Option.bind_eq_some_iff.mp hstep
    simp only [Option.ite_none_right_eq_some] at hstep
    obtain ⟨⟨-, hfresh, -⟩, ⟨⟩⟩ := hstep
    refine (h.write hfresh).update (fun _ => rfl) fun c' hc' hhonest =>
      ⟨hhonest.recorded, fun info hinfo => ?_, hhonest.resolved⟩
    rcases List.mem_cons.mp hinfo with heq | hold
    · obtain rfl := MoverReport.succeeded.inj heq
      rw [Made, (capture?_mem hc').2]
      exact List.mem_cons_self
    · exact hhonest.reported info hold
  | resolve name source =>
    refine h.stepOf hstep (fun _ => rfl) fun c hc _ hhonest =>
      ⟨hhonest.recorded, hhonest.reported, fun info hinfo => ?_⟩
    obtain ⟨⟨repo, identity⟩, rfl, hresolved⟩ := Option.bind_eq_some_iff.mp (Option.some.inj hinfo)
    rw [show c.name = name from (capture?_mem hc).2]
    exact h.resolve hok hresolved
  | finalize name =>
    refine h.stepOf hstep (fun _ => rfl) fun c _ hguard hhonest => ⟨?_, hhonest.reported, nofun⟩
    obtain ⟨resolved, hresolved⟩ := Option.isSome_iff_exists.mp hguard
    intro info hinfo
    simp only [hresolved, Option.getD_some, finalizeSucceeded, Option.orElse_eq_orElse,
      Option.orElse_eq_or, Option.or_eq_some_iff] at hinfo
    rcases hinfo with rfl | ⟨-, hinfo⟩
    · exact hhonest.resolved info hresolved
    · exact hhonest.recorded info hinfo
  | deliver name report =>
    refine h.stepOf hstep (fun _ => rfl) fun c _ hguard hhonest =>
      ⟨?_, fun info hinfo => hhonest.reported info (List.mem_of_mem_erase hinfo), hhonest.resolved⟩
    cases report with
    | succeeded info =>
      rintro _ ⟨⟩
      exact hhonest.reported info (by simpa using hguard)
    | unchanged => exact hhonest.recorded
    | failed => exact hhonest.recorded
  | lose name report =>
    exact h.stepOf hstep (fun _ => rfl) fun c _ _ hhonest => ⟨hhonest.recorded,
      fun info hinfo => hhonest.reported info (List.mem_of_mem_erase hinfo), hhonest.resolved⟩
  | unchanged name | fails name =>
    exact h.stepOf hstep (fun _ => rfl) fun c _ _ hhonest => ⟨hhonest.recorded,
      fun info hinfo => hhonest.reported info (by simpa using hinfo), hhonest.resolved⟩
  | crash name =>
    exact h.stepOf hstep (fun _ => rfl) fun c _ _ hhonest =>
      ⟨hhonest.recorded, hhonest.reported, nofun⟩
  | sync name | launch name repo identity | running name | finish name ok | gone name | heal name
  | jobFailed name =>
    exact h.stepOf hstep (fun _ => rfl) fun c _ _ hhonest =>
      ⟨hhonest.recorded, hhonest.reported, hhonest.resolved⟩
  | foreign repo entry =>
    simp only [captureStep, Option.ite_none_right_eq_some] at hstep
    obtain ⟨hfresh, ⟨⟩⟩ := hstep
    exact h.write hfresh
  | remove id =>
    cases hstep
    exact
      { h with
        entries := h.entries.sublist (List.filter_sublist.map _)
        manifests := fun m hm => h.manifests m (List.mem_of_mem_filter hm) }

theorem noCaptures_inv : CaptureInv noCaptures := by
  constructor <;> simp [noCaptures]

/-- A recorded snapshot was made by the capture's own run, so no two captures
record the same one. -/
theorem one_snapshot_per_capture (h : Reaches captureStep Attributed noCaptures w) :
    (∀ c ∈ w.captures, ∀ c' ∈ w.captures, ∀ info info', c.live.snapshot = some info →
      c'.live.snapshot = some info' → info.kopiaSnapshotId = info'.kopiaSnapshotId → c = c') ∧
    ∀ c ∈ w.captures, ∀ info, c.live.snapshot = some info → Made w.created c.name info := by
  have hinv : CaptureInv w := h.invariant CaptureInv
    noCaptures_inv fun _ _ _ h hok hstep => h.step hok hstep
  refine ⟨fun c hc c' hc' info info' hinfo hinfo' hid => ?_,
    fun c hc => (hinv.captures c hc).recorded⟩
  have hmade := (hinv.captures c hc).recorded info hinfo
  have hmade' := (hinv.captures c' hc').recorded info' hinfo'
  have hrun := List.inj_on_of_nodup_map hinv.ids hmade hmade' hid
  exact List.inj_on_of_nodup_map hinv.names hc hc' (Option.some.inj (Prod.mk.inj hrun).2)

def appData : MoverIdentity := ⟨"app", "prod", "/data"⟩

def appManifest (id : String) (endTime : DateTime) : SnapshotListEntry where
  id := id
  source := { host := "prod", userName := "app", path := "/data" }
  startTime := endTime - 60
  endTime := endTime

def reportedRun (name id : String) (endTime : DateTime) : List CaptureEvent :=
  [.add name, .launch name "nas" appData, .create name (appManifest id endTime),
    .deliver name (.succeeded (appManifest id endTime).info), .finish name true]

instance (manifests : List Manifest) : DecidableRel (Precedes manifests) := fun _ _ =>
  inferInstanceAs (Decidable (_ ∨ _ ∧ _))

instance (w : CaptureWorld) : DecidablePred (Attributed w)
  | .resolve _ (some (_, _)) => inferInstanceAs (Decidable (∀ m ∈ w.manifests, _ → _ → _ → _))
  | .resolve _ none | .add _ | .sync _ | .launch .. | .running _ | .create .. | .unchanged _
  | .fails _ | .deliver .. | .lose .. | .finish .. | .gone _ | .finalize _ | .crash _ | .heal _
  | .jobFailed _ | .foreign .. | .remove _ => inferInstanceAs (Decidable True)

/-- The report of the second run is lost, and its manifest is the newest. -/
theorem one_snapshot_per_capture_lost : ∃ w, Reaches captureStep Attributed noCaptures w ∧
    ∃ c ∈ w.captures, c.name = "b" ∧ ∃ info, c.live.snapshot = some info ∧
      Made w.created "b" info := by
  obtain ⟨w, hreach, c, hc, hname, hsome⟩ : ∃ w, Reaches captureStep Attributed noCaptures w ∧
      ∃ c ∈ w.captures, c.name = "b" ∧ c.live.snapshot.isSome :=
    exists_reaches (reportedRun "a" "k1" 100 ++ [.add "b", .launch "b" "nas" appData,
      .create "b" (appManifest "k2" 200), .lose "b" (.succeeded (appManifest "k2" 200).info),
      .finish "b" true, .resolve "b" (some ("nas", appData)), .finalize "b"]) (by decide)
  obtain ⟨info, hinfo⟩ := Option.isSome_iff_exists.mp hsome
  exact ⟨w, hreach, c, hc, hname, info, hinfo,
    hname ▸ (one_snapshot_per_capture hreach).2 c hc info hinfo⟩

/-- The second run changed nothing and its report is lost: it is given the
manifest of the first. -/
theorem two_captures_record_one : ∃ w, Reaches captureStep (fun _ _ => True) noCaptures w ∧
    ∃ c ∈ w.captures, ∃ c' ∈ w.captures, c.name = "a" ∧ c'.name = "b" ∧
      c.live.snapshot = some (appManifest "k1" 100).info ∧
      c'.live.snapshot = some (appManifest "k1" 100).info ∧ ("k1", some "b") ∉ w.created := by
  exact exists_reaches (reportedRun "a" "k1" 100 ++ [.add "b", .launch "b" "nas" appData,
    .unchanged "b", .lose "b" .unchanged, .finish "b" true, .resolve "b" (some ("nas", appData)),
    .finalize "b"]) (by decide)

end Kopiur
