import Kopiur.Api.Resources

/-!
# When the catalog is refreshed

The timers and tokens that make a repository re-list its snapshots. A request
token is retired by equality with the honored one; launching for it is rate
limited by the attempt stamp, scanning a listing that is there is not.
-/

namespace Kopiur

variable (rfc : Rfc3339)

def refreshDue (lastRefreshAt : Option String) (interval : Duration) (now : DateTime) : Bool :=
  match lastRefreshAt.bind rfc.parse with
  | none => true
  | some last => decide (last + interval ≤ now)

def reverifyDue (token honored : Option String) (phaseReady : Bool) : Bool :=
  phaseReady && token.isSome && token != honored

def scanRequestedPending (token honored : Option String) : Bool :=
  match token with
  | none => false
  | some t => t != "" && some t != honored

def rescanTokenAfterFailedScan (token honored : Option String) (now : DateTime) : Option String :=
  if scanRequestedPending token honored then none else some (rfc.render now)

def scanRequestedDue (token honored attemptAt : Option String) (retryInterval : Duration)
    (now : DateTime) : Bool :=
  scanRequestedPending token honored &&
    match attemptAt with
    | none => true
    | some attempt =>
      -- a token newer than the attempt re-arms at once; the texts sort by time
      decide (attempt < token.getD "") ||
        match rfc.parse attempt with
        | none => true
        | some t => decide (t + retryInterval ≤ now)

/-- Whether the finished Job's listing was already scanned. Without a
completion time it counts as scanned. -/
def resultAlreadyConsumed (lastRefreshAt jobCompletedAt : Option String) : Bool :=
  match jobCompletedAt.bind rfc.parse with
  | none => true
  | some completed =>
    match lastRefreshAt.bind rfc.parse with
    | none => false
    | some refreshed => decide (completed ≤ refreshed)

/-- What the catalog decisions read of a repository. -/
structure CatalogTiming where
  generation : Option Int
  observedGeneration : Option Int
  lastRefreshAt : Option String
  interval : Duration
  periodicEnabled : Bool
  token : Option String
  honored : Option String
  attemptAt : Option String
  retryInterval : Duration
deriving DecidableEq

namespace CatalogTiming

variable (c : CatalogTiming) (now : DateTime)

def requestDue : Bool := scanRequestedDue rfc c.token c.honored c.attemptAt c.retryInterval now

def workDue : Bool :=
  (c.periodicEnabled && refreshDue rfc c.lastRefreshAt c.interval now) || c.requestDue rfc now

def bootstrapRecycleDue (phaseIsReady : Bool) (jobCompletedAt : Option String) : Bool :=
  if !phaseIsReady then false
  else if c.generation != c.observedGeneration then true
  else
    (c.periodicEnabled && refreshDue rfc c.lastRefreshAt c.interval now &&
        resultAlreadyConsumed rfc c.lastRefreshAt jobCompletedAt) ||
      (c.requestDue rfc now && resultAlreadyConsumed rfc c.lastRefreshAt jobCompletedAt)

def bootstrapCreateDue (phaseIsReady : Bool) : Bool :=
  if !phaseIsReady then true else c.bootstrapRecycleDue rfc now true none

def scanDue : Bool :=
  if c.generation != c.observedGeneration then true
  else
    (c.periodicEnabled && refreshDue rfc c.lastRefreshAt c.interval now) ||
      scanRequestedPending c.token c.honored

end CatalogTiming

section Monotone

variable {rfc} {now later : DateTime} {c : CatalogTiming}

theorem refreshDue_mono {last : Option String} {interval : Duration} (hle : now ≤ later)
    (h : refreshDue rfc last interval now = true) : refreshDue rfc last interval later = true := by
  unfold refreshDue at h ⊢
  split
  · rfl
  · next t ht =>
    simp only [ht, decide_eq_true_eq] at h ⊢
    exact le_trans h hle

theorem scanRequestedDue_mono {token honored attemptAt : Option String} {retryInterval : Duration}
    (hle : now ≤ later) (h : scanRequestedDue rfc token honored attemptAt retryInterval now = true) :
    scanRequestedDue rfc token honored attemptAt retryInterval later = true := by
  unfold scanRequestedDue at h ⊢
  rw [Bool.and_eq_true] at h ⊢
  refine ⟨h.1, ?_⟩
  cases attemptAt with
  | none => rfl
  | some attempt =>
    have h := h.2
    simp only [Bool.or_eq_true] at h ⊢
    refine h.imp id fun h => ?_
    split at h
    · simp [*]
    · next t ht =>
      simp only [decide_eq_true_eq] at h ⊢
      exact le_trans h hle

theorem CatalogTiming.bootstrapRecycleDue_mono {ready : Bool} {completedAt : Option String}
    (hle : now ≤ later) (h : c.bootstrapRecycleDue rfc now ready completedAt = true) :
    c.bootstrapRecycleDue rfc later ready completedAt = true := by
  unfold bootstrapRecycleDue at h ⊢
  split
  · simp_all
  · split
    · rfl
    · next hready hgen =>
      simp only [hready, hgen, Bool.false_eq_true, if_false, Bool.or_eq_true, Bool.and_eq_true] at h ⊢
      rcases h with ⟨⟨hp, hr⟩, hc⟩ | ⟨hr, hc⟩
      · exact .inl ⟨⟨hp, refreshDue_mono hle hr⟩, hc⟩
      · exact .inr ⟨scanRequestedDue_mono hle hr, hc⟩

end Monotone

theorem CatalogTiming.recycle_unconsumed {rfc : Rfc3339} {c : CatalogTiming} {now : DateTime}
    {ready : Bool} {completedAt : Option String} (hgen : c.generation = c.observedGeneration)
    (h : resultAlreadyConsumed rfc c.lastRefreshAt completedAt = false) :
    c.bootstrapRecycleDue rfc now ready completedAt = false := by
  simp [bootstrapRecycleDue, hgen, h]

theorem CatalogTiming.recycle_idle {rfc : Rfc3339} {c : CatalogTiming} {now : DateTime}
    {ready : Bool} {completedAt : Option String} (hgen : c.generation = c.observedGeneration)
    (h : c.workDue rfc now = false) : c.bootstrapRecycleDue rfc now ready completedAt = false := by
  simp only [workDue, Bool.or_eq_false_iff, Bool.and_eq_false_iff] at h
  obtain ⟨hrefresh, hrequest⟩ := h
  rcases hrefresh with hr | hr <;> simp [bootstrapRecycleDue, hgen, hr, hrequest]

end Kopiur
