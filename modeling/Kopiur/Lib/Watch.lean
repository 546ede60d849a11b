import Mathlib.Data.List.Basic

/-!
# A lagging observer

The versions of a written value reach an observer through a first-in first-out
channel. A key drains when no later version holds it without the earlier ones
holding it too; what the observer no longer sees held is then not held.
-/

namespace Kopiur.Lib

variable {σ κ : Type}

/-- What the observer sees, and the versions on their way to it, oldest
first. -/
structure Watched (σ : Type) where
  observed : σ
  inFlight : List σ

namespace Watched

def versions (w : Watched σ) : List σ := w.observed :: w.inFlight

theorem versions_ne_nil (w : Watched σ) : w.versions ≠ [] := by simp [versions]

def current (w : Watched σ) : σ := w.versions.getLast w.versions_ne_nil

def synced (v : σ) : Watched σ := ⟨v, []⟩

def write (w : Watched σ) (v : σ) : Watched σ := { w with inFlight := w.inFlight ++ [v] }

def deliver (w : Watched σ) : Option (Watched σ) :=
  match w.inFlight with
  | [] => none
  | v :: rest => some ⟨v, rest⟩

@[simp] theorem versions_write (w : Watched σ) (v : σ) :
    (w.write v).versions = w.versions ++ [v] := rfl

@[simp] theorem versions_synced (v : σ) : (synced v).versions = [v] := rfl

@[simp] theorem current_write (w : Watched σ) (v : σ) : (w.write v).current = v := by
  simp [current]

theorem observed_mem (w : Watched σ) : w.observed ∈ w.versions := by simp [versions]

theorem current_mem (w : Watched σ) : w.current ∈ w.versions := List.getLast_mem _

theorem versions_deliver {w w' : Watched σ} (h : w.deliver = some w') :
    w.versions = w.observed :: w'.versions := by
  unfold deliver at h
  split at h
  case h_1 => cases h
  case h_2 v rest hflight =>
    cases h
    simp [versions, hflight]

theorem current_deliver {w w' : Watched σ} (h : w.deliver = some w') : w'.current = w.current := by
  simp [current, versions_deliver h, List.getLast_cons w'.versions_ne_nil]

end Watched

section Drains

variable {held : σ → κ → Prop} {k : κ} {w w' : Watched σ}

/-- No version holds `k` unless all earlier ones do. -/
def Drains (held : σ → κ → Prop) (k : κ) (versions : List σ) : Prop :=
  versions.Pairwise fun v v' => held v' k → held v k

namespace Drains

theorem singleton (v : σ) : Drains held k [v] := List.pairwise_singleton _ _

theorem held_of_last {l : List σ} (h : Drains held k l) (hne : l ≠ [])
    (hlast : held (l.getLast hne) k) {v : σ} (hv : v ∈ l) : held v k := by
  rw [← List.dropLast_append_getLast hne] at h hv
  rcases List.mem_append.mp hv with hv | hv
  · exact (List.pairwise_append.mp h).2.2 v hv _ (by simp) hlast
  · rw [List.mem_singleton.mp hv]
    exact hlast

theorem concat {l : List σ} (h : Drains held k l) (hne : l ≠ []) {v : σ}
    (hlaw : held v k → held (l.getLast hne) k) : Drains held k (l ++ [v]) := by
  refine List.pairwise_append.mpr ⟨h, singleton v, ?_⟩
  intro x hx y hy hheld
  rw [List.mem_singleton.mp hy] at hheld
  exact h.held_of_last hne (hlaw hheld) hx

theorem write (h : Drains held k w.versions) {v : σ} (hlaw : held v k → held w.current k) :
    Drains held k (w.write v).versions := h.concat w.versions_ne_nil hlaw

theorem deliver (h : Drains held k w.versions) (hd : w.deliver = some w') :
    Drains held k w'.versions := by
  rw [Watched.versions_deliver hd] at h
  exact h.tail

theorem held_observed (h : Drains held k w.versions) {v : σ} (hv : v ∈ w.versions)
    (hheld : held v k) : held w.observed k := by
  rcases List.mem_cons.mp hv with rfl | hv
  · exact hheld
  · exact List.rel_of_pairwise_cons h hv hheld

end Drains

end Drains

section Marks

variable {marked held : σ → κ → Prop} {w w' : Watched σ}

def MarksDrain (marked held : σ → κ → Prop) (w : Watched σ) : Prop :=
  ∀ v rest, v :: rest <:+ w.versions → ∀ k, marked v k → Drains held k (v :: rest)

namespace MarksDrain

theorem synced (v : σ) : MarksDrain marked held (Watched.synced v) := by
  intro x rest hsuffix k _
  have hlen := hsuffix.length_le
  have hrest : rest = [] := by simpa using hlen
  rw [hrest]
  exact Drains.singleton x

theorem observed (h : MarksDrain marked held w) {k : κ} (hk : marked w.observed k) :
    Drains held k w.versions := h w.observed w.inFlight (List.suffix_refl _) k hk

theorem write (h : MarksDrain marked held w) {v : σ}
    (hlaw : ∀ x ∈ w.versions, ∀ k, marked x k → held v k → held w.current k) :
    MarksDrain marked held (w.write v) := by
  intro x rest hsuffix k hk
  rw [Watched.versions_write, List.suffix_concat_iff] at hsuffix
  obtain hnil | ⟨l, hl, hsuffix⟩ := hsuffix
  · cases hnil
  · cases l with
    | nil =>
      rw [hl]
      exact Drains.singleton v
    | cons y rest' =>
      obtain ⟨rfl, rfl⟩ := List.cons_eq_cons.mp hl
      have hx : x ∈ w.versions := hsuffix.subset (by simp)
      refine (h x rest' hsuffix k hk).concat (by simp) fun hheld => ?_
      rw [hsuffix.getLast (by simp)]
      exact hlaw x hx k hk hheld

theorem deliver (h : MarksDrain marked held w) (hd : w.deliver = some w') :
    MarksDrain marked held w' := by
  intro x rest hsuffix
  refine h x rest (hsuffix.trans ?_)
  rw [Watched.versions_deliver hd]
  exact List.suffix_cons _ _

end MarksDrain

end Marks

end Kopiur.Lib
