import Mathlib.Data.List.Basic

/-!
# Cutting a list into chunks

Chunks of a fixed size, the last one possibly shorter. Two lists of one length
cut alike pair up chunk by chunk.
-/

namespace Kopiur.Lib

variable {α β : Type}

def chunksFuel (size : Nat) : Nat → List α → List (List α)
  | 0, _ => []
  | fuel + 1, l => if l.isEmpty then [] else l.take size :: chunksFuel size fuel (l.drop size)

def chunks (size : Nat) (l : List α) : List (List α) := chunksFuel size l.length l

theorem zip_chunksFuel {size : Nat} (hsize : 0 < size) {fuel : Nat} {as : List α} {bs : List β}
    (hfuel : as.length ≤ fuel) (hlen : as.length = bs.length) :
    ((chunksFuel size fuel as).zip (chunksFuel size fuel bs)).flatMap (fun p => p.1.zip p.2) =
      as.zip bs := by
  induction fuel generalizing as bs with
  | zero =>
    have : as = [] := List.length_eq_zero_iff.mp (Nat.le_zero.mp hfuel)
    simp [this, chunksFuel]
  | succ fuel ih =>
    cases as with
    | nil => simp [chunksFuel]
    | cons a as =>
      cases bs with
      | nil => simp at hlen
      | cons b bs =>
        have hdrop : ((a :: as).drop size).length ≤ fuel := by
          rw [List.length_drop, List.length_cons]
          rw [List.length_cons] at hfuel
          omega
        have hlen' : ((a :: as).drop size).length = ((b :: bs).drop size).length := by
          rw [List.length_drop, List.length_drop, hlen]
        have htake : ((a :: as).take size).length = ((b :: bs).take size).length := by
          rw [List.length_take, List.length_take, hlen]
        rw [chunksFuel, chunksFuel, if_neg (by simp), if_neg (by simp), List.zip_cons_cons,
          List.flatMap_cons, ih hdrop hlen', ← List.zip_append htake, List.take_append_drop,
          List.take_append_drop]

theorem zip_chunks {size : Nat} (hsize : 0 < size) {as : List α} {bs : List β}
    (hlen : as.length = bs.length) :
    ((chunks size as).zip (chunks size bs)).flatMap (fun p => p.1.zip p.2) = as.zip bs := by
  rw [chunks, chunks, ← hlen]
  exact zip_chunksFuel hsize (Nat.le_refl _) hlen

theorem length_eq_of_mem_zip_chunksFuel {size fuel : Nat} {as : List α} {bs : List β}
    (hlen : as.length = bs.length) {p : List α × List β}
    (h : p ∈ (chunksFuel size fuel as).zip (chunksFuel size fuel bs)) : p.1.length = p.2.length := by
  induction fuel generalizing as bs with
  | zero => simp [chunksFuel] at h
  | succ fuel ih =>
    cases as with
    | nil => simp [chunksFuel] at h
    | cons a as =>
      cases bs with
      | nil => simp at hlen
      | cons b bs =>
        rw [chunksFuel, chunksFuel, if_neg (by simp), if_neg (by simp), List.zip_cons_cons] at h
        rcases List.mem_cons.mp h with rfl | h
        · rw [List.length_take, List.length_take, hlen]
        · exact ih (by rw [List.length_drop, List.length_drop, hlen]) h

theorem length_eq_of_mem_zip_chunks {size : Nat} {as : List α} {bs : List β}
    (hlen : as.length = bs.length) {p : List α × List β}
    (h : p ∈ (chunks size as).zip (chunks size bs)) : p.1.length = p.2.length := by
  rw [chunks, chunks, ← hlen] at h
  exact length_eq_of_mem_zip_chunksFuel hlen h

end Kopiur.Lib
