import Mathlib.Data.List.Nodup

/-!
# Scattered writes

A list of jobs rewrites the cells of a store in place, each job the one cell it targets. As long as no
two jobs share a target every job sees the original contents of its cell, so neither the order of the
jobs matters nor whether all old contents are gathered before the first write.
-/

namespace Nelssa.Foundation.Scatter

open Function

variable {ι κ α : Type*} [DecidableEq ι]

/-- Run the jobs one after another on the cells they target. -/
def scatter (target : κ → ι) (write : κ → α → α) (cells : ι → α) (jobs : List κ) : ι → α :=
  jobs.foldl
    (fun current job ↦ update current (target job) (write job (current (target job)))) cells

variable (target : κ → ι) (write : κ → α → α) (cells : ι → α) {jobs : List κ}

theorem scatter_of_notMem {cell : ι} (hcell : cell ∉ jobs.map target) :
    scatter target write cells jobs cell = cells cell := by
  unfold scatter
  induction jobs generalizing cells with
  | nil => rfl
  | cons job rest ih =>
    rw [List.map_cons, List.mem_cons, not_or] at hcell
    rw [List.foldl_cons, ih _ hcell.2, update_of_ne hcell.1]

theorem scatter_target (hnodup : (jobs.map target).Nodup) {job : κ} (hjob : job ∈ jobs) :
    scatter target write cells jobs (target job) = write job (cells (target job)) := by
  induction jobs generalizing cells with
  | nil => exact absurd hjob List.not_mem_nil
  | cons first rest ih =>
    rw [List.map_cons, List.nodup_cons] at hnodup
    rcases List.mem_cons.1 hjob with rfl | hrest
    · calc scatter target write cells (job :: rest) (target job)
          = update cells (target job) (write job (cells (target job))) (target job) :=
            scatter_of_notMem target write _ hnodup.1
        _ = write job (cells (target job)) := update_self ..
    · have hne : target job ≠ target first := by
        intro heq
        exact hnodup.1 (heq ▸ List.mem_map_of_mem hrest)
      calc scatter target write cells (first :: rest) (target job)
          = write job (update cells (target first)
              (write first (cells (target first))) (target job)) := ih _ hnodup.2 hrest
        _ = write job (cells (target job)) := by rw [update_of_ne hne]

/-- Jobs with distinct targets produce `result` when each of them writes it at its target and the
cells that no job targets hold it already. The order of the jobs plays no role. -/
theorem scatter_eq (result : ι → α) (hnodup : (jobs.map target).Nodup)
    (hwrite : ∀ job ∈ jobs, write job (cells (target job)) = result (target job))
    (hother : ∀ cell ∉ jobs.map target, cells cell = result cell) :
    scatter target write cells jobs = result := by
  funext cell
  by_cases hcell : cell ∈ jobs.map target
  · obtain ⟨job, hjob, rfl⟩ := List.mem_map.1 hcell
    rw [scatter_target target write cells hnodup hjob, hwrite job hjob]
  · rw [scatter_of_notMem target write cells hcell, hother cell hcell]

end Nelssa.Foundation.Scatter
