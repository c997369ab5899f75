import Jobflow.Job.Store
import Mathlib.Data.List.Nodup

/-!
Recording attempts in a list of offers with distinct identifiers.
-/

namespace Jobflow.Job

theorem updateFirst_eq_map {jobs : List Job} (hids : (jobs.map Job.id).Nodup) (id : Uuid)
    (change : Job → Job) :
    updateFirst id change jobs = jobs.map fun job => if job.id = id then change job else job := by
  induction jobs with
  | nil => rfl
  | cons head rest ih =>
    obtain ⟨hhead, hrest⟩ := List.nodup_cons.mp hids
    rw [updateFirst, List.map_cons]
    split
    · next hid =>
      have hsame : ∀ job ∈ rest, job.id ≠ id := by
        intro job hjob heq
        apply hhead
        rw [hid, ← heq]
        exact List.mem_map_of_mem hjob
      rw [List.map_congr_left fun job hjob => if_neg (hsame job hjob), List.map_id']
    · rw [ih hrest]

/-- The identifiers of a list are those of the list after changes of other fields. -/
theorem map_id_map {jobs : List Job} {change : Job → Job}
    (h : ∀ job, (change job).id = job.id) : (jobs.map change).map Job.id = jobs.map Job.id := by
  rw [List.map_map]
  exact List.map_congr_left fun job _ => h job

theorem record_eq_ok {jobs jobs' : List Job} (hids : (jobs.map Job.id).Nodup) {id : Uuid}
    {attempt : Attempt} (h : record jobs id attempt = .ok jobs') :
    jobs' = jobs.map fun job => if job.id = id then job.recordAttempt attempt else job := by
  unfold record at h
  split at h
  · rw [← updateFirst_eq_map hids]
    exact (Except.ok.inj h).symm
  · cases h

theorem exists_record {jobs : List Job} {job : Job} (h : job ∈ jobs) (attempt : Attempt) :
    ∃ jobs', record jobs job.id attempt = .ok jobs' := by
  have hfound : (find? jobs job.id).isSome := by
    rw [find?, List.find?_isSome]
    exact ⟨job, h, by simp⟩
  exact ⟨_, if_pos hfound⟩

end Jobflow.Job
