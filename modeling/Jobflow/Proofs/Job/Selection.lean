import Jobflow.Job.Store
import Mathlib.Data.List.Nodup
import Mathlib.Data.List.Perm.Subperm

/-!
The offers a poll takes up: the oldest pending ones, in the order of their creation and
of their identifiers among those created at once.
-/

namespace Jobflow.Job

open Jobflow.Time (Instant)

/-! ### Order -/

/-- Earlier, by seconds and then by nanoseconds. -/
theorem before_iff {a b : Instant} :
    a.before b ↔ a.seconds < b.seconds ∨ (a.seconds = b.seconds ∧ a.nanos < b.nanos) := by
  simp [Instant.before]

private theorem instant_eq_iff {a b : Instant} :
    a = b ↔ a.seconds = b.seconds ∧ a.nanos = b.nanos := by
  cases a
  cases b
  simp

/-- Created earlier, or at the same time with a smaller identifier. -/
def Precedes (a b : Job) : Prop :=
  a.createdAt.before b.createdAt ∨ (a.createdAt = b.createdAt ∧ a.id.number < b.id.number)

theorem notAfter_iff {a b : Job} :
    a.notAfter b ↔ a.createdAt.before b.createdAt ∨
      (a.createdAt = b.createdAt ∧ a.id.number ≤ b.id.number) := by
  simp [Job.notAfter]

theorem notAfter_total (a b : Job) : a.notAfter b || b.notAfter a := by
  simp only [Bool.or_eq_true, notAfter_iff, before_iff, instant_eq_iff]
  omega

theorem notAfter_trans (a b c : Job) (hab : a.notAfter b) (hbc : b.notAfter c) :
    a.notAfter c := by
  simp only [notAfter_iff, before_iff, instant_eq_iff] at *
  omega

theorem precedes_of_notAfter {a b : Job} (h : a.notAfter b) (hne : a.id ≠ b.id) :
    Precedes a b := by
  have hnumber : a.id.number ≠ b.id.number := by
    intro heq
    apply hne
    cases ha : a.id
    cases hb : b.id
    simpa [ha, hb] using heq
  rcases notAfter_iff.mp h with hbefore | ⟨hat, hle⟩
  · exact .inl hbefore
  · exact .inr ⟨hat, by omega⟩

/-! ### Selection -/

/-- The batch consists of the first pending offers, as many as the limit allows. -/
structure Selects (jobs : List Job) (limit : Nat) (batch : List Job) : Prop where
  pending : ∀ job ∈ batch, job ∈ jobs ∧ job.shouldApply = true ∧ job.isApplied = false
  length : batch.length = min limit (jobs.filter Job.isPending).length
  ordered : batch.Pairwise Precedes
  first : ∀ job ∈ jobs, job.shouldApply = true → job.isApplied = false → job ∉ batch →
    ∀ chosen ∈ batch, Precedes chosen job

theorem isPending_iff {job : Job} :
    job.isPending ↔ job.shouldApply = true ∧ job.isApplied = false := by
  simp [Job.isPending]

private theorem pairwise_precedes {jobs : List Job} (hids : (jobs.map Job.id).Nodup)
    (hsorted : jobs.Pairwise fun a b => a.notAfter b) : jobs.Pairwise Precedes := by
  have hne : jobs.Pairwise fun a b => a.id ≠ b.id := List.pairwise_map.mp hids
  exact (hsorted.and hne).imp fun ⟨hle, hne⟩ => precedes_of_notAfter hle hne

theorem selects_selectPending {jobs : List Job} (hids : (jobs.map Job.id).Nodup) (limit : Nat) :
    Selects jobs limit (selectPending jobs limit) := by
  let sorted := (jobs.filter Job.isPending).mergeSort Job.notAfter
  have hmem {job : Job} : job ∈ sorted ↔ job ∈ jobs ∧ job.isPending := by
    simp [sorted, List.mem_mergeSort]
  have hnodup : (sorted.map Job.id).Nodup := by
    have hfilter : ((jobs.filter Job.isPending).map Job.id).Nodup :=
      hids.sublist (List.filter_sublist.map Job.id)
    exact ((List.mergeSort_perm _ _).map Job.id).nodup_iff.mpr hfilter
  have hsorted : sorted.Pairwise Precedes :=
    pairwise_precedes hnodup (List.pairwise_mergeSort notAfter_trans notAfter_total _)
  constructor
  · intro job hjob
    obtain ⟨hjobs, hpending⟩ := hmem.mp (List.mem_of_mem_take hjob)
    exact ⟨hjobs, isPending_iff.mp hpending⟩
  · simp [selectPending]
  · exact hsorted.sublist (List.take_sublist _ _)
  · intro job hjob hshould happlied hout chosen hchosen
    have hin : job ∈ sorted := hmem.mpr ⟨hjob, isPending_iff.mpr ⟨hshould, happlied⟩⟩
    rw [← List.take_append_drop limit sorted] at hin hsorted
    rcases List.mem_append.mp hin with htaken | hleft
    · exact absurd htaken hout
    · exact (List.pairwise_append.mp hsorted).2.2 chosen hchosen job hleft

/-- Pending offers that are in order already are selected as they stand. -/
theorem selectPending_of_pairwise {jobs : List Job} (hpending : ∀ job ∈ jobs, job.isPending)
    (hsorted : jobs.Pairwise fun a b => a.notAfter b) : selectPending jobs jobs.length = jobs := by
  rw [selectPending, List.filter_eq_self.mpr hpending, List.mergeSort_of_pairwise hsorted,
    List.take_length]

theorem Precedes.ne {a b : Job} (h : Precedes a b) : a ≠ b := by
  rintro rfl
  simp only [Precedes, before_iff] at h
  omega

theorem Selects.nodup {jobs batch : List Job} {limit : Nat} (h : Selects jobs limit batch)
    (hids : (jobs.map Job.id).Nodup) : (batch.map Job.id).Nodup := by
  have hbatch : batch.Nodup := h.ordered.imp Precedes.ne
  apply hbatch.map_on
  intro a ha b hb hid
  exact List.inj_on_of_nodup_map hids (h.pending a ha).1 (h.pending b hb).1 hid

/-! ### The only batch -/

theorem Precedes.asymm {a b : Job} (h : Precedes a b) : ¬ Precedes b a := by
  simp only [Precedes, before_iff, instant_eq_iff] at *
  omega

section
variable {jobs jobs' batch batch' : List Job} {limit : Nat}

/-- A batch is selected from the offers, not from the order they stand in. -/
theorem Selects.perm (h : Selects jobs limit batch) (hperm : jobs.Perm jobs') :
    Selects jobs' limit batch where
  pending job hjob := by
    obtain ⟨hmem, hpending⟩ := h.pending job hjob
    exact ⟨hperm.mem_iff.mp hmem, hpending⟩
  length := by rw [h.length, (hperm.filter Job.isPending).length_eq]
  ordered := h.ordered
  first job hjob := h.first job (hperm.mem_iff.mpr hjob)

/-- Of two batches none has an offer that the other leaves out: the other would then have one that
the first leaves out, and each of the two would precede the other. -/
theorem Selects.subset (h : Selects jobs limit batch) (h' : Selects jobs limit batch') :
    batch ⊆ batch' := by
  intro job hjob
  by_contra hout
  obtain ⟨hmem, hshould, happlied⟩ := h.pending job hjob
  have hothers : batch' ⊆ batch := by
    intro other hother
    by_contra hleft
    obtain ⟨hmem', hshould', happlied'⟩ := h'.pending other hother
    exact (h.first other hmem' hshould' happlied' hleft job hjob).asymm
      (h'.first job hmem hshould happlied hout other hother)
  have hnodup : batch'.Nodup := h'.ordered.imp Precedes.ne
  have hlength : batch.length ≤ batch'.length := Nat.le_of_eq (h.length.trans h'.length.symm)
  exact hout (((List.subperm_of_subset hnodup hothers).perm_of_length_le hlength).mem_iff.mpr hjob)

theorem Selects.unique (h : Selects jobs limit batch) (h' : Selects jobs limit batch') :
    batch = batch' := by
  have hnodup : batch.Nodup := h.ordered.imp Precedes.ne
  have hlength : batch'.length ≤ batch.length := Nat.le_of_eq (h'.length.trans h.length.symm)
  have hperm : batch.Perm batch' :=
    (List.subperm_of_subset hnodup (h.subset h')).perm_of_length_le hlength
  exact hperm.eq_of_pairwise (fun a b _ _ hab hba => absurd hba hab.asymm) h.ordered h'.ordered

/-- Where identifiers are distinct, the selected batch is the only one that consists of the first
pending offers, so it is the same for every order of the offers; a higher limit extends it. -/
theorem selectPending_is_canonical (hids : (jobs.map Job.id).Nodup) (limit : Nat) :
    Selects jobs limit (selectPending jobs limit) ∧
    (∀ batch, Selects jobs limit batch → batch = selectPending jobs limit) ∧
    (∀ jobs', jobs.Perm jobs' → selectPending jobs' limit = selectPending jobs limit) ∧
    ∀ higher, limit ≤ higher → selectPending jobs limit <+: selectPending jobs higher := by
  have hselects := selects_selectPending hids limit
  refine ⟨hselects, fun batch hbatch => hbatch.unique hselects, ?_, ?_⟩
  · intro jobs' hperm
    have hids' : (jobs'.map Job.id).Nodup := (hperm.map Job.id).nodup_iff.mp hids
    exact ((selects_selectPending hids' limit).perm hperm.symm).unique hselects
  · exact fun higher hle => List.take_prefix_take_left hle

end

/-- An offer that was armed at the start of 2030. -/
def armedOffer (id : Nat) : Job :=
  .create ⟨id⟩ ⟨1893456000, 0⟩ "https://www.pracuj.pl/praca/1" "Rust developer" none

/-- The same two offers as one store and as another lists them. -/
def listed : List Job := [armedOffer 2, armedOffer 1]

def listedBack : List Job := [armedOffer 1, armedOffer 2]

theorem selectPending_is_canonical_two :
    (listed.map Job.id).Nodup ∧ listed.Perm listedBack ∧
      selectPending listedBack 1 = selectPending listed 1 ∧
      selectPending listed 1 <+: selectPending listed 2 := by
  have hids : (listed.map Job.id).Nodup := by decide
  have hperm : listed.Perm listedBack := .swap ..
  obtain ⟨-, -, hsame, hextends⟩ := selectPending_is_canonical hids 1
  exact ⟨hids, hperm, hsame _ hperm, hextends 2 (by decide)⟩

end Jobflow.Job
