import Jobflow.Job.Store
import Jobflow.Proofs.Json.Printing
import Jobflow.Proofs.Json.Records
import Jobflow.Proofs.Time.Timestamp
import Jobflow.Proofs.Uuid

/-!
The text of a job file. Every list of offers is read back from the text that is written for
it, and what is read from any text can be written again.
-/

namespace Jobflow.Job

open Jobflow.Json

/-! ### What a file can hold -/

/-- The attempt as it is read back from a file. -/
def Attempt.settled (a : Attempt) : Attempt := { a with timestamp := a.timestamp.written }

/-- The offer as it is read back from a file. -/
def Job.settled (job : Job) : Job :=
  { job with createdAt := job.createdAt.written, attempts := job.attempts.map Attempt.settled }

/-- An offer whose identifier and instants have a text. -/
structure Job.Storable (job : Job) : Prop where
  id : job.id.Fits
  createdAt : job.createdAt.InRange
  attempts : ∀ a ∈ job.attempts, a.timestamp.InRange

/-- An offer of the years 0 to 9999, without leap seconds, and with an identifier of 128 bits. -/
structure Job.Plain (job : Job) : Prop where
  id : job.id.Fits
  createdAt : job.createdAt.Plain
  attempts : ∀ a ∈ job.attempts, a.timestamp.Plain

theorem Job.Plain.storable {job : Job} (h : job.Plain) : job.Storable :=
  ⟨h.id, h.createdAt.inRange, fun a ha => (h.attempts a ha).inRange⟩

theorem Attempt.settled_eq_self {a : Attempt} (h : a.timestamp.Plain) : a.settled = a := by
  simp [Attempt.settled, Time.Instant.written_eq_self h.nanos]

theorem Job.Plain.settled {job : Job} (h : job.Plain) : job.settled = job := by
  have hkept : job.attempts.map Attempt.settled = job.attempts :=
    (List.map_congr_left fun a ha => Attempt.settled_eq_self (h.attempts a ha)).trans
      (List.map_id _)
  simp [Job.settled, Time.Instant.written_eq_self h.createdAt.nanos, hkept]

theorem map_settled {jobs : List Job} (h : ∀ job ∈ jobs, job.Plain) : jobs.map Job.settled = jobs :=
  (List.map_congr_left fun job hjob => (h job hjob).settled).trans (List.map_id _)

/-! ### Reading what was written -/

theorem read_instant {t : Time.Instant} (h : t.InRange) (site : Site) :
    Time.Instant.read site (.string (.ok t.text)) = .ok t.written := by
  simp [Time.Instant.read, readText, Time.parse_text h]

theorem read_uuid {id : Uuid} (h : id.Fits) (site : Site) :
    Uuid.read site (.string (.ok id.text)) = .ok id := by
  simp [Uuid.read, readText, Uuid.parse_text h]

theorem read_status (status : Status) (depth : Nat) :
    Status.read ⟨.text, depth⟩ (.string (.ok status.tag)) = .ok status := by
  cases status <;> rfl

theorem read_attempt {a : Attempt} (h : a.timestamp.InRange) (depth : Nat) :
    Attempt.read ⟨.text, depth + 2⟩ (.ofValue a.toValue) = .ok a.settled := by
  obtain ⟨t, status, message⟩ := a
  cases message <;>
    simp [Attempt.read, Attempt.toValue, optionalMember, Document.ofValue, Document.ofMembers,
      Record.read, Record.readMembers, Record.find?, field, enter_text, malformed, read_instant h,
      read_status, required, Stop.readObject, readOption, readString, readText, Attempt.settled]

theorem readItems_attempts {attempts : List Attempt} (h : ∀ a ∈ attempts, a.timestamp.InRange)
    (depth : Nat) :
    readItems Attempt.read ⟨.text, depth + 2⟩ (Document.ofItems (attempts.map Attempt.toValue)) =
      .ok (attempts.map Attempt.settled) := by
  induction attempts with
  | nil => rfl
  | cons a rest ih =>
    simp [Document.ofItems, readItems, read_attempt (h a List.mem_cons_self),
      ih fun b hb => h b (List.mem_cons_of_mem a hb)]

theorem read_attempts {attempts : List Attempt} (h : ∀ a ∈ attempts, a.timestamp.InRange)
    (depth : Nat) :
    readList Attempt.read ⟨.text, depth + 3⟩
      (.array (Document.ofItems (attempts.map Attempt.toValue)) .closed) =
      .ok (attempts.map Attempt.settled) := by
  simp [readList, enter_text, malformed, readItems_attempts h, Stop.readList]

theorem read_job {job : Job} (h : job.Storable) (depth : Nat) :
    Job.read ⟨.text, depth + 4⟩ (.ofValue job.toValue) = .ok job.settled := by
  obtain ⟨id, url, title, employer, createdAt, isApplied, shouldApply, attempts⟩ := job
  obtain ⟨hid, hcreated, hattempts⟩ := h
  cases employer <;>
    simp [Job.read, Job.toValue, optionalMember, Document.ofValue, Document.ofMembers, Record.read,
      Record.readMembers, Record.find?, field, enter_text, malformed, read_instant hcreated,
      read_uuid hid, read_attempts hattempts, required, Stop.readObject, readOption, readString,
      readText, readBool, Job.settled]

theorem readItems_jobs {jobs : List Job} (h : ∀ job ∈ jobs, job.Storable) (depth : Nat) :
    readItems Job.read ⟨.text, depth + 4⟩ (Document.ofItems (jobs.map Job.toValue)) =
      .ok (jobs.map Job.settled) := by
  induction jobs with
  | nil => rfl
  | cons job rest ih =>
    simp [Document.ofItems, readItems, read_job (h job List.mem_cons_self),
      ih fun other hother => h other (List.mem_cons_of_mem job hother)]

theorem readsBack_attempts (attempts : List Attempt) :
    Value.AllReadAs id (attempts.map Attempt.toValue) := by
  induction attempts with
  | nil => trivial
  | cons a rest ih =>
    refine ⟨?_, ih⟩
    obtain ⟨t, status, message⟩ := a
    cases message <;> simp [Attempt.toValue, optionalMember, Value.ReadsAs, Value.MembersReadAs]

theorem readsBack_job (job : Job) : job.toValue.ReadsAs id := by
  obtain ⟨id, url, title, employer, createdAt, isApplied, shouldApply, attempts⟩ := job
  cases employer <;>
    simp [Job.toValue, optionalMember, Value.ReadsAs, Value.MembersReadAs, readsBack_attempts]

theorem readsBack_jobs (jobs : List Job) : (Value.array (jobs.map Job.toValue)).ReadsAs id := by
  induction jobs with
  | nil => trivial
  | cons job rest ih => exact ⟨readsBack_job job, ih⟩

theorem not_isBlank_fileText (jobs : List Job) : Text.isBlank (fileText jobs) = false := by
  obtain ⟨cs, hcs⟩ : ∃ cs, (fileText jobs).toList = '[' :: cs := by
    cases jobs <;> exact ⟨_, by simp [fileText, Value.pretty, Value.prettyChars]; rfl⟩
  simp [Text.isBlank, hcs, Text.isBlankChar]

/-- The offers are read back from the text that is written for them, in their order. -/
theorem parseFile_fileText {jobs : List Job} (h : ∀ job ∈ jobs, job.Storable) :
    parseFile (fileText jobs) = .ok (jobs.map Job.settled) := by
  rw [parseFile, if_neg (by simp [not_isBlank_fileText]), fileText,
    parseAs_pretty (readsBack_jobs jobs), Value.mapNumbers_id]
  simp only [Document.ofValue, readList]
  rw [depthLimit, enter_text]
  simp [readItems_jobs h, malformed, Stop.readList]

/-! ### Writing what was read -/

/-- An instant that has a text and is read back from it unchanged. -/
def Exact (t : Time.Instant) : Prop := t.InRange ∧ t.written = t

theorem exact_of_read {site : Site} {doc : Document} {t : Time.Instant}
    (h : Time.Instant.read site doc = .ok t) : Exact t := by
  obtain ⟨s, hs⟩ := parsed_of_readText h
  split at hs
  · next hparse =>
    obtain rfl := Except.ok.inj hs
    exact Time.spec_of_parse hparse
  · cases hs

theorem fits_of_read {site : Site} {doc : Document} {id : Uuid} (h : Uuid.read site doc = .ok id) :
    id.Fits := by
  obtain ⟨s, hs⟩ := parsed_of_readText h
  split at hs
  · next hparse =>
    obtain rfl := Except.ok.inj hs
    exact Uuid.fits_of_parse hparse
  · cases hs

theorem exact_of_readAttempt {site : Site} {doc : Document} {a : Attempt}
    (h : Attempt.read site doc = .ok a) : Exact a.timestamp ∧ a.settled = a := by
  obtain ⟨draft, hdraft, hfinish⟩ := Record.draft_of_read hereditary_true
    (P := fun d : Attempt.Draft => ∀ t, d.timestamp = some t → Exact t) trivial h nofun (by
      simp only [List.forall_mem_cons, List.not_mem_nil, false_implies, implies_true, and_true]
      refine ⟨keeps_field fun _ ha hd => ?_, keeps_field fun _ ha hd => hd,
        keeps_field fun _ ha hd => hd⟩
      rintro t ⟨⟩
      exact exact_of_read ha)
  obtain ⟨t, ht, hfinish⟩ := bind_eq_ok_iff.mp hfinish
  obtain ⟨status, -, hfinish⟩ := bind_eq_ok_iff.mp hfinish
  obtain rfl := Except.ok.inj hfinish
  have hexact := hdraft t (eq_some_of_required ht)
  exact ⟨hexact, by simp [Attempt.settled, hexact.2]⟩

/-- The members of an offer that were read have texts of their own. -/
structure Job.Draft.Storable (d : Job.Draft) : Prop where
  id : ∀ id, d.id = some id → id.Fits
  createdAt : ∀ t, d.createdAt = some t → Exact t
  attempts : ∀ as, d.attempts = some as → ∀ a ∈ as, Exact a.timestamp ∧ a.settled = a

theorem storable_of_readJob {site : Site} {doc : Document} {job : Job}
    (h : Job.read site doc = .ok job) : job.Storable ∧ job.settled = job := by
  obtain ⟨draft, hdraft, hfinish⟩ := Record.draft_of_read hereditary_true
    (P := Job.Draft.Storable) trivial h
    ⟨nofun, nofun, nofun⟩ (by
      simp only [List.forall_mem_cons, List.not_mem_nil, false_implies, implies_true, and_true]
      refine ⟨keeps_field fun _ ha hd => ?_,
        keeps_field fun _ ha hd => ⟨hd.id, hd.createdAt, hd.attempts⟩,
        keeps_field fun _ ha hd => ⟨hd.id, hd.createdAt, hd.attempts⟩,
        keeps_field fun _ ha hd => ⟨hd.id, hd.createdAt, hd.attempts⟩,
        keeps_field fun _ ha hd => ?_,
        keeps_field fun _ ha hd => ⟨hd.id, hd.createdAt, hd.attempts⟩,
        keeps_field fun _ ha hd => ⟨hd.id, hd.createdAt, hd.attempts⟩,
        keeps_field fun _ ha hd => ?_⟩
      · refine ⟨?_, hd.createdAt, hd.attempts⟩
        rintro id ⟨⟩
        exact fits_of_read ha
      · refine ⟨hd.id, ?_, hd.attempts⟩
        rintro t ⟨⟩
        exact exact_of_read ha
      · refine ⟨hd.id, hd.createdAt, ?_⟩
        rintro as ⟨⟩ a hmem
        obtain ⟨_, _, -, hread⟩ := read_of_mem_readList hereditary_true trivial ha a hmem
        exact exact_of_readAttempt hread)
  obtain ⟨id, hid, hfinish⟩ := bind_eq_ok_iff.mp hfinish
  obtain ⟨url, -, hfinish⟩ := bind_eq_ok_iff.mp hfinish
  obtain ⟨title, -, hfinish⟩ := bind_eq_ok_iff.mp hfinish
  obtain ⟨createdAt, hcreated, hfinish⟩ := bind_eq_ok_iff.mp hfinish
  obtain rfl := Except.ok.inj hfinish
  have hattempts : ∀ a ∈ draft.attempts.getD [], Exact a.timestamp ∧ a.settled = a := by
    cases hfound : draft.attempts with
    | none => nofun
    | some as => exact hdraft.attempts as hfound
  have hat := hdraft.createdAt createdAt (eq_some_of_required hcreated)
  refine ⟨⟨hdraft.id id (eq_some_of_required hid), hat.1, fun a ha => (hattempts a ha).1.1⟩, ?_⟩
  have hkept : (draft.attempts.getD []).map Attempt.settled = draft.attempts.getD [] :=
    (List.map_congr_left fun a ha => (hattempts a ha).2).trans (List.map_id _)
  simp [Job.settled, hat.2, hkept]

/-- The offers that a text holds can be written, and are read back as they are. -/
theorem storable_of_parseFile {text : String} {jobs : List Job} (h : parseFile text = .ok jobs) :
    ∀ job ∈ jobs, job.Storable ∧ job.settled = job := by
  unfold parseFile at h
  split at h
  · obtain rfl := Except.ok.inj h
    nofun
  · unfold parseAs at h
    obtain ⟨found, hfound, h⟩ := bind_eq_ok_iff.mp h
    have hjobs : found = jobs := by
      split at h
      · cases h
      · exact Except.ok.inj h
    intro job hjob
    obtain ⟨_, _, -, hread⟩ :=
      read_of_mem_readList hereditary_true trivial hfound job (hjobs ▸ hjob)
    exact storable_of_readJob hread

end Jobflow.Job
