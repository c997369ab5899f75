import Jobflow.Proofs.Cookie.Concurrency
import Jobflow.Proofs.Cookie.Faults
import Jobflow.Proofs.Job.Faults

/-!
The files of both stores are replaced as a whole. Whatever fails and wherever a program is cut
off, the file of the backlog and the file of a site hold what they held before, or all of what was
to be written.
-/

namespace Jobflow

open Jobflow.Files
open Jobflow.Job (FileStore Operation firstOffer newStore emptyDisk fileText offersIn?)
open Jobflow.Cookie (Jar jarIn? farCookie plainCookie smallStore)

/-- On every disk, every change of a backlog in a file and every save of cookies is atomic. Cut
off before it has moved the temporary file, or failing for whatever reason, it leaves the file at
the place of its path as it was, or absent as it was. When it succeeds, the temporary file is gone
and the file holds what the change or the save makes of what was found: all other offers in their
places, and all cookies that are neither past nor replaced, in their order and with their expiries
as they are read back. What was found is what the file held, if its path reaches it. -/
theorem replacements_are_atomic (jobs : FileStore) {op : Operation} (hchange : op.isChange = true)
    (hop : op.Storable) (cookies : Cookie.Store) (site : String) {newer : Jar}
    (hnewer : newer.IsFinite) (disk : Disk) :
    Atomic (jobs.perform op) jobs.temporary jobs.path disk (jobs.Updated op disk) ∧
      Atomic (cookies.save site newer) (cookies.temporaryFor site) (cookies.pathFor site) disk
        (cookies.Updated site newer disk) :=
  ⟨FileStore.atomic_perform hchange hop disk, Cookie.Store.atomic_save hnewer disk⟩

theorem isFinite_plain : Jar.IsFinite ⟨[plainCookie]⟩ := by
  intro c hc x hx
  obtain rfl := List.mem_singleton.mp hc
  cases hx

/-- The first offer is inserted, and the first cookie saved, on an empty disk. -/
theorem replacements_are_atomic_first :
    (Operation.insert firstOffer).isChange = true ∧ (Operation.insert firstOffer).Storable ∧
      Jar.IsFinite ⟨[plainCookie]⟩ ∧
      (∃ steps after, Leads (newStore.perform (.insert firstOffer)) emptyDisk steps
          (.done (.ok .done)) after ∧ newStore.Updated (.insert firstOffer) emptyDisk after ∧
        after.tree.entryAt? (Path.place newStore.temporary) = none) ∧
      ∃ steps after, Leads (smallStore.save "jobs" ⟨[plainCookie]⟩) emptyDisk steps
          (.done (.ok ())) after ∧ smallStore.Updated "jobs" ⟨[plainCookie]⟩ emptyDisk after ∧
        after.tree.entryAt? (Path.place (smallStore.temporaryFor "jobs")) = none := by
  have hchange : (Operation.insert firstOffer).isChange = true := rfl
  have hoffer : (Operation.insert firstOffer).Storable := Job.storable_firstOffer
  obtain ⟨hjobs, hcookies⟩ := replacements_are_atomic newStore hchange hoffer smallStore "jobs"
    isFinite_plain emptyDisk
  obtain ⟨jobSteps, hjobSteps⟩ := exists_leads_run (newStore.perform (.insert firstOffer)) emptyDisk
  obtain ⟨cookieSteps, hcookieSteps⟩ :=
    exists_leads_run (smallStore.save "jobs" ⟨[plainCookie]⟩) emptyDisk
  have hinserted : (Disk.run (newStore.perform (.insert firstOffer)) emptyDisk).1 = .ok .done := rfl
  have hsaved : (Disk.run (smallStore.save "jobs" ⟨[plainCookie]⟩) emptyDisk).1 = .ok () := rfl
  rw [hinserted] at hjobSteps
  rw [hsaved] at hcookieSteps
  exact ⟨hchange, hoffer, isFinite_plain, ⟨_, _, hjobSteps, hjobs.succeeded hjobSteps⟩,
    ⟨_, _, hcookieSteps, hcookies.succeeded hcookieSteps⟩⟩

/-! ### Files that lose something -/

/-- The path goes up again from a directory that is missing. -/
def detour : FileStore := ⟨"x/../jobs.json"⟩

def detourDisk : Disk := ⟨[(["jobs.json"], .file (fileText [firstOffer]).toUTF8 false)], 0⟩

def secondOffer : Job.Job := Job.Job.create ⟨2⟩ ⟨0, 0⟩ "https://example.org/2" "Cook" none

/-- A cookie file with the expiry of `farCookie`, written as a whole number. -/
def farText : String :=
  (Json.Value.object [("cookies", .array [.object [("name", .string "a"), ("value", .string "1"),
    ("expires", .number (.whole 4102444800000000512))]])]).pretty

def farDisk : Disk := ⟨[(["c"], .directory), (["c", "jobs.json"], .file farText.toUTF8 false)], 0⟩

theorem parseJar_farText : Cookie.parseJar farText = .ok ⟨[farCookie]⟩ := by decide +kernel

theorem farDisk_holds : farDisk.tree.Holds (smallStore.pathFor "jobs") farText.toUTF8 :=
  ⟨["c", "jobs.json"], false, rfl, rfl⟩

theorem jarIn?_farDisk :
    jarIn? (farDisk.tree.fileAt? (smallStore.place "jobs")) = some ⟨[farCookie]⟩ := by
  have hfile : farDisk.tree.fileAt? (smallStore.place "jobs") = some farText.toUTF8 := rfl
  rw [hfile, Cookie.jarIn?_text, parseJar_farText]
  rfl

theorem offersIn?_detourDisk :
    offersIn? (detourDisk.tree.fileAt? (Path.place detour.path)) = some [firstOffer] := by
  have hfile : detourDisk.tree.fileAt? (Path.place detour.path) =
      some (fileText [firstOffer]).toUTF8 := rfl
  have hsettled : [firstOffer].map Job.Job.settled = [firstOffer] := by decide
  rw [hfile, Job.offersIn?_text,
    Job.parseFile_fileText (by simpa using Job.storable_firstOffer), hsettled]
  rfl

/-- The change starts from nothing, so its offer is the only one afterwards. -/
theorem offersIn?_after_detour
    (hinserted : (Disk.run (detour.perform (.insert secondOffer)) detourDisk).1 = .ok .done) :
    offersIn? ((Disk.run (detour.perform (.insert secondOffer)) detourDisk).2.tree.fileAt?
      (Path.place detour.path)) = some [secondOffer] := by
  have hsecond : secondOffer.Storable :=
    ⟨by unfold Uuid.Fits; decide, ⟨by decide, by decide⟩, nofun⟩
  have hstorable : (Operation.insert secondOffer).Storable := hsecond
  obtain ⟨jobs, hcontents, hread, -⟩ := FileStore.contents_of_change hstorable rfl hinserted
  have hnothing : detour.contents detourDisk = .ok [] := detour.contents_of_notFound rfl
  obtain rfl := Except.ok.inj (hnothing.symm.trans hcontents)
  have hjobs : ∀ job ∈ [secondOffer], job.Storable := by simpa using hsecond
  exact FileStore.offersIn?_of_holds (Tree.readText_eq_ok_iff.mp hread) hjobs

/-- The expiry is written with a decimal that is read back as its neighbour. -/
theorem farCookie_not_mem_saved
    (hsaved : (Disk.run (smallStore.save "jobs" ⟨[plainCookie]⟩) farDisk).1.isOk = true)
    {saved : Jar}
    (hfound : jarIn? ((Disk.run (smallStore.save "jobs" ⟨[plainCookie]⟩) farDisk).2.tree.fileAt?
      (smallStore.place "jobs")) = some saved) : farCookie ∉ saved.cookies := by
  obtain ⟨stored, last, -, hstored, hspec, hlast⟩ :=
    Cookie.Store.updated_of_run isFinite_plain hsaved
  obtain rfl := Option.some.inj (hlast.symm.trans hfound)
  have hfar : stored = ⟨[farCookie]⟩ := by
    rw [← hstored farDisk_holds.reaches, jarIn?_farDisk]
    rfl
  rw [hspec.cookies, hfar]
  intro hmem
  obtain ⟨c, hc, hsame⟩ := List.mem_map.mp hmem
  simp only [Jar.untouched, Jar.fresh] at hc
  rcases List.mem_append.mp hc with hold | hnew
  · have hc : c ∈ [farCookie] := List.mem_of_mem_filter hold
    rw [List.mem_singleton.mp hc] at hsame
    exact absurd hsame (by decide +kernel)
  · have hc : c ∈ [plainCookie] := List.mem_of_mem_filter hnew
    rw [List.mem_singleton.mp hc] at hsame
    exact absurd hsame (by decide +kernel)

/-- An offer in a file that its path does not reach is lost when another is inserted by that path,
and a cookie whose expiry has too many digits is not what it was when another is saved. -/
theorem untouched_can_be_lost :
    (offersIn? (detourDisk.tree.fileAt? (Path.place detour.path)) = some [firstOffer] ∧
      (Disk.run (detour.perform (.insert secondOffer)) detourDisk).1 = .ok .done ∧
      offersIn? ((Disk.run (detour.perform (.insert secondOffer)) detourDisk).2.tree.fileAt?
        (Path.place detour.path)) = some [secondOffer]) ∧
    jarIn? (farDisk.tree.fileAt? (smallStore.place "jobs")) = some ⟨[farCookie]⟩ ∧
      farCookie ∈ Jar.untouched ⟨[farCookie]⟩ ⟨[plainCookie]⟩ farDisk.now ∧
      (Disk.run (smallStore.save "jobs" ⟨[plainCookie]⟩) farDisk).1.isOk = true ∧
      ∀ saved, jarIn? ((Disk.run (smallStore.save "jobs" ⟨[plainCookie]⟩) farDisk).2.tree.fileAt?
        (smallStore.place "jobs")) = some saved → farCookie ∉ saved.cookies := by
  have hinserted : (Disk.run (detour.perform (.insert secondOffer)) detourDisk).1 = .ok .done := rfl
  have hsaved : (Disk.run (smallStore.save "jobs" ⟨[plainCookie]⟩) farDisk).1.isOk = true := by
    decide +kernel
  exact ⟨⟨offersIn?_detourDisk, hinserted, offersIn?_after_detour hinserted⟩, jarIn?_farDisk,
    by decide +kernel, hsaved, fun _ => farCookie_not_mem_saved hsaved⟩

end Jobflow
