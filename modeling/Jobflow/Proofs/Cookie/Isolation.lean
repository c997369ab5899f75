import Jobflow.Proofs.Cookie.Concurrency

/-!
Calls for different sites. Where the files of the sites have different names, what is done for one
site is not noticed at another, in between as little as before. The names are made from the sites
with some characters changed, so the files of two sites may have one name; what is saved for the
one is then found for the other.
-/

namespace Jobflow.Cookie

open Jobflow.Files
open Jobflow.Workflow (Context)

/-! ### One call -/

section
variable {store : Store} {site other : String} {disk : Disk} {op : FileOp}

namespace Store

/-- A file that is written for one site is none of a site apart from it. -/
theorem Apart.keeps (h : Apart site other) (hdoes : (store.spot site).Does op)
    (hopen : disk.tree.Reaches (store.spot other).path) :
    (store.spot other).Keeps disk (Disk.act op disk).2 :=
  Spot.keeps_act (hdoes.not_writes h.spot_path_ne place_spot_ne)
    (hdoes.not_writes place_spot_ne.symm h.spot_temporary_ne) hopen

/-- Where the file of a site can be looked up, its directory is there, and nothing that is done for
a site apart from it changes what is read. -/
theorem Apart.readText_eq (h : Apart site other) (hdoes : (store.spot site).Does op) {place : Place}
    (hplace : disk.tree.locate (store.spot other).path = .ok place) :
    (Disk.act op disk).2.tree.locate (store.spot other).path = .ok place ∧
      (Disk.act op disk).2.tree.readText (store.spot other).path =
        disk.tree.readText (store.spot other).path := by
  have hopens : disk.tree.Opens store.directory := by
    dsimp only [spot] at hplace
    rw [pathFor_eq] at hplace
    exact Path.opens_of_locate_join (isName_file other) hplace
  have hleaves : Tree.Leaves place disk.tree (Disk.act op disk).2.tree := by
    rw [← Tree.place_of_locate hplace]
    refine Disk.leaves_act (hdoes.not_writes h.spot_path_ne place_spot_ne) ?_
    rintro path tree rfl hmade
    exact Tree.makeDirectories_of_opens (hdoes.directory_eq ▸ hopens) hmade
  exact ⟨hleaves.locate hplace, hleaves.readText hplace⟩

/-- A call that is made alone has its effect, and from its start to its end keeps what each of its
operations keeps. -/
theorem run_perform {sound : Disk → Prop} {guarantee : Disk → Disk → Prop} (times : Nat → Prop)
    (hserves : (store.spot site).Serves sound guarantee) (hsame : ∀ d, guarantee d d)
    (htrans : ∀ d d' d'', guarantee d d' → guarantee d' d'' → guarantee d d'')
    (htimes : ∀ d, sound d → times d.now) (hsound : sound disk) {visit : Visit}
    (hvisit : visit.IsFinite) :
    Visit.Effect times (store.spot site) visit (Disk.run (store.perform site visit) disk).1 disk
        (Disk.run (store.perform site visit) disk).2 ∧
      guarantee disk (Disk.run (store.perform site visit) disk).2 := by
  rw [perform_eq, Disk.run_holding]
  exact (Visit.secure_work hserves place_spot_ne htimes hsound hvisit).run
    (fun _ => Spot.Keeps.refl _ _) hsame htrans hsound

theorem run_perform_save (store : Store) (site : String) (newer : Jar) (disk : Disk) :
    Disk.run (store.perform site (.save newer)) disk =
      (.saved (Disk.run (store.save site newer) disk).1,
        (Disk.run (store.save site newer) disk).2) :=
  Disk.run_map _ _ _

/-- A save that is made alone and succeeds leaves what is merged. -/
theorem jarAt_run_save {newer : Jar} (hnewer : newer.IsFinite)
    (hok : (Disk.run (store.save site newer) disk).1 = .ok ()) :
    jarAt (store.pathFor site) (Disk.run (store.save site newer) disk).2.tree =
      (Visit.save newer).after disk.now (jarAt (store.pathFor site) disk.tree) := by
  have hserves : (store.spot site).Serves (fun d => d.now = disk.now) (fun _ _ => True) :=
    fun op d _ hnow => ⟨(Disk.now_act op d).trans hnow, trivial⟩
  have hsave : (Visit.save newer).IsFinite := hnewer
  have heffect := (run_perform (fun now => now = disk.now) hserves (fun _ => trivial)
    (fun _ _ _ _ _ => trivial) (fun _ h => h) rfl hsave).1
  rw [run_perform_save, hok] at heffect
  obtain ⟨now, rfl, -, hjar⟩ := heffect.succeeded rfl
  dsimp only [spot] at hjar
  exact hjar

end Store

/-- What a save for one site leaves of what a load for another returns: the cookies, and if the
file of the other site can be looked up, the failures as well. -/
structure Unnoticed (store : Store) (site other : String) (newer : Jar) (disk : Disk) : Prop where
  found : (Disk.run (store.load other) (Disk.run (store.save site newer) disk).2).1.toOption.join =
    (Disk.run (store.load other) disk).1.toOption.join
  answer : (∃ place, disk.tree.locate (store.pathFor other) = .ok place) →
    (Disk.run (store.load other) (Disk.run (store.save site newer) disk).2).1 =
      (Disk.run (store.load other) disk).1

theorem Store.Apart.unnoticed (h : Store.Apart site other) {newer : Jar} (hnewer : newer.IsFinite)
    (hopen : disk.tree.Reaches (store.pathFor other)) : Unnoticed store site other newer disk where
  found := by
    have hserves : (store.spot site).Serves (fun disk => disk.tree.Reaches (store.spot other).path)
        (store.spot other).Keeps :=
      fun op disk hdoes hopen => ⟨(h.keeps hdoes hopen).way hopen, h.keeps hdoes hopen⟩
    have hway : disk.tree.Reaches (store.spot other).path := by
      dsimp only [Store.spot]
      exact hopen
    have hsave : (Visit.save newer).IsFinite := hnewer
    have hkeeps := (Store.run_perform (fun _ => True) hserves (Spot.Keeps.refl _)
      (fun _ _ _ => Spot.Keeps.trans) (fun _ _ => trivial) hway hsave).2
    rw [Store.run_perform_save] at hkeeps
    have hjar := jarAt_congr hkeeps.text
    dsimp only [Store.spot] at hjar
    rw [found_load, found_load, hjar, Disk.now_run]
  answer := by
    rintro ⟨place, hplace⟩
    have hserves : (store.spot site).Serves
        (fun disk => disk.tree.locate (store.spot other).path = .ok place)
        (fun before after => after.tree.readText (store.spot other).path =
          before.tree.readText (store.spot other).path) :=
      fun op disk hdoes hplace => h.readText_eq hdoes hplace
    have hfound : disk.tree.locate (store.spot other).path = .ok place := by
      dsimp only [Store.spot]
      exact hplace
    have hsave : (Visit.save newer).IsFinite := hnewer
    have htext := (Store.run_perform (fun _ => True) hserves (fun _ => rfl)
      (fun _ _ _ h h' => h'.trans h) (fun _ _ => trivial) hfound hsave).2
    rw [Store.run_perform_save] at htext
    dsimp only [Store.spot] at htext
    exact load_congr (Disk.now_run _ _) htext

end

/-! ### Calls at a time -/

section
variable {ι : Type}

/-- What is done for a site whose file has a name of its own is not noticed at the others. -/
theorem Calls.steady_of_apart {calls : Calls ι}
    (happart : ∀ site ∈ calls.sites, ∀ other ∈ calls.sites, site ≠ other → Store.Apart site other) :
    calls.Steady fun tree => ∀ site ∈ calls.sites, tree.Reaches (calls.store.spot site).path where
  kept := by
    intro i op disk hdoes hopen site hsite
    by_cases hsame : site = calls.site i
    · subst hsame
      exact hdoes.reaches Store.place_spot_ne (hopen _ hsite)
    · have hother := happart _ (calls.mem i) site hsite (Ne.symm hsame)
      exact (hother.keeps hdoes (hopen site hsite)).way (hopen site hsite)
  unnoticed := by
    intro i site op disk hsite hne hdoes hopen
    exact (happart _ (calls.mem i) site hsite hne.symm).keeps hdoes (hopen site hsite)

/-- Runs whose sites have files of different names do not notice each other: what a save for the
one leaves is what a load for the other would have returned, and in whatever turns their calls
take their steps, those for each site go as if they had been made one after another, so none of
the cookies of either is lost. -/
theorem Store.sites_are_isolated [DecidableEq ι] (store : Store) (context : ι → Context)
    (visit : ι → Visit) (hfinite : ∀ i, (visit i).IsFinite)
    (hnames : ∀ i j, siteOf (context i) ≠ siteOf (context j) →
      fileName (siteOf (context i)) ≠ fileName (siteOf (context j)))
    (disk : Disk) (hopen : ∀ i, disk.tree.Reaches (store.pathFor (siteOf (context i))))
    (turns : List (Turn ι)) :
    (∀ i j, siteOf (context i) ≠ siteOf (context j) → ∀ newer : Jar, newer.IsFinite →
      Unnoticed store (siteOf (context i)) (siteOf (context j)) newer disk) ∧
    ∀ i, ∃ order, InOrder store (fun j => siteOf (context j)) visit (Shown disk turns) disk
      ((store.together (fun j => siteOf (context j)) visit disk).playTurns turns)
      (siteOf (context i)) order := by
  have happart : ∀ i j, siteOf (context i) ≠ siteOf (context j) →
      Store.Apart (siteOf (context i)) (siteOf (context j)) := fun i j hne =>
    ⟨siteOf_ne_empty (context i), siteOf_ne_empty (context j), hnames i j hne⟩
  refine ⟨fun i j hne newer hnewer => (happart i j hne).unnoticed hnewer (hopen j), fun i => ?_⟩
  let calls : Calls ι := ⟨store, Set.range fun j => siteOf (context j), fun j => siteOf (context j),
    fun j => ⟨j, rfl⟩, visit, hfinite⟩
  have hsteady : calls.Steady fun tree =>
      ∀ site ∈ calls.sites, tree.Reaches (calls.store.spot site).path := by
    refine Calls.steady_of_apart ?_
    rintro _ ⟨j, rfl⟩ _ ⟨k, rfl⟩ hne
    exact happart j k hne
  have hways : ∀ site ∈ calls.sites, disk.tree.Reaches (calls.store.spot site).path := by
    rintro _ ⟨j, rfl⟩
    dsimp only [Store.spot]
    exact hopen j
  exact hsteady.exists_inOrder hways turns ⟨i, rfl⟩ (.inl (hopen i))

end

/-! ### Two sites -/

def offerAt (url : String) : Context := Context.empty.setText Workflow.jobUrl url

def twoOffers : Bool → Context
  | false => offerAt "https://jobs.example/view"
  | true => offerAt "https://[::1]/view"

theorem Store.sites_are_isolated_two :
    siteOf (twoOffers false) ≠ siteOf (twoOffers true) ∧ (∀ i, (twoSaves i).IsFinite) ∧
      (∀ newer : Jar, newer.IsFinite → Unnoticed smallStore (siteOf (twoOffers false))
        (siteOf (twoOffers true)) newer ⟨[], 0⟩) ∧
      ∀ i, ∃ order, InOrder smallStore (fun j => siteOf (twoOffers j)) twoSaves
        (Shown ⟨[], 0⟩ waitingTurns) ⟨[], 0⟩
        ((smallStore.together (fun j => siteOf (twoOffers j)) twoSaves ⟨[], 0⟩).playTurns
          waitingTurns)
        (siteOf (twoOffers i)) order := by
  have hsites : siteOf (twoOffers false) ≠ siteOf (twoOffers true) := by decide +kernel
  have hnames : ∀ i j, siteOf (twoOffers i) ≠ siteOf (twoOffers j) →
      fileName (siteOf (twoOffers i)) ≠ fileName (siteOf (twoOffers j)) := by decide +kernel
  have h := Store.sites_are_isolated smallStore twoOffers twoSaves finite_twoSaves hnames ⟨[], 0⟩
    (fun _ => Tree.reaches_nil _) waitingTurns
  exact ⟨hsites, finite_twoSaves, h.1 false true hsites, h.2⟩

/-- The sites of two offers differ, and yet what is saved for the one is found for the other. -/
theorem saved_for_another_site :
    siteOf (offerAt "https://[::1]/") ≠ siteOf (offerAt "https://___1_/") ∧
      (Disk.run (smallStore.load (siteOf (offerAt "https://___1_/"))) ⟨[], 0⟩).1.toOption.join =
        none ∧
      (Disk.run (smallStore.load (siteOf (offerAt "https://___1_/")))
        (Disk.run (smallStore.save (siteOf (offerAt "https://[::1]/")) ⟨[plainCookie]⟩)
          ⟨[], 0⟩).2).1.toOption.join = some ⟨[plainCookie]⟩ := by
  have hsite : siteOf (offerAt "https://[::1]/") = "[::1]" := by decide +kernel
  have hother : siteOf (offerAt "https://___1_/") = "___1_" := by decide +kernel
  rw [hsite, hother]
  have hpath : smallStore.pathFor "___1_" = smallStore.pathFor "[::1]" := by decide +kernel
  have hfinite : Jar.IsFinite ⟨[plainCookie]⟩ := by
    rintro c hc x hx
    obtain rfl := List.mem_singleton.mp hc
    cases hx
  have hok : (Disk.run (smallStore.save "[::1]" ⟨[plainCookie]⟩) ⟨[], 0⟩).1 = .ok () := by
    decide +kernel
  refine ⟨by decide, ?_, ?_⟩
  · rw [found_load, jarAt_nil]
    rfl
  · rw [found_load, hpath, Store.jarAt_run_save hfinite hok, jarAt_nil, Disk.now_run]
    decide +kernel

end Jobflow.Cookie
