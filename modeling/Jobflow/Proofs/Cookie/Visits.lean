import Jobflow.Proofs.Cookie.File
import Jobflow.Proofs.Cookie.Sites
import Jobflow.Proofs.Files.Undisturbed

/-!
Calls on the store. Undisturbed in the file of its site, a call that loads returns what the file
holds at one time of the clock, and one that saves leaves in it what is merged at one time; a call
that fails leaves it as it was.
-/

namespace Jobflow.Cookie

open Jobflow.Files
open Jobflow.Decimal (Binary64)
open Jobflow.Workflow (FlowError)

/-- A call on the store for one site. -/
inductive Visit where
  | load
  | save (newer : Jar)

/-- What a call returns. -/
inductive Answer where
  | loaded (found : Except FlowError (Option Jar))
  | saved (result : Except FlowError Unit)

/-- Whether the call did what it is for. -/
def Answer.isOk : Answer → Bool
  | .loaded (.ok _) | .saved (.ok ()) => true
  | _ => false

/-- The cookies of the file at a path, if it has any that can be read. -/
def readJar (path : Path) : Filing (Except FlowError (Option Jar)) := do
  match ← Filing.readText path with
  | .ok text => return .ok (parseJar text).toOption
  | .error .notFound => return .ok none
  | .error e => return .error (.io (path ++ ": " ++ e.message))

namespace Visit

/-- What a call does while it has the lock of the site. -/
def work (spot : Spot) : Visit → Filing Answer
  | .load => do
    let now ← Filing.now
    let found ← readJar spot.path
    return .loaded (found.map fun jar => jar.map fun j => j.fresh (Binary64.ofNat now))
  | .save newer => do
    match ← readJar spot.path with
    | .error e => return .saved (.error e)
    | .ok stored => do
      let now ← Filing.now
      let merged := merge (stored.getD .empty) newer (Binary64.ofNat now)
      let written ← Filing.replace (some spot.directory) spot.temporary spot.path
        merged.toValue.pretty
      return .saved (written.mapError fun e => .io e.message)

/-- What is stored after a call at a time, if what was stored before is known. -/
def after (now : Nat) (stored : Option Jar) : Visit → Option Jar
  | .load => stored
  | .save newer => some (merge (stored.getD .empty) newer (Binary64.ofNat now)).reread

/-- What a call returns at a time, if what is stored is known. -/
def answer (now : Nat) (stored : Option Jar) : Visit → Answer
  | .load => .loaded (.ok (stored.map fun jar => jar.fresh (Binary64.ofNat now)))
  | .save _ => .saved (.ok ())

/-- The expiries of the cookies that the call brings are finite. -/
def IsFinite : Visit → Prop
  | .load => True
  | .save newer => newer.IsFinite

end Visit

namespace Store

variable {store : Store} {site : String}

/-- A call as it is made. -/
def perform (store : Store) (site : String) : Visit → Filing Answer
  | .load => .loaded <$> store.load site
  | .save newer => .saved <$> store.save site newer

/-- The files that the calls for a site work on. -/
def spot (store : Store) (site : String) : Spot :=
  ⟨store.directory, store.temporaryFor site, store.pathFor site⟩

theorem place_spot_ne {other : String} :
    Path.place (store.spot site).temporary ≠ Path.place (store.spot other).path := by
  dsimp only [spot]
  exact temporaryPlace_ne_place

theorem Apart.spot_path_ne {other : String} (h : Apart site other) :
    Path.place (store.spot site).path ≠ Path.place (store.spot other).path := by
  dsimp only [spot]
  exact h.place_ne

theorem Apart.spot_temporary_ne {other : String} (h : Apart site other) :
    Path.place (store.spot site).temporary ≠ Path.place (store.spot other).temporary := by
  dsimp only [spot]
  exact h.temporaryPlace_ne

theorem perform_eq (visit : Visit) :
    store.perform site visit = Filing.holding site (visit.work (store.spot site)) := by
  have hread : store.read site = readJar (store.pathFor site) := rfl
  cases visit with
  | load => simp [perform, Visit.work, Store.load, Filing.holding, hread, spot]
  | save newer =>
    simp only [perform, Visit.work, Store.save, Filing.holding, map_eq_pure_bind, bind_assoc, hread]
    congr! 4 with - found
    cases found <;> simp [spot]

end Store

/-! ### What a file holds -/

/-- The cookies that can be read from the file at a path. -/
def jarAt (path : Path) (tree : Tree) : Option Jar :=
  (tree.text? path).bind fun text => (parseJar text).toOption

theorem jarAt_congr {path : Path} {tree tree' : Tree} (h : tree'.text? path = tree.text? path) :
    jarAt path tree' = jarAt path tree := by
  rw [jarAt, jarAt, h]

theorem jarAt_nil (path : Path) : jarAt path [] = none := by
  have htext : Tree.text? [] path = none := Option.eq_none_iff_forall_ne_some.mpr fun text hsome =>
    Tree.not_holds_nil path (Spot.text?_eq_some_iff.mp hsome)
  rw [jarAt, htext]
  rfl

theorem run_readJar (path : Path) (disk : Disk) :
    Disk.run (readJar path) disk =
      (match disk.tree.readText path with
        | .ok text => .ok (parseJar text).toOption
        | .error .notFound => .ok none
        | .error e => .error (.io (path ++ ": " ++ e.message)), disk) := by
  have htext : Disk.run (Filing.readText path) disk = (disk.tree.readText path, disk) := rfl
  simp only [readJar, Disk.run_bind, htext]
  cases disk.tree.readText path with
  | ok text => rfl
  | error e => cases e <;> rfl

/-- A load that is made alone, and that changes no file. -/
theorem run_load (store : Store) (site : String) (disk : Disk) :
    Disk.run (store.load site) disk =
      ((Disk.run (readJar (store.pathFor site)) disk).1.map fun jar =>
        jar.map fun j => j.fresh (Binary64.ofNat disk.now), disk) := by
  have hread : store.read site = readJar (store.pathFor site) := rfl
  have hnow : Disk.run Filing.now disk = (disk.now, disk) := rfl
  simp only [Store.load, Disk.run_holding, Disk.run_bind, hnow, hread, run_readJar]
  rfl

/-- What a load finds that is made alone. -/
theorem found_load (store : Store) (site : String) (disk : Disk) :
    (Disk.run (store.load site) disk).1.toOption.join =
      (jarAt (store.pathFor site) disk.tree).map fun jar =>
        jar.fresh (Binary64.ofNat disk.now) := by
  rw [run_load, run_readJar, jarAt, Tree.text?]
  cases disk.tree.readText (store.pathFor site) with
  | ok text => rfl
  | error e => cases e <;> rfl

/-- A load that is made alone returns what it returns of the same text at the same time. -/
theorem load_congr {store : Store} {site : String} {disk disk' : Disk} (hnow : disk'.now = disk.now)
    (htext : disk'.tree.readText (store.pathFor site) = disk.tree.readText (store.pathFor site)) :
    (Disk.run (store.load site) disk').1 = (Disk.run (store.load site) disk).1 := by
  rw [run_load, run_load, run_readJar, run_readJar, hnow, htext]

theorem run_readJar_of_notFound {path : Path} {disk : Disk}
    (h : disk.tree.readText path = .error .notFound) :
    Disk.run (readJar path) disk = (.ok none, disk) := by
  rw [run_readJar, h]

theorem run_readJar_of_text {path : Path} {text : String} {jar : Jar} {disk : Disk}
    (h : disk.tree.readText path = .ok text) (hjar : parseJar text = .ok jar) :
    Disk.run (readJar path) disk = (.ok (some jar), disk) := by
  rw [run_readJar, h]
  dsimp only
  rw [hjar]
  rfl

/-- A save that is made alone, and whose writes succeed, leaves the text of what is merged. -/
theorem run_save {store : Store} {site : String} {newer : Jar} {disk : Disk} {stored : Option Jar}
    (hread : Disk.run (readJar (store.pathFor site)) disk = (.ok stored, disk))
    (hwrites : Disk.WritesSucceed (store.save site newer) disk) :
    ∃ after, Disk.run (store.save site newer) disk = (.ok (), after) ∧
      after.tree.readText (store.pathFor site) =
        .ok (merge (stored.getD .empty) newer (Binary64.ofNat disk.now)).toValue.pretty := by
  have hsame : store.read site = readJar (store.pathFor site) := rfl
  have hnow : Disk.run Filing.now disk = (disk.now, disk) := rfl
  let text := (merge (stored.getD .empty) newer (Binary64.ofNat disk.now)).toValue.pretty
  let replacement :=
    Filing.replace (some store.directory) (store.temporaryFor site) (store.pathFor site) text
  unfold Store.save at hwrites ⊢
  rw [hsame, Disk.writesSucceed_holding_iff, Disk.writesSucceed_bind_iff, hread] at hwrites
  have hreplace : Disk.WritesSucceed replacement disk :=
    (Disk.writesSucceed_bind_iff.mp (Disk.writesSucceed_bind_iff.mp hwrites.2).2).1
  have hrun : Disk.run replacement disk = (.ok (), (Disk.run replacement disk).2) :=
    Prod.ext (Disk.dependable_replace _ _ _ _ _ hreplace) rfl
  refine ⟨_, ?_, Filing.readText_of_replace hrun⟩
  rw [hsame, Disk.run_holding, Disk.run_bind, hread, Disk.run_bind, hnow, Disk.run_bind, hrun]
  rfl

theorem isFinite_of_jarAt {path : Path} {tree : Tree} {jar : Jar} (h : jarAt path tree = some jar) :
    jar.IsFinite := by
  obtain ⟨text, -, h⟩ := Option.bind_eq_some_iff.mp h
  cases hparse : parseJar text with
  | error e =>
    rw [hparse] at h
    cases h
  | ok found =>
    rw [hparse] at h
    obtain rfl := Option.some.inj h
    exact isFinite_of_parseJar hparse

theorem isFinite_merge {stored newer : Jar} (hstored : stored.IsFinite) (hnewer : newer.IsFinite)
    (now : Binary64) : (merge stored newer now).IsFinite := by
  intro c hc
  rcases List.mem_append.mp (List.mem_of_mem_filter hc) with hold | hnew
  · exact hstored c (List.mem_of_mem_filter hold)
  · exact hnewer c hnew

theorem isFinite_getD {stored : Option Jar} (h : ∀ jar, stored = some jar → jar.IsFinite) :
    (stored.getD .empty).IsFinite := by
  cases stored with
  | none => nofun
  | some jar => exact h jar rfl

/-! ### The effect of a call -/

namespace Visit

variable {times : Nat → Prop} {spot : Spot} {sound : Disk → Prop} {guarantee : Disk → Disk → Prop}
  {first later : Disk}

/-- What a call does to the file: a call that succeeds has its effect at one time, one that fails
has none. -/
structure Effect (times : Nat → Prop) (spot : Spot) (visit : Visit) (a : Answer)
    (first later : Disk) : Prop where
  way : first.tree.Reaches spot.path → later.tree.Reaches spot.path
  succeeded : a.isOk = true → ∃ now, times now ∧ a = visit.answer now (jarAt spot.path first.tree) ∧
    jarAt spot.path later.tree = visit.after now (jarAt spot.path first.tree)
  failed : a.isOk = false → first.tree.Reaches spot.path →
    jarAt spot.path later.tree = jarAt spot.path first.tree

/-- What is read is what the file holds. -/
theorem secure_readJar (hserves : spot.Serves sound guarantee) :
    Secure sound spot.Keeps guarantee (fun found later => spot.Keeps first later ∧
      ∀ stored, found = .ok stored → stored = jarAt spot.path first.tree)
        (readJar spot.path) first := by
  refine Spot.secure_step hserves .read fun middle _ hkeeps => ?_
  have htext : middle.tree.text? spot.path = (middle.tree.readText spot.path).toOption := rfl
  rw [hkeeps.text] at htext
  have hact : Disk.act (.readText spot.path) middle =
    (middle.tree.readText spot.path, middle) := rfl
  rw [hact]
  cases hread : middle.tree.readText spot.path with
  | ok text =>
    rw [hread] at htext
    refine secure_pure fun later _ hlater => ⟨hkeeps.trans hlater, ?_⟩
    rintro stored ⟨⟩
    rw [jarAt, htext]
    rfl
  | error e =>
    rw [hread] at htext
    cases e
    all_goals
      refine secure_pure fun later _ hlater => ⟨hkeeps.trans hlater, ?_⟩
      rintro stored ⟨⟩
    rw [jarAt, htext]
    rfl

theorem secure_load (hserves : spot.Serves sound guarantee)
    (htimes : ∀ disk, sound disk → times disk.now) :
    Secure sound spot.Keeps guarantee (fun a later => Effect times spot .load a first later)
      (work spot .load) first := by
  refine Spot.secure_step hserves .now fun middle hmiddle hkeeps => ?_
  refine Secure.bind (p := readJar spot.path) (Spot.Keeps.refl spot) hmiddle
    (secure_readJar hserves) fun found later _ hfound => ?_
  obtain ⟨hlater, hstored⟩ := hfound
  refine secure_pure fun last _ hlast => ?_
  have hall : spot.Keeps first last := (hkeeps.trans hlater).trans hlast
  refine ⟨hall.way, fun hok => ?_, fun _ _ => jarAt_congr hall.text⟩
  cases found with
  | error e => cases hok
  | ok stored =>
    have hjar : stored = jarAt spot.path first.tree :=
      (hstored stored rfl).trans (jarAt_congr hkeeps.text)
    subst hjar
    exact ⟨middle.now, htimes middle hmiddle, rfl, jarAt_congr hall.text⟩

theorem secure_save (hserves : spot.Serves sound guarantee)
    (hne : Path.place spot.temporary ≠ Path.place spot.path)
    (htimes : ∀ disk, sound disk → times disk.now) (hsound : sound first) {newer : Jar}
    (hfinite : newer.IsFinite) :
    Secure sound spot.Keeps guarantee (fun a later => Effect times spot (.save newer) a first later)
      (work spot (.save newer)) first := by
  refine Secure.bind (Spot.Keeps.refl spot) hsound (secure_readJar hserves)
    fun found middle _ hfound => ?_
  obtain ⟨hmiddle, hstored⟩ := hfound
  cases found with
  | error e =>
    refine secure_pure fun last _ hlast => ?_
    have hall : spot.Keeps first last := hmiddle.trans hlast
    exact ⟨hall.way, nofun, fun _ _ => jarAt_congr hall.text⟩
  | ok stored =>
    have hjar := hstored stored rfl
    refine Spot.secure_step hserves .now fun clock hclock hkeeps => ?_
    let merged := merge (stored.getD .empty) newer (Binary64.ofNat clock.now)
    let replacement :=
      Filing.replace (some spot.directory) spot.temporary spot.path merged.toValue.pretty
    have hsince : spot.Since first clock := .of_keeps (hmiddle.trans hkeeps)
    have hreplace : Secure sound spot.Keeps guarantee (spot.Replaced first merged.toValue.pretty)
        replacement clock := Spot.secure_replace hne hserves hsince
    refine Secure.bind (p := replacement) (Spot.Keeps.refl spot) hclock hreplace
      fun written replaced _ hreplaced => ?_
    refine secure_pure fun last _ hlast => ?_
    cases written with
    | error e =>
      have hlater : spot.Since first last := hreplaced.keeps hlast
      exact ⟨hlater.way, nofun, fun _ hopen => jarAt_congr (hlater.text hopen)⟩
    | ok _ =>
      obtain ⟨hway, htext⟩ := hreplaced
      have hmerged : merged.IsFinite := isFinite_merge
        (isFinite_getD fun jar hjar' => isFinite_of_jarAt (hjar ▸ hjar')) hfinite _
      refine ⟨fun _ => hlast.way hway, fun _ => ⟨clock.now, htimes clock hclock, rfl, ?_⟩,
        nofun⟩
      rw [jarAt, hlast.text, htext, Option.bind_some, parseJar_pretty hmerged, ← hjar]
      rfl

/-- A call has its effect whatever happens beside it. -/
theorem secure_work (hserves : spot.Serves sound guarantee)
    (hne : Path.place spot.temporary ≠ Path.place spot.path)
    (htimes : ∀ disk, sound disk → times disk.now) (hsound : sound first) {visit : Visit}
    (hfinite : visit.IsFinite) :
    Secure sound spot.Keeps guarantee (fun a later => Effect times spot visit a first later)
      (work spot visit) first := by
  cases visit with
  | load => exact secure_load hserves htimes
  | save newer => exact secure_save hserves hne htimes hsound hfinite

end Visit

end Jobflow.Cookie
