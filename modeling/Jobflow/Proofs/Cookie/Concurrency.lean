import Jobflow.Proofs.Cookie.Merging

/-!
Calls on one store at a time. Whatever the order of their steps is and whatever the clock shows
meanwhile, the calls for a site take their effects one after another, so none of the cookies that
they bring is lost. Sites whose files have different names do not notice each other.
-/

namespace Jobflow.Cookie

open Jobflow.Files
open Jobflow.Decimal (Binary64)

variable {ι : Type}

/-- Calls on one store, each for one of some sites. -/
structure Calls (ι : Type) where
  store : Store
  sites : Set String
  site : ι → String
  mem : ∀ i, site i ∈ sites
  visit : ι → Visit
  finite : ∀ i, (visit i).IsFinite

/-- The calls before the first step of any, with every lock free. -/
def Store.together (store : Store) (site : ι → String) (visit : ι → Visit) (disk : Disk) :
    Joint ι Answer where
  threads i := store.perform (site i) (visit i)
  holder _ := none
  disk := disk

/-- The time at which calls begin, or one that the clock shows later. -/
def Shown (disk : Disk) (turns : List (Turn ι)) (now : Nat) : Prop :=
  now = disk.now ∨ .clock now ∈ turns

/-! ### One site -/

section
variable {times : Nat → Prop} {spotOf : ι → Spot} {visit : ι → Visit} {spot : Spot}
  {first last : Disk} {done : List (ι × Answer)}

/-- Calls that took their effects on one file one after another: those that succeeded returned
what they return, and left what they leave, when they are made in that order. -/
theorem exists_order (hown : ∀ call ∈ done, spotOf call.1 = spot)
    (h : Succession spot.Keeps (fun i a => Visit.Effect times (spotOf i) (visit i) a)
      first done last)
    (hopen : first.tree.Reaches spot.path ∨ ∀ call ∈ done, call.2.isOk = true) :
    ∃ order : List (ι × Nat),
      answers visit (jarAt spot.path first.tree) order = done.filter (fun call => call.2.isOk) ∧
      (∀ call ∈ order, times call.2) ∧
      jarAt spot.path last.tree = storedAfter visit (jarAt spot.path first.tree) order := by
  induction h with
  | rest hkeeps => exact ⟨[], rfl, nofun, jarAt_congr hkeeps.text⟩
  | @next first before after last i a later hkeeps heffect _ ih =>
    obtain ⟨hspot, hown⟩ := List.forall_mem_cons.mp hown
    dsimp only at hspot
    rw [hspot] at heffect
    have hbefore : jarAt spot.path before.tree = jarAt spot.path first.tree :=
      jarAt_congr hkeeps.text
    have hafter : after.tree.Reaches spot.path ∨ ∀ call ∈ later, call.2.isOk = true :=
      hopen.imp (fun hway => heffect.way (hkeeps.way hway)) fun hall =>
        (List.forall_mem_cons.mp hall).2
    obtain ⟨order, hanswers, htimes, hlast⟩ := ih hown hafter
    cases hok : a.isOk with
    | true =>
      obtain ⟨now, hnow, hanswer, hjar⟩ := heffect.succeeded hok
      rw [hbefore] at hanswer hjar
      rw [hjar] at hanswers hlast
      refine ⟨(i, now) :: order, ?_, List.forall_mem_cons.mpr ⟨hnow, htimes⟩, hlast⟩
      rw [List.filter_cons_of_pos (by exact hok), answers, hanswers, hanswer]
    | false =>
      -- a call that fails may show another file only where the way was not open
      have hway : first.tree.Reaches spot.path := hopen.resolve_right fun hall => by
        have hgood := (List.forall_mem_cons.mp hall).1
        rw [hok] at hgood
        cases hgood
      rw [heffect.failed hok (hkeeps.way hway), hbefore] at hanswers hlast
      exact ⟨order, by rw [List.filter_cons_of_neg (by simp [hok]), hanswers], htimes, hlast⟩

end

/-- The calls for a site have gone as if those that succeeded had been made one after another, in
an order and at times that the clock showed. -/
structure InOrder (store : Store) (sites : ι → String) (visit : ι → Visit) (times : Nat → Prop)
    (disk : Disk) (joint : Joint ι Answer) (site : String) (order : List (ι × Nat)) : Prop where
  distinct : (order.map Prod.fst).Nodup
  own : ∀ call ∈ order, sites call.1 = site ∧ times call.2
  /-- a call has returned a success just if it is in the order, and then what it returns after the
  calls before it -/
  returned : ∀ i a, sites i = site → a.isOk = true → (joint.threads i = .done a ↔
    ∃ before now later, order = before ++ (i, now) :: later ∧
      a = (visit i).answer now (storedAfter visit (jarAt (store.pathFor site) disk.tree) before))
  free : (∀ i, sites i = site → joint.isDone i = true) → joint.holder site = none
  stored : joint.holder site = none → jarAt (store.pathFor site) joint.disk.tree =
    storedAfter visit (jarAt (store.pathFor site) disk.tree) order
  losesNone : joint.holder site = none →
    LosesNone visit order (jarAt (store.pathFor site) disk.tree)
      (jarAt (store.pathFor site) joint.disk.tree)

/-! ### All sites -/

namespace Calls

variable (calls : Calls ι)

/-- The files that a call works on. -/
def spot (i : ι) : Spot := calls.store.spot (calls.site i)

/-- What holds of the tree all along: no operation of a call takes it away, and as long as it holds
none is noticed at another site. -/
structure Steady (steady : Tree → Prop) : Prop where
  kept : ∀ {i op disk}, (calls.spot i).Does op → steady disk.tree → steady (Disk.act op disk).2.tree
  unnoticed : ∀ {i site op disk}, site ∈ calls.sites → site ≠ calls.site i →
    (calls.spot i).Does op → steady disk.tree →
    (calls.store.spot site).Keeps disk (Disk.act op disk).2

variable {calls} {times : Nat → Prop} {steady : Tree → Prop}

theorem Steady.serves (h : calls.Steady steady) (i : ι) :
    (calls.spot i).Serves (fun disk => times disk.now ∧ steady disk.tree) fun before after =>
      ∀ site ∈ calls.sites, site ≠ calls.site i → (calls.store.spot site).Keeps before after := by
  rintro op disk hdoes ⟨hnow, hsteady⟩
  refine ⟨⟨?_, h.kept hdoes hsteady⟩, fun site hsite hne => h.unnoticed hsite hne hdoes hsteady⟩
  rw [Disk.now_act]
  exact hnow

/-- The calls share the disk: each has its effect, if the others leave its site alone. -/
def sharing (times : Nat → Prop) (h : calls.Steady steady) : Sharing ι Answer where
  locks := calls.sites
  lock := calls.site
  mem := calls.mem
  body i := (calls.visit i).work (calls.spot i)
  sound disk := times disk.now ∧ steady disk.tree
  rely site := (calls.store.spot site).Keeps
  effect i a := Visit.Effect times (calls.spot i) (calls.visit i) a
  times := times
  refl _ := Spot.Keeps.refl _
  trans _ _ _ _ := Spot.Keeps.trans
  clock _ _ hnow hsound := ⟨⟨hnow, hsound.2⟩, fun _ => ⟨rfl, fun _ h => h, fun h => h⟩⟩
  secure i _ hsound := Visit.secure_work (h.serves i) Store.place_spot_ne (fun _ hd => hd.1) hsound
    (calls.finite i)

theorem together_eq (times : Nat → Prop) (h : calls.Steady steady) (disk : Disk) :
    calls.store.together calls.site calls.visit disk = (calls.sharing times h).start disk := by
  simp only [Store.together, Sharing.start, Store.perform_eq]
  rfl

section
variable {h : calls.Steady steady} {disk : Disk} {log : String → List (ι × Answer)}
  {joint : Joint ι Answer} {site : String}

theorem inOrder_of_tidy (htidy : (calls.sharing times h).Tidy disk log joint)
    (hsite : site ∈ calls.sites) (hopen : disk.tree.Reaches (calls.store.pathFor site) ∨
      ∀ i a, joint.threads i = .done a → a.isOk = true) :
    ∃ order, InOrder calls.store calls.site calls.visit times disk joint site order := by
  obtain ⟨middle, hdone, hmiddle⟩ := htidy.exists_succession hsite
  have hown : ∀ call ∈ log site, calls.site call.1 = site := htidy.own site
  have hspot : ∀ call ∈ log site, calls.spot call.1 = calls.store.spot site :=
    fun call hcall => congrArg calls.store.spot (hown call hcall)
  have hway : disk.tree.Reaches (calls.store.spot site).path ∨
      ∀ call ∈ log site, call.2.isOk = true :=
    hopen.imp id fun hall call hcall => hall call.1 call.2 (htidy.returned site call hcall)
  obtain ⟨order, hanswers, htimes, hjar⟩ := exists_order hspot hdone hway
  dsimp only [Store.spot] at hanswers hjar
  have hfirsts : order.map Prod.fst = ((log site).filter fun call => call.2.isOk).map Prod.fst := by
    rw [← map_fst_answers, hanswers]
  have hstored : joint.holder site = none → jarAt (calls.store.pathFor site) joint.disk.tree =
      storedAfter calls.visit (jarAt (calls.store.pathFor site) disk.tree) order := by
    intro hfree
    rw [← hmiddle hfree]
    exact hjar
  refine ⟨order, ?_, ?_, ?_, fun hall => htidy.free_of_done hall, hstored, ?_⟩
  · rw [hfirsts]
    exact (htidy.distinct site).sublist (List.filter_sublist.map Prod.fst)
  · intro call hcall
    have hmem : call.1 ∈ ((log site).filter fun call => call.2.isOk).map Prod.fst :=
      hfirsts ▸ List.mem_map_of_mem hcall
    obtain ⟨returned, hreturned, heq⟩ := List.mem_map.mp hmem
    exact ⟨heq ▸ hown returned (List.mem_of_mem_filter hreturned), htimes call hcall⟩
  · intro i a hi hok
    rw [← mem_answers_iff, hanswers, List.mem_filter]
    exact ⟨fun hreturned => ⟨hi ▸ htidy.mem_of_done hreturned, hok⟩,
      fun hmem => htidy.returned site _ hmem.1⟩
  · intro hfree
    rw [hstored hfree]
    exact losesNone_storedAfter calls.visit order _

end

variable [DecidableEq ι]

/-- However the calls take their turns, those for each of the sites go in an order. -/
theorem Steady.exists_inOrder (h : calls.Steady steady) {disk : Disk} (hsteady : steady disk.tree)
    (turns : List (Turn ι)) {site : String} (hsite : site ∈ calls.sites)
    (hopen : disk.tree.Reaches (calls.store.pathFor site) ∨ ∀ i a,
      ((calls.store.together calls.site calls.visit disk).playTurns turns).threads i = .done a →
        a.isOk = true) :
    ∃ order, InOrder calls.store calls.site calls.visit (Shown disk turns) disk
      ((calls.store.together calls.site calls.visit disk).playTurns turns) site order := by
  have hturns : ∀ t ∈ turns, t.Shows (Shown disk turns) := by
    rintro (i | now) hmem
    · trivial
    · exact .inr hmem
  rw [together_eq (Shown disk turns) h] at hopen ⊢
  have hstart : (calls.sharing (Shown disk turns) h).Tidy disk (fun _ => [])
      ((calls.sharing (Shown disk turns) h).start disk) :=
    Sharing.tidy_start ⟨.inl rfl, hsteady⟩
  obtain ⟨log, htidy⟩ := hstart.playTurns hturns
  exact inOrder_of_tidy htidy hsite hopen

/-- Calls that are all for one site. -/
def ofSite (store : Store) (site : String) (visit : ι → Visit) (hfinite : ∀ i, (visit i).IsFinite) :
    Calls ι :=
  ⟨store, {site}, fun _ => site, fun _ => rfl, visit, hfinite⟩

omit [DecidableEq ι] in
theorem steady_ofSite (store : Store) (site : String) (visit : ι → Visit)
    (hfinite : ∀ i, (visit i).IsFinite) : (ofSite store site visit hfinite).Steady fun _ => True :=
  ⟨fun _ _ => trivial, fun hmem hne _ _ => absurd hmem hne⟩

end Calls

/-! ### Calls for one site -/

/-- Whatever the turns are in which calls for one site take their steps, and whatever the file of
the site holds, those that succeed go as if they had been made one after another: once nobody has
the lock the file holds what the saves among them leave in that order. Of each key it holds what
the last save with it brought, and of the other keys what was there, less what was past when
something was merged; each expiry is read back from its text whenever something is merged. A load
returns what is not past of what the calls before it have left. -/
theorem Store.saves_lose_no_cookies [DecidableEq ι] (store : Store) (site : String)
    (visit : ι → Visit) (hfinite : ∀ i, (visit i).IsFinite) (disk : Disk) (turns : List (Turn ι))
    (hopen : disk.tree.Reaches (store.pathFor site) ∨ ∀ i a,
      ((store.together (fun _ => site) visit disk).playTurns turns).threads i = .done a →
        a.isOk = true) :
    ∃ order, InOrder store (fun _ => site) visit (Shown disk turns) disk
      ((store.together (fun _ => site) visit disk).playTurns turns) site order := by
  exact (Calls.steady_ofSite store site visit hfinite).exists_inOrder trivial turns rfl hopen

/-! ### Two saves beside each other -/

def smallStore : Store := ⟨"c"⟩

/-- A cookie whose expiry, 4102444800000000512, is written with too many digits to come back. -/
def farCookie : Cookie :=
  ⟨"a", "1", none, none, some ⟨false, 8012587500000001, 9⟩, false, false, none⟩

def plainCookie : Cookie := ⟨"b", "2", none, none, none, false, false, none⟩

def twoSaves : Bool → Visit
  | false => .save ⟨[farCookie]⟩
  | true => .save ⟨[plainCookie]⟩

/-- The second save has to wait for the first, and the clock goes on meanwhile. -/
def waitingTurns : List (Turn Bool) :=
  [.step false, .step true, .clock 60] ++ List.replicate 7 (.step false) ++
    List.replicate 8 (.step true)

def savedBeside : Joint Bool Answer :=
  (smallStore.together (fun _ => "jobs") twoSaves ⟨[], 0⟩).playTurns waitingTurns

theorem finite_twoSaves : ∀ i, (twoSaves i).IsFinite := by
  rintro (_ | _) c hc x hx
  · obtain rfl := List.mem_singleton.mp hc
    obtain rfl := Option.some.inj hx
    exact ⟨by decide, by decide⟩
  · obtain rfl := List.mem_singleton.mp hc
    cases hx

theorem ended_savedBeside : ∀ i, ∃ a, savedBeside.threads i = .done a ∧ a.isOk = true := by
  have hended : ∀ i, (match savedBeside.threads i with
      | .done a => a.isOk
      | .step _ _ => false) = true := by decide +kernel
  intro i
  have hi := hended i
  split at hi
  · next a hdone => exact ⟨a, hdone, hi⟩
  · cases hi

theorem Store.saves_lose_no_cookies_two :
    (∀ i, (twoSaves i).IsFinite) ∧ Tree.Reaches [] (smallStore.pathFor "jobs") ∧
      (∀ i, savedBeside.isDone i = true) ∧
      ∃ order, InOrder smallStore (fun _ => "jobs") twoSaves (Shown ⟨[], 0⟩ waitingTurns) ⟨[], 0⟩
        savedBeside "jobs" order :=
  ⟨finite_twoSaves, Tree.reaches_nil _, fun i => Joint.isDone_eq_true_iff.mpr
      ((ended_savedBeside i).imp fun _ => And.left),
    Store.saves_lose_no_cookies smallStore "jobs" twoSaves finite_twoSaves ⟨[], 0⟩ waitingTurns
      (.inl (Tree.reaches_nil _))⟩

/-- A cookie that is read back as another one does not survive a merge. -/
theorem not_mem_surviving {c : Cookie} (hne : c.reread ≠ c) (hreread : c.reread.reread = c.reread)
    {now : Nat} {times : List Nat} : c ∉ surviving (now :: times) [c] := by
  have hexact : ∀ kept ∈ ([c].filter fun c => !c.isExpired (Binary64.ofNat now)).map Cookie.reread,
      kept = c.reread := by
    intro kept hkept
    obtain ⟨old, hold, rfl⟩ := List.mem_map.mp hkept
    rw [List.mem_singleton.mp (List.mem_of_mem_filter hold)]
  intro hmem
  rw [surviving, List.foldl_cons, ← surviving,
    surviving_of_exact fun kept hkept => by rw [hexact kept hkept, hreread]] at hmem
  exact hne (hexact c (List.mem_of_mem_filter hmem)).symm

/-- One of two saves brings `a`. Both succeed, `a` is not past, and yet the file does not have it
as it was brought. -/
theorem saved_expiry_changes :
    (∀ i, ∃ a, savedBeside.threads i = .done a ∧ a.isOk = true) ∧
      storedUnder (jarAt (smallStore.pathFor "jobs") savedBeside.disk.tree) farCookie.key ≠
        [farCookie].filter fun c => !c.isExpired (Binary64.ofNat 60) := by
  refine ⟨ended_savedBeside, fun hstored => ?_⟩
  have hfresh : farCookie ∈ [farCookie].filter fun c => !c.isExpired (Binary64.ofNat 60) := by
    decide +kernel
  have horders : ∃ order, InOrder smallStore (fun _ => "jobs") twoSaves
      (Shown ⟨[], 0⟩ waitingTurns) ⟨[], 0⟩ savedBeside "jobs" order :=
    (Calls.steady_ofSite smallStore "jobs" twoSaves finite_twoSaves).exists_inOrder trivial
      waitingTurns rfl (.inl (Tree.reaches_nil _))
  obtain ⟨order, horder⟩ := horders
  have hfree := horder.free fun i _ => Joint.isDone_eq_true_iff.mpr
    ((ended_savedBeside i).imp fun _ => And.left)
  obtain ⟨a, hdone, hok⟩ := ended_savedBeside false
  obtain ⟨before, now, later, hsplit, -⟩ := (horder.returned false a rfl hok).mp hdone
  have hlater : ∀ call ∈ later, ¬ (twoSaves call.1).Brings farCookie.key := by
    rintro ⟨i, time⟩ hcall hbrings
    cases i with
    | false =>
      have hdistinct := horder.distinct
      rw [hsplit, List.map_append, List.map_cons] at hdistinct
      have hagain : false ∈ later.map Prod.fst := List.mem_map_of_mem hcall
      exact (List.nodup_cons.mp hdistinct.of_append_right).1 hagain
    | true =>
      obtain ⟨c, hc, hkey⟩ := hbrings
      rw [List.mem_singleton.mp hc] at hkey
      exact absurd hkey (by decide)
  have hsaved := (horder.losesNone hfree).saved hsplit rfl
    ⟨farCookie, List.mem_singleton_self _, rfl⟩ hlater
  rw [← hstored, hsaved] at hfresh
  exact not_mem_surviving (by decide +kernel) (by decide +kernel) hfresh

end Jobflow.Cookie
