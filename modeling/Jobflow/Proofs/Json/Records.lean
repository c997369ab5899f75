import Jobflow.Json.Read
import Jobflow.Proofs.Success

/-!
What readers of lists and records give: the items of a list come from the reader of the items,
and what every field of a record keeps holds of the whole draft. What is known of the document
that is read, such as the range of its numbers, is known of the documents inside it.
-/

namespace Jobflow.Json

/-- What holds of a document holds of the documents inside it. -/
structure Hereditary (D : Document → Prop) : Prop where
  items : ∀ {items stop}, D (.array items stop) → ∀ doc ∈ items, D doc
  members : ∀ {members stop}, D (.object members stop) → ∀ member ∈ members, D member.2

theorem hereditary_true : Hereditary fun _ => True := ⟨fun _ _ _ => trivial, fun _ _ _ => trivial⟩

variable {α σ : Type} {D : Document → Prop}

theorem enter_text (depth : Nat) :
    (⟨.text, depth + 2⟩ : Site).enter = .ok ⟨.text, depth + 1⟩ := rfl

theorem parsed_of_readText {expected : String} {parse : String → Except Error α} {site : Site}
    {doc : Document} {a : α} (h : readText expected parse site doc = .ok a) :
    ∃ s, parse s = .ok a := by
  unfold readText at h
  split at h
  · exact ⟨_, h⟩
  · obtain ⟨found, -, hwrong⟩ := bind_eq_ok_iff.mp h
    cases hwrong

theorem read_of_mem_readItems {reader : Reader α} {site : Site} {docs : List Document} {as : List α}
    (h : readItems reader site docs = .ok as) :
    ∀ a ∈ as, ∃ doc ∈ docs, reader site doc = .ok a := by
  induction docs generalizing as with
  | nil =>
    obtain rfl := Except.ok.inj h
    nofun
  | cons doc docs ih =>
    obtain ⟨a, ha, h⟩ := bind_eq_ok_iff.mp h
    obtain ⟨rest, hrest, h⟩ := bind_eq_ok_iff.mp h
    obtain rfl := Except.ok.inj h
    intro b hb
    rcases List.mem_cons.mp hb with rfl | hb
    · exact ⟨doc, List.mem_cons_self, ha⟩
    · obtain ⟨inner, hmem, hinner⟩ := ih hrest b hb
      exact ⟨inner, List.mem_cons_of_mem doc hmem, hinner⟩

theorem read_of_mem_readList (hD : Hereditary D) {reader : Reader α} {site : Site} {doc : Document}
    {as : List α} (hdoc : D doc) (h : readList reader site doc = .ok as) :
    ∀ a ∈ as, ∃ inside doc, D doc ∧ reader inside doc = .ok a := by
  unfold readList at h
  split at h
  · obtain ⟨inside, -, h⟩ := bind_eq_ok_iff.mp h
    obtain ⟨items, hitems, h⟩ := bind_eq_ok_iff.mp h
    obtain ⟨_, -, h⟩ := bind_eq_ok_iff.mp h
    obtain rfl := Except.ok.inj h
    intro a ha
    obtain ⟨inner, hmem, hinner⟩ := read_of_mem_readItems hitems a ha
    exact ⟨inside, inner, hD.items hdoc inner hmem, hinner⟩
  · obtain ⟨found, -, hwrong⟩ := bind_eq_ok_iff.mp h
    cases hwrong

/-! ### Records -/

theorem eq_some_of_required {name : String} {found : Option α} {a : α}
    (h : required name found = .ok a) : found = some a := by
  cases found with
  | none => cases h
  | some b => exact congrArg some (Except.ok.inj h)

/-- The field keeps what holds of a draft, read from a document with `D`. -/
def RecordField.Keeps (f : RecordField σ) (D : Document → Prop) (P : σ → Prop) : Prop :=
  ∀ site doc draft filled, D doc → P draft → f.read site doc draft = .ok filled → P filled

theorem keeps_field {name : String} {mayBeMissing : Bool} {get : σ → Option α} {put : σ → α → σ}
    {reader : Reader α} {P : σ → Prop}
    (h : ∀ {site doc a draft}, D doc → reader site doc = .ok a → P draft → P (put draft a)) :
    (field name mayBeMissing get put reader).Keeps D P := by
  intro site doc draft filled hdoc hdraft hread
  obtain ⟨a, ha, hput⟩ := bind_eq_ok_iff.mp hread
  obtain rfl := Except.ok.inj hput
  exact h hdoc ha hdraft

namespace Record

variable {record : Record σ} {P : σ → Prop} {site : Site}

theorem kept_by_readMembers (hkeeps : ∀ f ∈ record.fields, f.Keeps D P)
    {members : List (Except SyntaxError String × Document)}
    (hmembers : ∀ member ∈ members, D member.2) {draft filled : σ} (hdraft : P draft)
    (h : record.readMembers site members draft = .ok filled) : P filled := by
  induction members generalizing draft with
  | nil =>
    obtain rfl := Except.ok.inj h
    exact hdraft
  | cons member members ih =>
    obtain ⟨name, value⟩ := member
    have hrest := fun other hother => hmembers other (List.mem_cons_of_mem _ hother)
    obtain ⟨name, -, h⟩ := bind_eq_ok_iff.mp h
    split at h
    · split at h
      · cases h
      · obtain ⟨_, -, h⟩ := bind_eq_ok_iff.mp h
        exact ih hrest hdraft h
    · next f hfind =>
      split at h
      · cases h
      · obtain ⟨next, hnext, h⟩ := bind_eq_ok_iff.mp h
        have hkept := hkeeps f (List.mem_of_find?_eq_some hfind) _ _ _ _
          (hmembers _ List.mem_cons_self) hdraft hnext
        exact ih hrest hkept h

theorem kept_by_readElements {fields : List (RecordField σ)} (hkeeps : ∀ f ∈ fields, f.Keeps D P)
    {index : Nat} {items left : List Document} (hitems : ∀ doc ∈ items, D doc) {stop : Stop}
    {draft filled : σ} (hdraft : P draft)
    (h : record.readElements site fields index items stop draft = .ok (filled, left)) :
    P filled := by
  induction fields generalizing index items draft with
  | nil =>
    obtain ⟨rfl, -⟩ := Prod.mk.inj (Except.ok.inj h)
    exact hdraft
  | cons f fields ih =>
    have hrest := fun g hg => hkeeps g (List.mem_cons_of_mem f hg)
    cases items with
    | nil =>
      obtain ⟨_, -, h⟩ := bind_eq_ok_iff.mp h
      split at h
      · exact ih hrest hitems hdraft h
      · cases h
    | cons item items =>
      obtain ⟨next, hnext, h⟩ := bind_eq_ok_iff.mp h
      have hkept := hkeeps f List.mem_cons_self _ _ _ _
        (hitems item List.mem_cons_self) hdraft hnext
      exact ih hrest (fun doc hdoc => hitems doc (List.mem_cons_of_mem item hdoc)) hkept h

/-- A record is finished from a draft that has what every field keeps. -/
theorem draft_of_read (hD : Hereditary D) {empty : σ} {finish : σ → Except Error α} {doc : Document}
    {a : α} (hdoc : D doc) (h : record.read empty finish site doc = .ok a) (hempty : P empty)
    (hkeeps : ∀ f ∈ record.fields, f.Keeps D P) : ∃ draft, P draft ∧ finish draft = .ok a := by
  unfold read at h
  split at h
  · obtain ⟨inside, -, h⟩ := bind_eq_ok_iff.mp h
    obtain ⟨draft, hdraft, h⟩ := bind_eq_ok_iff.mp h
    obtain ⟨_, -, h⟩ := bind_eq_ok_iff.mp h
    exact ⟨draft, kept_by_readMembers hkeeps (hD.members hdoc) hempty hdraft, h⟩
  · obtain ⟨inside, -, h⟩ := bind_eq_ok_iff.mp h
    obtain ⟨⟨draft, left⟩, hdraft, h⟩ := bind_eq_ok_iff.mp h
    obtain ⟨b, hb, h⟩ := bind_eq_ok_iff.mp h
    obtain ⟨_, -, h⟩ := bind_eq_ok_iff.mp h
    obtain rfl := Except.ok.inj h
    exact ⟨draft, kept_by_readElements hkeeps (hD.items hdoc) hempty hdraft, hb⟩
  · obtain ⟨found, -, hwrong⟩ := bind_eq_ok_iff.mp h
    cases hwrong

/-! ### Records that are whole -/

/-- A member that is a field not read before is read by the reader of that field. -/
theorem readMembers_field {β : Type} {name : String} {mayBeMissing : Bool} {get : σ → Option β}
    {put : σ → β → σ} {reader : Reader β} {value : Document} {b : β} {draft filled : σ}
    {rest : List (Except SyntaxError String × Document)}
    (hfind : record.find? name = some (field name mayBeMissing get put reader))
    (hunset : get draft = none) (hread : reader site value = .ok b)
    (hrest : record.readMembers site rest (put draft b) = .ok filled) :
    record.readMembers site ((.ok name, value) :: rest) draft = .ok filled := by
  simp only [readMembers, malformed, bind, Except.bind, hfind]
  simpa [field, hunset, hread, bind, Except.bind, pure, Except.pure] using hrest

/-- A record is what is made of its members, when all of them are read. -/
theorem read_object {members : List (Except SyntaxError String × Document)} {empty draft : σ}
    {finish : σ → Except Error α} {inside : Site} {a : α} (henter : site.enter = .ok inside)
    (hdraft : record.readMembers inside members empty = .ok draft)
    (hfinish : finish draft = .ok a) :
    record.read empty finish site (.object members .closed) = .ok a := by
  simpa only [read, henter, hdraft, bind, Except.bind, Stop.readObject, malformed] using hfinish

end Record

end Jobflow.Json
