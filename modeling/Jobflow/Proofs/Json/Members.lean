import Jobflow.Json.Read
import Jobflow.Proofs.Dict
import Jobflow.Proofs.Success

/-!
Records and lists read from values in memory. The members of a map stand in the order of their
names, so the fields of a record are read from it in that order too, whatever else the map binds,
and what is reported is the first fault among them. A list is read alike from documents that are
read alike one by one.
-/

namespace Jobflow.Json

variable {α σ : Type} {site : Site}

mutual

/-- A value in memory can always be passed over. -/
theorem skip_ofValue (value : Value) : (Document.ofValue value).skip = .ok () := by
  match value with
  | .null | .bool _ | .number _ | .string _ => rfl
  | .array items => rw [Document.ofValue, Document.skip, skipItems_ofItems]; rfl
  | .object members => rw [Document.ofValue, Document.skip, skipMembers_ofMembers]; rfl

theorem skipItems_ofItems (items : List Value) :
    Document.skipItems (Document.ofItems items) = .ok () := by
  match items with
  | [] => rfl
  | item :: rest =>
    rw [Document.ofItems, Document.skipItems, skip_ofValue, skipItems_ofItems]
    rfl

theorem skipMembers_ofMembers (members : List (String × Value)) :
    Document.skipMembers (Document.ofMembers members) = .ok () := by
  match members with
  | [] => rfl
  | (name, value) :: rest =>
    rw [Document.ofMembers, Document.skipMembers, skip_ofValue, skipMembers_ofMembers]
    rfl

end

/-- What the map binds to the name, read, or nothing. -/
def readMember? (reader : Reader α) (site : Site) (members : Dict Value) (name : String) :
    Except Error (Option α) :=
  match Dict.find? name members with
  | none => .ok none
  | some value => (reader site (.ofValue value)).map some

/-! ### Lists -/

section

variable {items : List Value} {d d' : Value → Document}

theorem ofItems_eq (items : List Value) : Document.ofItems items = items.map Document.ofValue := by
  induction items with
  | nil => rfl
  | cons item rest ih => rw [Document.ofItems, ih, List.map_cons]

theorem readItems_congr {reader : Reader α}
    (h : ∀ item ∈ items, reader site (d item) = reader site (d' item)) :
    readItems reader site (items.map d) = readItems reader site (items.map d') := by
  induction items with
  | nil => rfl
  | cons item rest ih =>
    obtain ⟨hitem, hrest⟩ := List.forall_mem_cons.mp h
    simp only [List.map_cons, readItems, hitem, ih hrest]

namespace Record

variable {record : Record σ} {fields : List (RecordField σ)}

/-- Every field takes one element, as long as there are any. -/
theorem readElements_eq (index : Nat) (docs : List Document) (stop : Stop) (draft : σ) :
    record.readElements site fields index docs stop draft =
      ((record.readElements site fields index docs stop draft).map Prod.fst).map
        fun filled => (filled, docs.drop fields.length) := by
  induction fields generalizing index docs draft with
  | nil => rfl
  | cons f fields ih =>
    cases docs with
    | nil =>
      rw [readElements]
      cases stop.readList with
      | error cause => rfl
      | ok _ =>
        simp only [malformed, ok_bind]
        split
        · rw [List.drop_nil]
          simpa only [List.drop_nil] using ih (index + 1) [] draft
        · rfl
    | cons doc docs =>
      rw [readElements]
      cases f.read site doc draft with
      | error cause => rfl
      | ok next => exact ih _ docs next

theorem readElements_congr (record : Record σ) (h : ∀ f ∈ fields, ∀ item ∈ items, ∀ draft,
      f.read site (d item) draft = f.read site (d' item) draft)
    (index : Nat) (stop : Stop) (draft : σ) :
    (record.readElements site fields index (items.map d) stop draft).map Prod.fst =
      (record.readElements site fields index (items.map d') stop draft).map Prod.fst := by
  induction fields generalizing index items draft with
  | nil => rfl
  | cons f fields ih =>
    obtain ⟨hf, hfields⟩ := List.forall_mem_cons.mp h
    cases items with
    | nil => rfl
    | cons item items =>
      simp only [List.map_cons, readElements, hf item List.mem_cons_self]
      cases f.read site (d' item) draft with
      | error cause => rfl
      | ok next =>
        exact ih (fun g hg other hother =>
          hfields g hg other (List.mem_cons_of_mem item hother)) _ _

/-- Of the elements left over only the number matters. -/
theorem leftover_map (d d' : Value → Document) (length : Nat) (items : List Value) (stop : Stop) :
    record.leftover site length (items.map d) stop =
      record.leftover site length (items.map d') stop := by
  unfold leftover
  cases items with
  | nil => rfl
  | cons item rest => cases site.origin <;> rfl

/-- A record is read alike from lists of elements that are read alike. -/
theorem read_array_congr {inside : Site} (henter : site.enter = .ok inside)
    (h : ∀ f ∈ record.fields, ∀ item ∈ items, ∀ draft,
      f.read inside (d item) draft = f.read inside (d' item) draft) (empty : σ)
    (finish : σ → Except Error α) (stop : Stop) :
    record.read empty finish site (.array (items.map d) stop) =
      record.read empty finish site (.array (items.map d') stop) := by
  have hdraft := readElements_congr record h 0 stop empty
  simp only [read, henter, ok_bind, List.length_map]
  rw [readElements_eq 0 (items.map d), readElements_eq 0 (items.map d'), hdraft,
    ← List.map_drop, ← List.map_drop]
  cases (record.readElements inside record.fields 0 (items.map d') stop empty).map Prod.fst with
  | error cause => rfl
  | ok draft => simp only [Except.map, ok_bind, leftover_map d d']

end Record

end

/-! ### Records -/

namespace Record

variable {record : Record σ}

/-- Members that are no fields do not matter. -/
theorem readMembers_filter (hlenient : record.isStrict = false) (members : Dict Value) (draft : σ) :
    record.readMembers site (Document.ofMembers members) draft =
      record.readMembers site
        (Document.ofMembers (members.filter fun member => (record.find? member.1).isSome))
          draft := by
  induction members generalizing draft with
  | nil => rfl
  | cons member rest ih =>
    obtain ⟨name, value⟩ := member
    cases hfind : record.find? name with
    | none =>
      rw [List.filter_cons_of_neg (by simp [hfind]), ← ih, Document.ofMembers, readMembers]
      simp only [malformed, ok_bind, hfind, hlenient, skip_ofValue, Bool.false_eq_true, if_false]
    | some f =>
      rw [List.filter_cons_of_pos (by simp [hfind]), Document.ofMembers, Document.ofMembers]
      simp only [readMembers, malformed, ok_bind, hfind, ih]

/-- Reading the field `f` does not set the field `g`. -/
def Spares (f g : RecordField σ) : Prop :=
  ∀ site doc draft filled, f.read site doc draft = .ok filled → g.isSet filled = g.isSet draft

theorem spares_field {name : String} {mayBeMissing : Bool} {get : σ → Option α} {put : σ → α → σ}
    {reader : Reader α} {g : RecordField σ}
    (h : ∀ draft a, g.isSet (put draft a) = g.isSet draft) :
    Spares (field name mayBeMissing get put reader) g := by
  intro site doc draft filled hread
  obtain ⟨a, -, hput⟩ := bind_eq_ok_iff.mp hread
  obtain rfl := Except.ok.inj hput
  exact h draft a

/-- These are the fields of the record, in the order of their names. -/
structure InOrder (record : Record σ) (fields : List (RecordField σ)) : Prop where
  lenient : record.isStrict = false
  mem_iff : ∀ f, f ∈ fields ↔ f ∈ record.fields
  increasing : fields.Pairwise fun f g => f.name < g.name
  spares : fields.Pairwise Spares

variable {fields : List (RecordField σ)}

theorem InOrder.find? (h : record.InOrder fields) {f : RecordField σ} (hf : f ∈ fields) :
    record.find? f.name = some f := by
  have hname : (fields.map RecordField.name).Nodup :=
    List.pairwise_map.mpr (h.increasing.imp LT.lt.ne)
  cases hfind : record.find? f.name with
  | none =>
    have hnone := List.find?_eq_none.mp hfind f ((h.mem_iff f).mp hf)
    simp at hnone
  | some g =>
    have hg : g ∈ fields := (h.mem_iff g).mpr (List.mem_of_find?_eq_some hfind)
    have heq : g.name = f.name := by simpa using List.find?_some hfind
    rw [List.inj_on_of_nodup_map hname hg hf heq]

theorem InOrder.isSome_find?_iff (h : record.InOrder fields) {name : String} :
    (record.find? name).isSome ↔ ∃ f ∈ fields, f.name = name := by
  constructor
  · intro hfound
    obtain ⟨f, hf⟩ := Option.isSome_iff_exists.mp hfound
    exact ⟨f, (h.mem_iff f).mpr (List.mem_of_find?_eq_some hf), by simpa using List.find?_some hf⟩
  · rintro ⟨f, hf, rfl⟩
    rw [h.find? hf]
    rfl

/-- The bindings of the fields in a map. -/
def present (fields : List (RecordField σ)) (members : Dict Value) : Dict Value :=
  fields.filterMap fun f => (Dict.find? f.name members).map fun value => (f.name, value)

theorem mem_present_iff {members : Dict Value} {binding : String × Value} :
    binding ∈ present fields members ↔
      ∃ f ∈ fields, f.name = binding.1 ∧ Dict.find? f.name members = some binding.2 := by
  simp only [present, List.mem_filterMap, Option.map_eq_some_iff]
  constructor
  · rintro ⟨f, hf, value, hvalue, rfl⟩
    exact ⟨f, hf, rfl, hvalue⟩
  · rintro ⟨f, hf, hname, hvalue⟩
    exact ⟨f, hf, binding.2, hvalue, by rw [hname]⟩

/-- The members of a map in order that are fields are the bindings of the fields, in order. -/
theorem InOrder.filter_eq (h : record.InOrder fields) {members : Dict Value}
    (hmembers : members.Ordered) :
    (members.filter fun member => (record.find? member.1).isSome) = present fields members := by
  apply Dict.eq_of_mem_iff
  · exact hmembers.filter _
  · refine h.increasing.filterMap _ ?_
    intro f g hlt b hb c hc
    obtain ⟨v, -, rfl⟩ := Option.map_eq_some_iff.mp hb
    obtain ⟨w, -, rfl⟩ := Option.map_eq_some_iff.mp hc
    exact hlt
  · intro binding
    obtain ⟨name, value⟩ := binding
    rw [List.mem_filter, h.isSome_find?_iff, mem_present_iff]
    constructor
    · rintro ⟨hin, f, hf, rfl⟩
      exact ⟨f, hf, rfl, (Dict.find?_eq_some_iff hmembers.nodup).mpr hin⟩
    · rintro ⟨f, hf, rfl, hfound⟩
      exact ⟨(Dict.find?_eq_some_iff hmembers.nodup).mp hfound, f, hf, rfl⟩

/-- Fills the draft with the field, if the map has it. -/
def readFrom (site : Site) (members : Dict Value) (draft : σ) (f : RecordField σ) :
    Except Error σ :=
  match Dict.find? f.name members with
  | none => .ok draft
  | some value => f.read site (.ofValue value) draft

theorem readMembers_present {members : Dict Value}
    (hfind : ∀ f ∈ fields, record.find? f.name = some f)
    (hspares : fields.Pairwise Spares) {draft : σ} (hunset : ∀ f ∈ fields, f.isSet draft = false) :
    record.readMembers site (Document.ofMembers (present fields members)) draft =
      fields.foldlM (readFrom site members) draft := by
  induction fields generalizing draft with
  | nil => rfl
  | cons f fields ih =>
    obtain ⟨hf, hfields⟩ := List.forall_mem_cons.mp hfind
    obtain ⟨hsparesf, hspares⟩ := List.pairwise_cons.mp hspares
    obtain ⟨hunsetf, hunset⟩ := List.forall_mem_cons.mp hunset
    rw [List.foldlM_cons, readFrom, present, List.filterMap_cons]
    cases hvalue : Dict.find? f.name members with
    | none => exact ih hfields hspares hunset
    | some value =>
      simp only [Option.map_some, Document.ofMembers, readMembers, malformed, ok_bind, hf, hunsetf,
        Bool.false_eq_true, if_false]
      cases hread : f.read site (.ofValue value) draft with
      | error cause => rfl
      | ok filled =>
        refine ih hfields hspares fun g hg => ?_
        rw [hsparesf g hg _ _ _ _ hread, hunset g hg]

/-- From a map in order the fields of a record are read in the order of their names. -/
theorem InOrder.readMembers_eq (h : record.InOrder fields) {members : Dict Value}
    (hmembers : members.Ordered) {draft : σ} (hunset : ∀ f ∈ fields, f.isSet draft = false) :
    record.readMembers site (Document.ofMembers members) draft =
      fields.foldlM (readFrom site members) draft := by
  rw [readMembers_filter h.lenient, h.filter_eq hmembers]
  exact readMembers_present (fun f => h.find?) h.spares hunset

/-- So a record is what is made of its fields, read in the order of their names. -/
theorem InOrder.read_ofValue (h : record.InOrder fields) {inside : Site} {members : Dict Value}
    (hmembers : members.Ordered) {empty : σ} (hunset : ∀ f ∈ fields, f.isSet empty = false)
    (finish : σ → Except Error α) (henter : site.enter = .ok inside) :
    record.read empty finish site (.ofValue (.object members)) =
      fields.foldlM (readFrom inside members) empty >>= finish := by
  rw [Document.ofValue, read, henter, ok_bind, h.readMembers_eq hmembers hunset]
  rfl

theorem readFrom_field (name : String) (mayBeMissing : Bool) (get : σ → Option α)
    (put : σ → α → σ) (reader : Reader α) (members : Dict Value) (draft : σ) :
    readFrom site members draft (field name mayBeMissing get put reader) = do
      let found ← readMember? reader site members name
      return found.elim draft (put draft) := by
  unfold readFrom readMember?
  simp only [field]
  cases Dict.find? name members with
  | none => rfl
  | some value =>
    dsimp only
    cases reader site (.ofValue value) <;> rfl

end Record

end Jobflow.Json
