import Jobflow.Proofs.Json.Members
import Jobflow.Proofs.Json.Names
import Jobflow.Proofs.Json.Printing
import Jobflow.Workflow.Form

/-!
What a form document says. The properties of a form are found by their names in any case and read in
the order of their names, and nothing else in the document matters. So a document in which no two
names differ in case only can be written with its names in any case.
-/

namespace Jobflow.Workflow

open Jobflow.Json
open Jobflow.Text (lower sameIgnoringCase)

/-! ### Properties in any case -/

/-- The property of that name, written in any case. Of several the last one counts. -/
def property? (name : String) (members : List (String × Value)) : Option Value :=
  (members.reverse.find? fun member => sameIgnoringCase name member.1).map Prod.snd

theorem canonicalItems_eq (items : List Value) : canonicalItems items = items.map canonical := by
  induction items with
  | nil => rfl
  | cons item rest ih => rw [canonicalItems, ih, List.map_cons]

theorem canonicalMembers_eq (members : List (String × Value)) : canonicalMembers members =
    members.map fun member => (canonicalName member.1, canonical member.2) := by
  induction members with
  | nil => rfl
  | cons member rest ih => rw [canonicalMembers, ih, List.map_cons]

/-- Known names differ in more than case. -/
theorem eq_of_lower_eq {known other : String} (hknown : known ∈ knownProperties)
    (hother : other ∈ knownProperties) (h : lower known = lower other) : known = other := by
  have hall : ∀ known ∈ knownProperties, ∀ other ∈ knownProperties,
      lower known = lower other → known = other := by decide
  exact hall known hknown other hother h

theorem canonicalName_eq_iff {known name : String} (hknown : known ∈ knownProperties) :
    canonicalName name = known ↔ sameIgnoringCase known name = true := by
  rw [Text.sameIgnoringCase_iff, canonicalName]
  cases hfind : knownProperties.find? fun known => sameIgnoringCase known name with
  | none =>
    have hdiffer := List.find?_eq_none.mp hfind known hknown
    rw [Text.sameIgnoringCase_iff] at hdiffer
    exact ⟨fun heq => congrArg lower heq.symm, fun heq => absurd heq hdiffer⟩
  | some other =>
    have hfound := List.find?_some hfind
    have hsame := Text.sameIgnoringCase_iff.mp hfound
    have hother := List.mem_of_find?_eq_some hfind
    constructor
    · rintro rfl
      exact hsame
    · intro heq
      exact eq_of_lower_eq hother hknown (hsame.trans heq.symm)

/-- A map in the usual spelling binds the known names to their properties. -/
theorem find?_canonicalMembers {known : String} (hknown : known ∈ knownProperties)
    (members : List (String × Value)) :
    Dict.find? known (Dict.ofList (canonicalMembers members)) =
      (property? known members).map canonical := by
  have hname (member : String × Value) :
      decide (canonicalName member.1 = known) = sameIgnoringCase known member.1 := by
    rw [Bool.eq_iff_iff, decide_eq_true_iff, canonicalName_eq_iff hknown]
  rw [Dict.find?_ofList, canonicalMembers_eq, ← List.map_reverse, List.find?_map, property?]
  simp only [Function.comp_def, hname, Option.map_map]

/-! ### Properties of members with names apart -/

section

variable {members : List (String × Value)}

theorem mem_of_property? {name : String} {value : Value} (h : property? name members = some value) :
    ∃ member ∈ members, member.2 = value := by
  obtain ⟨member, hfind, rfl⟩ := Option.map_eq_some_iff.mp h
  exact ⟨member, List.mem_reverse.mp (List.mem_of_find?_eq_some hfind), rfl⟩

theorem property?_eq_some_iff (h : (members.map fun member => lower member.1).Nodup) {name : String}
    {value : Value} : property? name members = some value ↔
      ∃ other, (other, value) ∈ members ∧ lower name = lower other := by
  rw [property?, Option.map_eq_some_iff]
  constructor
  · rintro ⟨⟨other, value⟩, hfind, rfl⟩
    have hsame := List.find?_some hfind
    exact ⟨other, List.mem_reverse.mp (List.mem_of_find?_eq_some hfind),
      Text.sameIgnoringCase_iff.mp hsame⟩
  · rintro ⟨other, hin, hsame⟩
    refine ⟨(other, value), ?_, rfl⟩
    cases hfind : members.reverse.find? fun member => sameIgnoringCase name member.1 with
    | none =>
      have hdiffer := List.find?_eq_none.mp hfind _ (List.mem_reverse.mpr hin)
      exact absurd (Text.sameIgnoringCase_iff.mpr hsame) hdiffer
    | some found =>
      have hfound := List.find?_some hfind
      have hmem := List.mem_reverse.mp (List.mem_of_find?_eq_some hfind)
      have heq : lower found.1 = lower other :=
        (Text.sameIgnoringCase_iff.mp hfound).symm.trans hsame
      rw [List.inj_on_of_nodup_map h hmem hin heq]

theorem property?_perm {others : List (String × Value)}
    (h : (members.map fun member => lower member.1).Nodup) (hperm : members.Perm others)
    (name : String) : property? name members = property? name others := by
  have hothers : (others.map fun member => lower member.1).Nodup :=
    (hperm.map _).nodup_iff.mp h
  refine Option.ext fun value => ?_
  rw [property?_eq_some_iff h, property?_eq_some_iff hothers]
  exact exists_congr fun other => and_congr_left fun _ => hperm.mem_iff

/-- A property stays what it is when all names are made small. -/
theorem property?_lowerMembers (h : (members.map fun member => lower member.1).Nodup)
    (name : String) : property? name (Dict.ofList (Value.lowerMembers members)) =
      (property? name members).map Value.lowerNames := by
  have hapart : ((Value.lowerMembers members).map fun member => lower member.1).Nodup := by
    simpa only [Value.lowerMembers_eq, List.map_map, Function.comp_def, Text.lower_lower] using h
  have hperm := perm_ofList_of_apart hapart
  rw [← property?_perm hapart hperm.symm, Value.lowerMembers_eq, property?, ← List.map_reverse,
    List.find?_map, property?]
  simp only [Function.comp_def, Text.sameIgnoringCase_lower, Option.map_map]

end

/-! ### Reading a form -/

/-- Where a value in memory is read. -/
def inMemory : Site := ⟨.value, depthLimit⟩

/-- The property of that name, read in its usual spelling, or nothing if it is missing. -/
def readProperty? {α : Type} (reader : Reader α) (members : List (String × Value)) (name : String) :
    Except Error (Option α) :=
  match property? name members with
  | none => .ok none
  | some value => (reader inMemory (.ofValue (canonical value))).map some

theorem readMember?_canonicalMembers {α : Type} (reader : Reader α)
    (members : List (String × Value)) {known : String} (hknown : known ∈ knownProperties) :
    readMember? reader inMemory (Dict.ofList (canonicalMembers members)) known =
      readProperty? reader members known := by
  rw [readMember?, readProperty?, find?_canonicalMembers hknown]
  cases property? known members <;> rfl

namespace FormField

def Draft.nameField : RecordField Draft :=
  field "fieldName" true Draft.name (fun d s => { d with name := some s }) readString

def Draft.selectorField : RecordField Draft :=
  field "selector" true Draft.selector (fun d s => { d with selector := some s }) readString

def Draft.valueField : RecordField Draft :=
  field "dataValue" true Draft.value (fun d s => { d with value := some s }) readString

def Draft.typeField : RecordField Draft :=
  field "fieldType" true Draft.typeName (fun d s => { d with typeName := some s }) readString

/-- How a field of a form is read. -/
def record : Record Draft where
  expected := "struct FieldConfig"
  fields := [Draft.nameField, Draft.selectorField, Draft.valueField, Draft.typeField]

def Draft.finish (d : Draft) : Except Error FormField :=
  .ok ⟨d.name.getD "", d.selector.getD "", d.value.getD "", d.typeName.getD ""⟩

theorem read_eq : FormField.read = record.read {} Draft.finish := rfl

theorem record_inOrder : record.InOrder
    [Draft.valueField, Draft.nameField, Draft.typeField, Draft.selectorField] where
  lenient := rfl
  mem_iff f := by
    simp only [record, List.mem_cons, List.not_mem_nil, or_comm, or_left_comm]
  increasing := by
    simp only [List.pairwise_cons, List.forall_mem_cons]
    decide
  spares := by
    simp only [List.pairwise_cons, List.forall_mem_cons, List.not_mem_nil, false_implies,
      implies_true, List.Pairwise.nil, and_true]
    refine ⟨⟨?_, ?_, ?_⟩, ⟨?_, ?_⟩, ?_⟩ <;> exact Record.spares_field fun _ _ => rfl

/-- The properties of a field are read in the order of their names. -/
theorem read_object (members : List (String × Value)) :
    FormField.read inMemory (.ofValue (canonical (.object members))) = do
      let value ← readProperty? readString members "dataValue"
      let name ← readProperty? readString members "fieldName"
      let typeName ← readProperty? readString members "fieldType"
      let selector ← readProperty? readString members "selector"
      return ⟨name.getD "", selector.getD "", value.getD "", typeName.getD ""⟩ := by
  have hunset : ∀ f ∈ [Draft.valueField, Draft.nameField, Draft.typeField, Draft.selectorField],
      f.isSet {} = false := by
    simp only [List.forall_mem_cons]
    exact ⟨rfl, rfl, rfl, rfl, nofun⟩
  rw [read_eq, canonical, record_inOrder.read_ofValue (Dict.ordered_ofList _) hunset _ rfl]
  simp (disch := decide) only [List.foldlM_cons, List.foldlM_nil, Draft.valueField, Draft.nameField,
    Draft.typeField, Draft.selectorField, Record.readFrom_field, readMember?_canonicalMembers,
    bind_assoc, pure_bind]
  refine bind_congr fun value => bind_congr fun name => bind_congr fun typeName =>
    bind_congr fun selector => ?_
  cases value <;> cases name <;> cases typeName <;> cases selector <;> rfl

end FormField

namespace Form

def Draft.idField : RecordField Draft :=
  field "formId" true Draft.id (fun d s => { d with id := some s }) readString

def Draft.nameField : RecordField Draft :=
  field "formName" true Draft.name (fun d s => { d with name := some s }) readString

def Draft.fieldsField : RecordField Draft :=
  field "fields" true Draft.fields (fun d fs => { d with fields := some fs })
    (readList FormField.read)

/-- How a form is read. -/
def record : Record Draft where
  expected := "struct FormConfiguration"
  fields := [Draft.idField, Draft.nameField, Draft.fieldsField]

def Draft.finish (d : Draft) : Except Error Form :=
  .ok ⟨d.id.getD "", d.name.getD "", d.fields.getD []⟩

theorem read_eq : Form.read = record.read {} Draft.finish := rfl

theorem record_inOrder :
    record.InOrder [Draft.fieldsField, Draft.idField, Draft.nameField] where
  lenient := rfl
  mem_iff f := by
    simp only [record, List.mem_cons, List.not_mem_nil, or_comm, or_left_comm]
  increasing := by
    simp only [List.pairwise_cons, List.forall_mem_cons]
    decide
  spares := by
    simp only [List.pairwise_cons, List.forall_mem_cons, List.not_mem_nil, false_implies,
      implies_true, List.Pairwise.nil, and_true]
    refine ⟨⟨?_, ?_⟩, ?_⟩ <;> exact Record.spares_field fun _ _ => rfl

/-- The properties of a form are read in the order of their names. -/
theorem read_object (members : List (String × Value)) :
    Form.read inMemory (.ofValue (canonical (.object members))) = do
      let fields ← readProperty? (readList FormField.read) members "fields"
      let id ← readProperty? readString members "formId"
      let name ← readProperty? readString members "formName"
      return ⟨id.getD "", name.getD "", fields.getD []⟩ := by
  have hunset : ∀ f ∈ [Draft.fieldsField, Draft.idField, Draft.nameField], f.isSet {} = false := by
    simp only [List.forall_mem_cons]
    exact ⟨rfl, rfl, rfl, nofun⟩
  rw [read_eq, canonical, record_inOrder.read_ofValue (Dict.ordered_ofList _) hunset _ rfl]
  simp (disch := decide) only [List.foldlM_cons, List.foldlM_nil, Draft.fieldsField, Draft.idField,
    Draft.nameField, Record.readFrom_field, readMember?_canonicalMembers, bind_assoc, pure_bind]
  refine bind_congr fun fields => bind_congr fun id => bind_congr fun name => ?_
  cases fields <;> cases id <;> cases name <;> rfl

end Form

/-! ### Small names -/

/-- The reader reads a value with names apart as the value with small names. -/
def Indifferent {α : Type} (reader : Reader α) : Prop :=
  ∀ value : Value, value.NamesApart →
    reader inMemory (.ofValue (canonical value.lowerNames)) =
      reader inMemory (.ofValue (canonical value))

theorem indifferent_readString : Indifferent readString := by
  intro value _
  cases value <;> rfl

/-- The items of a list with small names, in their usual spelling. -/
theorem ofValue_canonical_array (items : List Value) : Document.ofValue (canonical (.array items)) =
    .array (items.map fun item => .ofValue (canonical item)) .closed := by
  rw [canonical, canonicalItems_eq, Document.ofValue, ofItems_eq, List.map_map]
  rfl

theorem ofValue_canonical_lowerNames_array (items : List Value) :
    Document.ofValue (canonical (Value.array items).lowerNames) =
      .array (items.map fun item => .ofValue (canonical item.lowerNames)) .closed := by
  rw [Value.lowerNames, Value.lowerItems_eq, ofValue_canonical_array, List.map_map]
  rfl

theorem readList_closed {α : Type} (reader : Reader α) (items : List Document) :
    readList reader inMemory (.array items .closed) = readItems reader inMemory items := by
  unfold readList
  change (readItems reader inMemory items >>= pure) = _
  exact bind_pure _

theorem Indifferent.readList {α : Type} {reader : Reader α} (h : Indifferent reader) :
    Indifferent (readList reader) := by
  intro value hvalue
  cases value with
  | array items =>
    have hitems := Value.allNamesApart_iff.mp hvalue
    rw [ofValue_canonical_array, ofValue_canonical_lowerNames_array, readList_closed,
      readList_closed]
    exact readItems_congr fun item hitem => h item (hitems item hitem)
  | _ => rfl

theorem readProperty?_lowerMembers {α : Type} {reader : Reader α} (h : Indifferent reader)
    {members : List (String × Value)} (hmembers : (Value.object members).NamesApart)
    (name : String) :
    readProperty? reader (Dict.ofList (Value.lowerMembers members)) name =
      readProperty? reader members name := by
  rw [readProperty?, readProperty?, property?_lowerMembers hmembers.1]
  cases hvalue : property? name members with
  | none => rfl
  | some value =>
    obtain ⟨member, hin, rfl⟩ := mem_of_property? hvalue
    exact congrArg (Except.map some) (h _ (Value.membersNamesApart_iff.mp hmembers.2 member hin))

theorem FormField.indifferent_read : Indifferent FormField.read := by
  intro value hvalue
  cases value with
  | array items =>
    have hitems := Value.allNamesApart_iff.mp hvalue
    rw [ofValue_canonical_array, ofValue_canonical_lowerNames_array, read_eq]
    refine Record.read_array_congr rfl ?_ _ _ _
    simp only [record, List.forall_mem_cons]
    refine ⟨?_, ?_, ?_, ?_, nofun⟩ <;>
      exact fun item hitem draft =>
        congrArg (· >>= _) (indifferent_readString item (hitems item hitem))
  | object members =>
    rw [Value.lowerNames, read_object, read_object]
    simp only [readProperty?_lowerMembers indifferent_readString hvalue]
  | _ => rfl

theorem formOfValue_object (members : List (String × Value)) : formOfValue (.object members) =
    (Form.read inMemory (.ofValue (canonical (.object members)))).mapError .unreadable := by
  unfold formOfValue decodeAs inMemory
  dsimp only
  cases Form.read ⟨.value, depthLimit⟩ (.ofValue (canonical (.object members))) <;> rfl

/-- A form is the same when all names are made small. -/
theorem formOfValue_lowerNames {value : Value} (h : value.NamesApart) :
    formOfValue value.lowerNames = formOfValue value := by
  cases value with
  | object members =>
    rw [Value.lowerNames, formOfValue_object, formOfValue_object, Form.read_object,
      Form.read_object]
    simp only [readProperty?_lowerMembers indifferent_readString h,
      readProperty?_lowerMembers FormField.indifferent_read.readList h]
  | _ => rfl

theorem parseForm_eq (text : String) : parseForm text =
    ((Json.parse text).mapError FormFault.unreadable >>= formOfValue).mapError
      fun fault => .configuration fault.message := by
  unfold parseForm
  cases Json.parse text with
  | error cause => rfl
  | ok value =>
    simp only [mapError_ok, ok_bind]
    cases formOfValue value <;> rfl

/-- A form is read from the value of a text with small names. -/
theorem formOfValue_parse {text : String} (h : (scan text).document.NamesApart) :
    (Json.parse text).mapError FormFault.unreadable >>= formOfValue =
      ((Json.parse text).map Value.lowerNames).mapError FormFault.unreadable >>= formOfValue := by
  cases hvalue : Json.parse text with
  | error cause => rfl
  | ok value => exact (formOfValue_lowerNames (namesApart_of_parse h hvalue)).symm

/-- A form document is read the same with its names in any other case. -/
theorem parseForm_of_lowerNames_eq {text other : String} (h : (scan text).document.NamesApart)
    (hnames : (scan other).document.lowerNames = (scan text).document.lowerNames)
    (htrailer : (scan other).hasTrailer = (scan text).hasTrailer) :
    parseForm other = parseForm text := by
  have hother : (scan other).document.NamesApart := by
    rw [← namesApart_lowerNames, hnames, namesApart_lowerNames]
    exact h
  rw [parseForm_eq, parseForm_eq, formOfValue_parse h, formOfValue_parse hother,
    map_lowerNames_parse h, map_lowerNames_parse hother, hnames, htrailer]

/-! ### What a form document describes -/

/-- The property is a text, or missing where the text is empty. -/
def IsText (members : List (String × Value)) (name text : String) : Prop :=
  match property? name members with
  | none => text = ""
  | some value => value = .string text

/-- The known properties of an object are texts, and the field has them. -/
structure FormField.DescribedBy (members : List (String × Value)) (f : FormField) : Prop where
  name : IsText members "fieldName" f.name
  selector : IsText members "selector" f.selector
  value : IsText members "dataValue" f.value
  typeName : IsText members "fieldType" f.typeName

/-- The known properties of an object are texts, and a list of objects for the fields of a form, and
the form has them. -/
structure Form.DescribedBy (members : List (String × Value)) (form : Form) : Prop where
  id : IsText members "formId" form.id
  name : IsText members "formName" form.name
  fields : match property? "fields" members with
    | none => form.fields = []
    | some value => ∃ objects : List (List (String × Value)),
      value = .array (objects.map Value.object) ∧
        List.Forall₂ FormField.DescribedBy objects form.fields

theorem IsText.read {members : List (String × Value)} {name text : String}
    (h : IsText members name text) :
    ∃ found, readProperty? readString members name = .ok found ∧ found.getD "" = text := by
  unfold IsText at h
  unfold readProperty?
  cases hvalue : property? name members with
  | none =>
    rw [hvalue] at h
    exact ⟨none, rfl, h.symm⟩
  | some value =>
    rw [hvalue] at h
    subst h
    exact ⟨some text, rfl, rfl⟩

theorem FormField.DescribedBy.read {members : List (String × Value)} {f : FormField}
    (h : f.DescribedBy members) :
    FormField.read inMemory (.ofValue (canonical (.object members))) = .ok f := by
  obtain ⟨value, hvalue, hvalueText⟩ := h.value.read
  obtain ⟨name, hname, hnameText⟩ := h.name.read
  obtain ⟨typeName, htype, htypeText⟩ := h.typeName.read
  obtain ⟨selector, hselector, hselectorText⟩ := h.selector.read
  rw [FormField.read_object, hvalue, hname, htype, hselector]
  simp only [ok_bind, hvalueText, hnameText, htypeText, hselectorText]
  rfl

theorem readItems_of_described {objects : List (List (String × Value))} {fields : List FormField}
    (h : List.Forall₂ FormField.DescribedBy objects fields) :
    readItems FormField.read inMemory
      (objects.map fun members => .ofValue (canonical (.object members))) = .ok fields := by
  induction h with
  | nil => rfl
  | cons hfield _ ih =>
    rw [List.map_cons, readItems, hfield.read, ih]
    rfl

theorem Form.DescribedBy.read {members : List (String × Value)} {form : Form}
    (h : form.DescribedBy members) : formOfValue (.object members) = .ok form := by
  have hfields : ∃ found, readProperty? (readList FormField.read) members "fields" = .ok found ∧
      found.getD [] = form.fields := by
    have hdescribed := h.fields
    unfold readProperty?
    cases hvalue : property? "fields" members with
    | none =>
      rw [hvalue] at hdescribed
      exact ⟨none, rfl, hdescribed.symm⟩
    | some value =>
      rw [hvalue] at hdescribed
      obtain ⟨objects, rfl, hobjects⟩ := hdescribed
      refine ⟨some form.fields, ?_, rfl⟩
      dsimp only
      rw [ofValue_canonical_array, List.map_map, readList_closed]
      exact congrArg (Except.map some) (readItems_of_described hobjects)
  obtain ⟨fields, hfields, hfieldsList⟩ := hfields
  obtain ⟨id, hid, hidText⟩ := h.id.read
  obtain ⟨name, hname, hnameText⟩ := h.name.read
  rw [formOfValue_object, Form.read_object, hfields, hid, hname]
  simp only [ok_bind, hfieldsList, hidText, hnameText]
  rfl

/-- The names in a form document count in any case. Documents that differ in the case of names only
give the same form or the same error, if no object in them has two names that differ in case only.
Of texts that are no JSON it says that they break for the same cause, not that they break at the
same position. A document whose known properties are texts, and a list of objects with such
properties for the fields, gives the form with exactly these. -/
theorem parseForm_ignores_case :
    (∀ text other : String, (scan text).document.NamesApart →
      (scan other).document.lowerNames = (scan text).document.lowerNames →
      (scan other).hasTrailer = (scan text).hasTrailer → parseForm other = parseForm text) ∧
    ∀ (text : String) (members : List (String × Value)) (form : Form),
      Json.parse text = .ok (.object members) → form.DescribedBy members →
      parseForm text = .ok form := by
  refine ⟨fun text other => parseForm_of_lowerNames_eq, fun text members form htext hform => ?_⟩
  rw [parseForm_eq, htext, mapError_ok, ok_bind, hform.read]
  rfl

/-- A form document with these names in it. -/
def formDocument (formId fields selector note : String) : Value :=
  .object [(formId, .string "apply"),
    (fields, .array [.object [(selector, .string "#email")]]), (note, .null)]

/-- The members of the object in a document with its names in capitals. -/
def shoutedMembers : List (String × Value) :=
  [("FIELDS", .array [.object [("SELECTOR", .string "#email")]]), ("FORMID", .string "apply"),
    ("NOTE", .null)]

theorem scan_formDocument (formId fields selector note : String) :
    scan (formDocument formId fields selector note).pretty =
      ⟨.ofValue (formDocument formId fields selector note), false⟩ := by
  have hreads : (formDocument formId fields selector note).ReadsAs id := by
    simp [formDocument, Value.ReadsAs, Value.AllReadAs, Value.MembersReadAs]
  rw [scan_pretty hreads, Value.mapNumbers_id]

theorem parse_shouted :
    Json.parse (formDocument "FORMID" "FIELDS" "SELECTOR" "NOTE").pretty =
      .ok (.object shoutedMembers) := by
  rw [Json.parse, parseAs, scan_formDocument]
  rfl

theorem describedBy_shouted :
    Form.DescribedBy shoutedMembers ⟨"apply", "", [⟨"", "#email", "", ""⟩]⟩ where
  id := rfl
  name := rfl
  fields :=
    ⟨[[("SELECTOR", .string "#email")]], rfl, .cons ⟨rfl, rfl, rfl, rfl⟩ .nil⟩

theorem parseForm_ignores_case_shouted :
    parseForm (formDocument "formid" "fields" "selector" "note").pretty =
        parseForm (formDocument "FORMID" "FIELDS" "SELECTOR" "NOTE").pretty ∧
      parseForm (formDocument "FORMID" "FIELDS" "SELECTOR" "NOTE").pretty =
        .ok ⟨"apply", "", [⟨"", "#email", "", ""⟩]⟩ := by
  -- the texts are scanned once, not wherever two statements about them are compared
  have hsame : ∀ text other source source', scan text = source → scan other = source' →
      source.document.NamesApart → source'.document.lowerNames = source.document.lowerNames →
      source'.hasTrailer = source.hasTrailer → parseForm other = parseForm text := by
    rintro text other _ _ rfl rfl
    exact parseForm_ignores_case.1 text other
  have hapart :
      (Document.ofValue (formDocument "FORMID" "FIELDS" "SELECTOR" "NOTE")).NamesApart :=
    ⟨by decide, trivial, ⟨⟨by decide, trivial, trivial⟩, trivial⟩, trivial, trivial⟩
  have hnames : (Document.ofValue (formDocument "formid" "fields" "selector" "note")).lowerNames =
      (Document.ofValue (formDocument "FORMID" "FIELDS" "SELECTOR" "NOTE")).lowerNames := by
    rfl
  exact ⟨hsame _ _ _ _ (scan_formDocument ..) (scan_formDocument ..) hapart hnames rfl,
    parseForm_ignores_case.2 _ shoutedMembers _ parse_shouted describedBy_shouted⟩

end Jobflow.Workflow
